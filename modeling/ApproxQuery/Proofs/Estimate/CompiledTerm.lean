import ApproxQuery.Proofs.Estimate.SampleModel

/-!
# The compiled term of a query

On a complete sample of a tree the compiled term of a connected query divides by the multipliers of
the fan-outs that lead out of the query, and its conditions hold of the rows that have all tables of
the query and satisfy its conditions there.
-/

namespace ApproxQuery

open Expansion JoinPath

namespace JoinPath

variable {N : Type} {g : Schema N} {steps : List JoinStep} {e : Edge}

theorem exists_step_of_edge (he : e ∈ edges g steps) :
    ∃ s ∈ steps, g.relationship s.relationship = .ok e.relationship ∧
      (e.fansOut = true → ∃ table, s = .fanOut s.relationship table) := by
  obtain ⟨s, hs, hedge⟩ := List.mem_filterMap.mp he
  refine ⟨s, hs, ?_⟩
  cases s with
  | fanOut id table =>
    obtain ⟨r, hr, rfl⟩ := Option.map_eq_some_iff.mp hedge
    exact ⟨Schema.relationship_eq_ok.mpr hr, fun _ => ⟨table, rfl⟩⟩
  | lookup id table =>
    obtain ⟨r, hr, rfl⟩ := Option.map_eq_some_iff.mp hedge
    refine ⟨Schema.relationship_eq_ok.mpr hr, fun hfans => ?_⟩
    cases hfans
  | cycle id => cases hedge

end JoinPath

namespace Expansion

variable {g : Schema ℚ} {joined : List String} {steps : List JoinStep}
  {tables : SortedSet String} {r : Relationship}

theorem fanOuts_filter (h : Chain g joined steps) :
    fanOuts g (steps.filter (¬ Within tables ·)) =
      (FanOutWalk.outward (edges g steps) tables).map (·.relationship) := by
  induction h with
  | nil => rfl
  | @cycle joined r steps known source target rest ih =>
    have hout : ¬ Within tables (.cycle r.identifier) := by
      rintro ⟨table, hnew, -⟩
      cases hnew
    rw [List.filter_cons, if_pos (decide_eq_true hout)]
    exact ih
  | @fanOut joined r steps known source target rest ih =>
    have hwithin : Within tables (.fanOut r.identifier r.source) ↔ r.source ∈ tables := by
      simp [Within, JoinStep.newTable?]
    rw [edges_fanOut known, FanOutWalk.outward]
    by_cases htable : r.source ∈ tables
    · rw [List.filter_cons_of_neg (by simp [hwithin, htable]),
        List.filter_cons_of_neg (by simp [Edge.child, htable])]
      exact ih
    · rw [List.filter_cons_of_pos (by simp [hwithin, htable]),
        List.filter_cons_of_pos (by simp [Edge.child, htable]), List.map_cons, fanOuts,
        List.filterMap_cons]
      simp only [Schema.relationship_eq_ok.mp known]
      exact congrArg (r :: ·) ih
  | @lookup joined r steps known source target rest ih =>
    have hinner : FanOutWalk.outward (⟨r, false⟩ :: edges g steps) tables =
        FanOutWalk.outward (edges g steps) tables := rfl
    rw [edges_lookup known, hinner, List.filter_cons]
    split
    · exact ih
    · exact ih

theorem mem_fanOuts_filter {f : JoinStep → Bool} (h : r ∈ fanOuts g (steps.filter f)) :
    r ∈ fanOuts g steps := by
  obtain ⟨id, table, hstep, known⟩ := mem_fanOuts.mp h
  exact mem_fanOuts.mpr ⟨id, table, List.mem_of_mem_filter hstep, known⟩

end Expansion

namespace Sampler.Layout

variable {s : Sampler ℚ} {source : RawSource ℚ} {config : PreparationConfig ℚ}
  {ids : List String} {p : SamplePlan ℚ} {bs : List (TableBlock ℚ)} {w : JoinSample ℚ}
  {q : Query ℚ} {m : DensityModel ℚ} {t : JoinTuple} {e : Edge}

theorem tree (h : s.Layout source config ids p bs w)
    (hacyclic : ∀ step ∈ p.path.steps, step.newTable? ≠ none) :
    Tree [p.path.start] (edges s.schema p.path.steps) :=
  (h.chain.tree hacyclic).1

theorem steps_ne_nil (h : s.Layout source config ids p bs w) : p.path.steps ≠ [] := by
  refine JoinPath.steps_ne_nil h.path ?_
  rintro rfl
  cases h.start

theorem exists_block (h : s.Layout source config ids p bs w) {table : String}
    (htable : table ∈ p.path.tables) :
    ∃ place b, placeOf? bs table = some place ∧ place < p.path.tables.length ∧
      bs[place]? = some b ∧
      BlockOf s.schema source config (!p.path.steps.isEmpty) table b := by
  have hnames : bs.map TableBlock.name = p.path.tables ++ [] := by rw [List.append_nil, h.names]
  obtain ⟨place, b, hplace, hlt, hb, hname⟩ := placeOf?_of_mem hnames htable
  exact ⟨place, b, hplace, hlt, hb, hname ▸ h.blocks b (List.mem_of_getElem? hb)⟩

theorem meets_of_rows (h : s.Layout source config ids p bs w) (ht : t ∈ w.rowKeys)
    (he : e ∈ edges s.schema p.path.steps) {i j : Nat}
    (hi : rowIn bs t e.relationship.source = some i)
    (hj : rowIn bs t e.relationship.target = some j) :
    Meets bs e.relationship.sourceKey e.relationship.targetKey i j := by
  obtain ⟨step, hstep, known, -⟩ := exists_step_of_edge he
  obtain ⟨-, -, hobeys⟩ := h.holds_of_mem ht
  have hobey := hobeys step hstep
  cases step with
  | fanOut id table =>
    obtain ⟨r, known', hpartner⟩ := hobey
    cases known.symm.trans known'
    rw [hi] at hpartner
    obtain ⟨j', hj', hmeets⟩ := hpartner
    cases hj.symm.trans hj'
    exact hmeets.symm
  | lookup id table =>
    obtain ⟨r, known', hpartner⟩ := hobey
    cases known.symm.trans known'
    rw [hj] at hpartner
    obtain ⟨i', hi', hmeets⟩ := hpartner
    cases hi.symm.trans hi'
    exact hmeets
  | cycle id =>
    obtain ⟨r, known', hagrees⟩ := hobey
    cases known.symm.trans known'
    exact hagrees i j hi hj

theorem meets_iff_joins (h : s.Layout source config ids p bs w)
    (hdata : CompleteData s.schema source config) (he : e ∈ edges s.schema p.path.steps)
    {v : String → Nat} : Meets bs e.relationship.sourceKey e.relationship.targetKey
      (v e.relationship.source) (v e.relationship.target) ↔ source.joins e.relationship v := by
  obtain ⟨step, hstep, known, -⟩ := exists_step_of_edge he
  obtain ⟨place, place', c, c', htarget, hsource, -⟩ := h.sides hstep known
  exact meets_iff hdata h.blocks (Schema.Linked.mem_of_relationship_eq_ok known) htarget hsource

theorem exists_edge_of_table (h : s.Layout source config ids p bs w)
    (hacyclic : ∀ step ∈ p.path.steps, step.newTable? ≠ none) {table : String}
    (htable : table ∈ p.path.tables) : ∃ e ∈ edges s.schema p.path.steps,
      table = e.relationship.source ∨ table = e.relationship.target := by
  obtain ⟨htree, hchildren, hids⟩ := h.chain.tree hacyclic
  obtain ⟨e, he, hends⟩ : ∃ e ∈ edges s.schema p.path.steps, table = e.parent ∨ table = e.child := by
    rcases List.mem_cons.mp htable with rfl | hadded
    · cases hedges : edges s.schema p.path.steps with
      | nil =>
        rw [hedges, List.map_nil, eq_comm, List.map_eq_nil_iff] at hids
        exact absurd hids h.steps_ne_nil
      | cons e es =>
        rw [hedges] at htree
        cases htree with
        | cons parent _ _ => exact ⟨e, List.mem_cons_self, .inl (List.mem_singleton.mp parent).symm⟩
    · have hmem : table ∈ (edges s.schema p.path.steps).map Edge.child := hchildren ▸ hadded
      obtain ⟨e, he, rfl⟩ := List.mem_map.mp hmem
      exact ⟨e, he, .inr rfl⟩
  refine ⟨e, he, ?_⟩
  rcases e.child_eq_or with ⟨hc, hp⟩ | ⟨hc, hp⟩
  · rw [hc, hp] at hends
    exact hends.symm
  · rw [hc, hp] at hends
    exact hends

theorem size_eq (h : s.Layout source config ids p bs w)
    (hdata : CompleteData s.schema source config)
    (hacyclic : ∀ step ∈ p.path.steps, step.newTable? ≠ none) {table : String}
    (htable : table ∈ p.path.tables) {place : Nat} {b : TableBlock ℚ}
    (hplace : placeOf? bs table = some place) (hb : bs[place]? = some b) :
    b.table.size = source.rowCount table := by
  obtain ⟨e, he, hend⟩ := h.exists_edge_of_table hacyclic htable
  obtain ⟨step, hstep, known, -⟩ := exists_step_of_edge he
  obtain ⟨place₁, place₂, c, c', htarget, hsource, -⟩ := h.sides hstep known
  have hblock := h.blocks b (List.mem_of_getElem? hb)
  rcases hend with rfl | rfl
  · cases hplace.symm.trans hsource.place_eq
    cases hb.symm.trans hsource.block
    rw [hsource.name_eq] at hblock
    exact hblock.size_eq hdata hsource.stores
  · cases hplace.symm.trans htarget.place_eq
    cases hb.symm.trans htarget.block
    rw [htarget.name_eq] at hblock
    exact hblock.size_eq hdata htarget.stores

/-! The tables and relationships of a query that the model covers. -/

theorem mem_relationships (h : s.Layout source config ids p bs w) (hm : m.Describes bs w)
    (hacyclic : ∀ step ∈ p.path.steps, step.newTable? ≠ none) (id : String) :
    id ∈ m.relationships ↔
      ∃ e ∈ edges s.schema p.path.steps, e.relationship.identifier = id := by
  rw [hm.relationships, SortedSet.mem_ofList, h.relationships, ← (h.chain.tree hacyclic).2.2,
    List.mem_map]

theorem tables_subset (h : s.Layout source config ids p bs w) (hm : m.Describes bs w)
    (hcovers : m.covers q = true) {table : String} (htable : table ∈ q.tables) :
    table ∈ p.path.tables := by
  have hsub := SortedSet.subset_eq_true.mp (Bool.and_eq_true .. ▸ hcovers).1 table htable
  rwa [hm.tables, SortedSet.mem_ofList, h.tables] at hsub

theorem one_lt_size (h : s.Layout source config ids p bs w) (hm : m.Describes bs w)
    (hacyclic : ∀ step ∈ p.path.steps, step.newTable? ≠ none) : 1 < m.tables.size := by
  obtain ⟨e, he, -⟩ := h.exists_edge_of_table hacyclic
    (show p.path.start ∈ p.path.tables from List.mem_cons_self)
  have hchild : e.child ∈ p.path.tables := by
    apply List.mem_cons_of_mem _
    have hmem := List.mem_map_of_mem (f := Edge.child) he
    rwa [(h.chain.tree hacyclic).2.1] at hmem
  have hmem {table : String} (htable : table ∈ p.path.tables) : table ∈ m.tables := by
    rwa [hm.tables, SortedSet.mem_ofList, h.tables]
  exact SortedSet.one_lt_size (hmem hchild) (hmem List.mem_cons_self) ((h.tree hacyclic).child_ne he)

/-- A connected query with the root has the edges to its tables. -/
theorem closed_of_connected (h : s.Layout source config ids p bs w) (hm : m.Describes bs w)
    (hacyclic : ∀ step ∈ p.path.steps, step.newTable? ≠ none) (hq : q.Linked s.schema)
    (hcovers : m.covers q = true) (hconnected : ∀ table ∈ q.tables,
      Relation.ReflTransGen (Adjacent s.schema q.relationships.toList) p.path.start table) :
    ∀ e ∈ edges s.schema p.path.steps, e.child ∈ q.tables →
      e.parent ∈ q.tables ∧ e.relationship.identifier ∈ q.relationships := by
  intro e he hchild
  have hids : ∀ id ∈ q.relationships.toList, ∃ e ∈ edges s.schema p.path.steps,
      e.relationship.identifier = id := by
    intro id hid
    apply (h.mem_relationships hm hacyclic id).mp
    exact SortedSet.subset_eq_true.mp (Bool.and_eq_true .. ▸ hcovers).2 id hid
  have hrooted := rooted_of_connected (h.tree hacyclic)
    (fun e he => relationship_of_mem_edges he) hids (hconnected e.child hchild)
  obtain ⟨hlisted, -⟩ := Rooted.parent_of_child (h.tree hacyclic) he hrooted
  obtain ⟨r, known, hs, ht⟩ := hq.ends _ hlisted
  cases known.symm.trans (relationship_of_mem_edges he)
  refine ⟨?_, hlisted⟩
  rcases e.child_eq_or with ⟨-, hp⟩ | ⟨-, hp⟩
  · exact hp ▸ ht
  · exact hp ▸ hs

/-- The compiled denominator has the multipliers of the fan-outs that lead out of the query. -/
theorem normalizers_perm (h : s.Layout source config ids p bs w) (hm : m.Describes bs w)
    (hacyclic : ∀ step ∈ p.path.steps, step.newTable? ≠ none) (hq : q.Linked s.schema)
    (hroot : p.path.start ∈ q.tables)
    (hclosed : ∀ e ∈ edges s.schema p.path.steps, e.child ∈ q.tables → e.parent ∈ q.tables) :
    ∃ denominator, q.normalizers m = .ok denominator ∧ denominator.Perm
      ((fanOuts s.schema (p.path.steps.filter (¬ Within q.tables ·))).map
        (·.definedMultiplier)) := by
  obtain ⟨walk, hrun, hperm⟩ := FanOutWalk.multipliers_perm (h.tree hacyclic)
    (fun e he => relationship_of_mem_edges he) hroot hclosed (h.mem_relationships hm hacyclic)
  have hmultipliers : (FanOutWalk.outward (edges s.schema p.path.steps) q.tables).map
      (·.relationship.definedMultiplier) =
        (fanOuts s.schema (p.path.steps.filter (¬ Within q.tables ·))).map
          (·.definedMultiplier) := by
    rw [fanOuts_filter h.chain, List.map_map]
    rfl
  rw [hmultipliers] at hperm
  rw [← hq.schema] at hrun
  exact ⟨walk.multipliers, bind_eq_ok.mpr ⟨walk, hrun, rfl⟩, hperm⟩

end Sampler.Layout

end ApproxQuery
