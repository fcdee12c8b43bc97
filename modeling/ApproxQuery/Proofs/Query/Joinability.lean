import ApproxQuery.Proofs.Query.Built
import ApproxQuery.Proofs.Sample.Complete
import ApproxQuery.Proofs.Sample.JoinFailure
import ApproxQuery.Query.Statement

/-!
# What can be joined

A sampler starts a join from a table that it prefers, a select statement from the first table of its
sorted relationships. Both are ends of the relationships, so both find a join path or none of them does.
-/

namespace ApproxQuery

open JoinPath FailsToJoin

variable {N : Type} {g : Schema N} {ids ids' : List String}

theorem mem_foldl_distinct {α : Type} [BEq α] [LawfulBEq α] {x : α} {xs seen : List α} :
    x ∈ xs.foldl (fun seen t => if seen.contains t then seen else seen ++ [t]) seen ↔
      x ∈ seen ∨ x ∈ xs := by
  induction xs generalizing seen with
  | nil => simp
  | cons y xs ih =>
    rw [List.foldl_cons, ih, List.mem_cons]
    split
    · rename_i hy
      have hy : y ∈ seen := List.contains_iff_mem.mp hy
      constructor
      · exact Or.imp_right .inr
      · rintro (h | rfl | h)
        · exact .inl h
        · exact .inl hy
        · exact .inr h
    · rw [List.mem_append, List.mem_singleton, or_assoc]

theorem foldl_best_mem {α : Type} (score : α → Nat) {best : α} {xs all : List α} (hxs : xs ⊆ all)
    (hbest : best ∈ all) :
    xs.foldl (fun best x => if score best < score x then x else best) best ∈ all := by
  induction xs generalizing best with
  | nil => exact hbest
  | cons x xs ih =>
    obtain ⟨hx, hxs⟩ := List.cons_subset.mp hxs
    rw [List.foldl_cons]
    split
    · exact ih hxs hx
    · exact ih hxs hbest

/-- The tables of known relationships are their ends. -/
theorem Schema.tablesOf_eq_ok (known : ∀ id ∈ ids, ∃ r, g.relationship id = .ok r) :
    ∃ names, g.tablesOf ids = .ok names ∧ ∀ t, t ∈ names ↔ IsEnd g ids t := by
  obtain ⟨rs, hrs⟩ := exists_mapM_eq_ok known
  refine ⟨_, bind_eq_ok.mpr ⟨rs, hrs, rfl⟩, fun t => mem_foldl_distinct.trans ?_⟩
  constructor
  · intro ht
    obtain ⟨r, hr, hend⟩ := List.mem_flatMap.mp (ht.resolve_left List.not_mem_nil)
    obtain ⟨id, hid, known⟩ := exists_origin_of_mapM hrs hr
    rcases List.mem_pair.mp hend with rfl | rfl
    · exact ⟨id, hid, r, known, .inl rfl⟩
    · exact ⟨id, hid, r, known, .inr rfl⟩
  · rintro ⟨id, hid, r, known, hend⟩
    obtain ⟨r', hr', known'⟩ := exists_result_of_mapM hrs hid
    cases known.symm.trans known'
    refine .inr (List.mem_flatMap.mpr ⟨r, hr', List.mem_pair.mpr ?_⟩)
    exact hend.imp Eq.symm Eq.symm

theorem exists_isEnd (known : ∀ id ∈ ids, ∃ r, g.relationship id = .ok r) (hids : ids ≠ []) :
    ∃ t, IsEnd g ids t := by
  obtain ⟨id, hid⟩ := List.exists_mem_of_ne_nil ids hids
  obtain ⟨r, hr⟩ := known id hid
  exact ⟨r.source, id, hid, r, hr, .inl rfl⟩

namespace Sampler

variable [Scalar N] {s : Sampler N}

theorem startTable_isEnd (hg : s.schema.Linked)
    (known : ∀ id ∈ ids, ∃ r, s.schema.relationship id = .ok r) (hids : ids ≠ []) :
    ∃ start, s.startTable ids = .ok start ∧ IsEnd s.schema ids start := by
  obtain ⟨names, hnames, hmem⟩ := Schema.tablesOf_eq_ok known
  obtain ⟨tables, htables⟩ : ∃ tables, names.mapM s.schema.table = .ok tables :=
    exists_mapM_eq_ok fun t ht => exists_table_of_isEnd hg ((hmem t).mp ht)
  obtain ⟨rs, hrs⟩ := exists_mapM_eq_ok known
  unfold startTable
  cases names with
  | nil =>
    obtain ⟨t, ht⟩ := exists_isEnd known hids
    exact absurd ((hmem t).mpr ht) List.not_mem_nil
  | cons first names =>
    cases hfind : tables.find? fun t => Scalar.lt t.sampleRate 1 with
    | some t =>
      obtain ⟨name, hname, ht⟩ := exists_origin_of_mapM htables (List.mem_of_find?_eq_some hfind)
      refine ⟨t.name, bind_eq_ok.mpr ⟨_, mapError_eq_ok.mpr hnames, bind_eq_ok.mpr
        ⟨tables, mapError_eq_ok.mpr htables, ?_⟩⟩, (hmem t.name).mp (Schema.name_of_table ht ▸ hname)⟩
      rw [hfind]
      rfl
    | none =>
      have hin := foldl_best_mem (fun name => rs.countP (·.target == name))
        (List.Subset.refl (first :: names)) List.mem_cons_self
      refine ⟨_, bind_eq_ok.mpr ⟨_, mapError_eq_ok.mpr hnames, bind_eq_ok.mpr
        ⟨tables, mapError_eq_ok.mpr htables, ?_⟩⟩, (hmem _).mp hin⟩
      rw [hfind]
      exact bind_eq_ok.mpr ⟨rs, mapError_eq_ok.mpr hrs, rfl⟩

theorem plan_failsToJoin_iff {start : String} (hstart : s.startTable ids = .ok start) :
    FailsToJoin SampleError.schema (s.plan (.relationships ids)) ↔
      FailsToJoin id (JoinPath.assemble s.schema start ids) := by
  have hpath := SampleError.failsToJoin_mapError (x := JoinPath.assemble s.schema start ids)
  unfold plan
  constructor
  · intro h
    rcases bind_iff.mp h with h | ⟨start', hstart', h⟩
    · exact absurd (hstart ▸ h) (not_ok start)
    · cases hstart.symm.trans hstart'
      rcases bind_iff.mp h with h | ⟨path, -, h⟩
      · exact hpath.mp h
      · refine absurd h (not_bind (s.tableMetadata_not_failsToJoin start) fun m => ?_)
        refine not_bind (not_foldlM (fun rows step => ?_) _) fun rows => not_ok _
        exact not_bind (s.growth_not_failsToJoin step) fun factor => not_ok _
  · intro h
    exact bind_iff.mpr (.inr ⟨start, hstart, bind_iff.mpr (.inl (hpath.mpr h))⟩)

theorem exists_growth (hg : s.schema.Linked) {joined : List String} {steps : List JoinStep}
    (h : JoinPath.Chain s.schema joined steps)
    (hmetadata : ∀ t ∈ joined ++ JoinPath.added steps, ∃ m, s.metadata.get? t = some m)
    {step : JoinStep} (hstep : step ∈ steps) : ∃ factor, s.growth step = .ok factor := by
  cases step with
  | fanOut id table =>
    obtain ⟨r, known, hsource, htarget⟩ := h.ends_of_mem hstep
    obtain ⟨t, ht⟩ := exists_table_of_isEnd hg ⟨id, List.mem_singleton_self id, r, known, .inl rfl⟩
    have hread {table : String} (htable : table ∈ joined ++ JoinPath.added steps) :
        ∃ m, s.tableMetadata table = .ok m := by
      obtain ⟨m, hm⟩ := hmetadata table htable
      exact ⟨m, by rw [tableMetadata, hm]⟩
    obtain ⟨m, hm⟩ := hread hsource
    obtain ⟨m', hm'⟩ := hread htarget
    exact ⟨_, bind_eq_ok.mpr ⟨r, mapError_eq_ok.mpr known, bind_eq_ok.mpr ⟨t, mapError_eq_ok.mpr ht,
      bind_eq_ok.mpr ⟨m, hm, bind_eq_ok.mpr ⟨m', hm', rfl⟩⟩⟩⟩⟩
  | lookup id table => exact ⟨1, rfl⟩
  | cycle id => exact ⟨1, rfl⟩

theorem exists_plan (hg : s.schema.Linked) {start : String} {path : JoinPath}
    (hstart : s.startTable ids = .ok start) (hpath : JoinPath.assemble s.schema start ids = .ok path)
    (hmetadata : ∀ t ∈ path.tables, ∃ m, s.metadata.get? t = some m) :
    ∃ p, s.plan (.relationships ids) = .ok p := by
  obtain ⟨rfl, hchain⟩ := JoinPath.assemble_isChain hpath
  obtain ⟨m, hm⟩ := hmetadata path.start List.mem_cons_self
  have hm : s.tableMetadata path.start = .ok m := by rw [tableMetadata, hm]
  have hrows (f : JoinStep → Bool) : ∃ rows, (path.steps.filter f).foldlM
      (fun rows step => return rows * (← s.growth step)) (s.availableRows m) =
        (.ok rows : Except SampleError N) := by
    refine exists_foldlM_eq_ok (fun step hstep rows => ?_) _
    obtain ⟨factor, hfactor⟩ := exists_growth hg hchain hmetadata (List.mem_filter.mp hstep).1
    exact ⟨rows * factor, bind_eq_ok.mpr ⟨factor, hfactor, rfl⟩⟩
  obtain ⟨rows, hrows⟩ := hrows _
  exact ⟨_, bind_eq_ok.mpr ⟨path.start, hstart, bind_eq_ok.mpr ⟨path, mapError_eq_ok.mpr hpath,
    bind_eq_ok.mpr ⟨m, hm, bind_eq_ok.mpr ⟨rows, hrows, rfl⟩⟩⟩⟩⟩

/-- A request for relationships has a plan just if they are connected, given the metadata. -/
theorem plan_of_relationships (hg : s.schema.Linked)
    (known : ∀ id ∈ ids, ∃ r, s.schema.relationship id = .ok r) (hids : ids ≠ []) :
    (FailsToJoin SampleError.schema (s.plan (.relationships ids)) ↔ ¬ Connected s.schema ids) ∧
      ((∀ t, IsEnd s.schema ids t → ∃ m, s.metadata.get? t = some m) →
        ((∃ p, s.plan (.relationships ids) = .ok p) ↔ Connected s.schema ids)) := by
  obtain ⟨start, hstart, hend⟩ := startTable_isEnd hg known hids
  rw [plan_failsToJoin_iff hstart]
  rcases assemble_of_isEnd hg known hend with ⟨h, path, hpath, hmem⟩ | ⟨h, joined, left, herror⟩
  · rw [hpath]
    refine ⟨iff_of_false (not_ok path) (not_not_intro h), fun hmetadata => iff_of_true ?_ h⟩
    exact exists_plan hg hstart hpath fun t ht => hmetadata t ((hmem t).mp ht)
  · refine ⟨iff_of_true ⟨joined, left, herror⟩ h, fun _ => iff_of_false ?_ h⟩
    rintro ⟨p, hp⟩
    have hfails := (plan_failsToJoin_iff hstart).mpr ⟨joined, left, herror⟩
    exact not_ok p (hp ▸ hfails)

end Sampler

namespace Query

variable {q : Query N}

/-- The query is for the join along these relationships and has no other tables. -/
structure IsJoin (g : Schema N) (ids : List String) (q : Query N) : Prop where
  schema : q.schema = g
  relationships : ∀ id, id ∈ q.relationships ↔ id ∈ ids
  tables : ∀ t, t ∈ q.tables ↔ IsEnd g ids t

theorem IsJoin.addRelationship {q' : Query N} {id : String} (h : q.IsJoin g ids)
    (hadd : q.addRelationship id = .ok q') : q'.IsJoin g (id :: ids) := by
  obtain ⟨rfl, hlisted, htables⟩ := h
  obtain ⟨r, known, hadd⟩ := bind_eq_ok.mp hadd
  have known := mapError_eq_ok.mp known
  cases pure_eq_ok.mp hadd
  refine ⟨rfl, fun id' => ?_, fun t => ?_⟩
  · rw [SortedSet.mem_insert, hlisted, List.mem_cons]
  · rw [SortedSet.mem_insert, SortedSet.mem_insert, htables]
    constructor
    · rintro (rfl | rfl | h)
      · exact ⟨id, List.mem_cons_self, r, known, .inr rfl⟩
      · exact ⟨id, List.mem_cons_self, r, known, .inl rfl⟩
      · exact h.mono (List.subset_cons_self id ids)
    · rintro ⟨id', hid, r', known', hend⟩
      rcases List.mem_cons.mp hid with rfl | hid
      · cases known.symm.trans known'
        exact hend.elim (fun h => .inr (.inl h.symm)) fun h => .inl h.symm
      · exact .inr (.inr ⟨id', hid, r', known', hend⟩)

/-- There is such a query for any known relationships. -/
theorem exists_isJoin (known : ∀ id ∈ ids, ∃ r, g.relationship id = .ok r) (kind : QueryKind) :
    ∃ q, Built g q ∧ q.IsJoin g ids := by
  induction ids with
  | nil =>
    refine ⟨_, .empty kind, rfl, fun id => ⟨fun h => ?_, fun h => ?_⟩, fun t => ⟨fun h => ?_, ?_⟩⟩
    · cases h
    · cases h
    · cases h
    · rintro ⟨id, hid, -⟩
      cases hid
  | cons id ids ih =>
    obtain ⟨q, hbuilt, hq⟩ := ih fun id' hid => known id' (List.mem_cons_of_mem id hid)
    obtain ⟨r, hr⟩ := known id List.mem_cons_self
    have hadded : ∃ q', q.addRelationship id = .ok q' :=
      ⟨_, bind_eq_ok.mpr ⟨r, mapError_eq_ok.mpr (hq.schema ▸ hr), rfl⟩⟩
    obtain ⟨q', hq'⟩ := hadded
    exact ⟨q', hbuilt.addRelationship hq', hq.addRelationship hq'⟩

/-- The relationships of a query that has some are joined from one of their ends. -/
theorem joinPath_eq (hne : q.relationships.toList ≠ [])
    (known : ∀ id ∈ q.relationships.toList, ∃ r, q.schema.relationship id = .ok r) :
    ∃ start, IsEnd q.schema q.relationships.toList start ∧ q.joinPath =
      (JoinPath.assemble q.schema start q.relationships.toList).mapError .schema := by
  obtain ⟨names, hnames, hmem⟩ := Schema.tablesOf_eq_ok known
  unfold joinPath
  generalize q.relationships.toList = ids at *
  cases ids with
  | nil => exact absurd rfl hne
  | cons id ids =>
    cases names with
    | nil =>
      obtain ⟨t, ht⟩ := exists_isEnd known hne
      exact absurd ((hmem t).mpr ht) List.not_mem_nil
    | cons start names =>
      refine ⟨start, (hmem start).mp List.mem_cons_self, ?_⟩
      dsimp only
      rw [hnames]
      rfl

variable [Scalar N]

theorem statement_eq_ok {selected : String} {s : SelectStatement} :
    q.statement selected = .ok s ↔ ∃ p, q.joinPath = .ok p ∧
    (∀ t ∈ q.tables, t ∈ p.tables) ∧
    s = ⟨selected, p.start, p.joins, p.cycles ++ q.conditions.map Condition.text⟩ := by
  unfold statement
  rw [bind_eq_ok]
  refine exists_congr fun p => and_congr_right fun _ => ?_
  have hreached : (∀ t ∈ q.tables, t ∈ p.tables) ↔
      q.tables.toList.filter (!p.tables.contains ·) = [] := by
    rw [List.filter_eq_nil_iff]
    refine forall₂_congr fun t _ => ?_
    simp
  rw [hreached]
  cases q.tables.toList.filter (!p.tables.contains ·) with
  | nil => simp [pure, Except.pure, eq_comm]
  | cons t unjoined => simp

/-- Such a query has a statement just if the relationships are connected. -/
theorem IsJoin.statement_eq (h : q.IsJoin g ids) (hg : g.Linked)
    (known : ∀ id ∈ ids, ∃ r, g.relationship id = .ok r) (hids : ids ≠ []) (selected : String) :
    (FailsToJoin QueryError.schema (q.statement selected) ↔ ¬ Connected g ids) ∧
      ((∃ statement, q.statement selected = .ok statement) ↔ Connected g ids) := by
  obtain ⟨rfl, hlisted, htables⟩ := h
  have hsub : q.relationships.toList ⊆ ids := fun id hid => (hlisted id).mp hid
  have hsub' : ids ⊆ q.relationships.toList := fun id hid => (hlisted id).mpr hid
  have hconnected : Connected q.schema q.relationships.toList ↔ Connected q.schema ids :=
    ⟨.congr hlisted, .congr fun id => (hlisted id).symm⟩
  have hne : q.relationships.toList ≠ [] := by
    obtain ⟨id, hid⟩ := List.exists_mem_of_ne_nil ids hids
    exact List.ne_nil_of_mem (hsub' hid)
  have known' : ∀ id ∈ q.relationships.toList, ∃ r, q.schema.relationship id = .ok r :=
    fun id hid => known id (hsub hid)
  obtain ⟨start, hend, hjoin⟩ := joinPath_eq hne known'
  rw [← hconnected]
  rcases assemble_of_isEnd hg known' hend with ⟨h, p, hp, hmem⟩ | ⟨h, joined, left, herror⟩
  · have hreached : ∀ t ∈ q.tables, t ∈ p.tables := fun t ht =>
      (hmem t).mpr (((htables t).mp ht).mono hsub')
    rw [statement_eq_ok.mpr ⟨p, hjoin.trans (mapError_eq_ok.mpr hp), hreached, rfl⟩]
    exact ⟨iff_of_false (not_ok _) (not_not_intro h), iff_of_true ⟨_, rfl⟩ h⟩
  · unfold statement
    rw [hjoin, herror]
    refine ⟨iff_of_true ⟨joined, left, rfl⟩ h, iff_of_false ?_ h⟩
    rintro ⟨statement, hstatement⟩
    cases hstatement

end Query

namespace Sampler

variable [Scalar N] {s : Sampler N}

/-- From all ends of some relationships and in any order there is a join path through the same tables,
or from none there is one. The sampler starts from an end, so it finds no path for a request just if
there is none for the statement of a query for the same join. -/
theorem joinability_agrees (hg : s.schema.Built)
    (known : ∀ id ∈ ids, ∃ r, s.schema.relationship id = .ok r) (hids : ids ≠ [])
    (hperm : ids'.Perm ids) :
    (∀ a b, IsEnd s.schema ids a → IsEnd s.schema ids b →
      ((∃ p, JoinPath.assemble s.schema a ids = .ok p) ↔
        ∃ p, JoinPath.assemble s.schema b ids' = .ok p) ∧
      ∀ p p', JoinPath.assemble s.schema a ids = .ok p →
        JoinPath.assemble s.schema b ids' = .ok p' → ∀ t, t ∈ p.tables ↔ t ∈ p'.tables) ∧
    (∃ start, s.startTable ids' = .ok start ∧ IsEnd s.schema ids start) ∧
    ∀ q : Query N, q.IsJoin s.schema ids → ∀ selected,
      (FailsToJoin SampleError.schema (s.estimate (.relationships ids')) ↔
        FailsToJoin QueryError.schema (q.statement selected)) ∧
      (∀ {G : Type} [Generator G] (g : G) request cache, request.target = .relationships ids' →
        (FailsToJoin SampleError.schema (s.sample request g cache).1 ↔
          FailsToJoin QueryError.schema (q.statement selected)) ∧
        ∀ rate, Scalar.lt 0 rate = true → Scalar.lt rate 1 = true →
          (FailsToJoin SampleError.schema (s.sampleWithIncremental request rate g cache).1 ↔
            FailsToJoin QueryError.schema (q.statement selected))) ∧
      ((∀ t, IsEnd s.schema ids t → ∃ m, s.metadata.get? t = some m) →
        ((∃ e, s.estimate (.relationships ids') = .ok e) ↔
          ∃ statement, q.statement selected = .ok statement)) := by
  have hlinked := hg.linked
  have hmem (id : String) : id ∈ ids' ↔ id ∈ ids := hperm.mem_iff
  have hsub : ids' ⊆ ids := hperm.subset
  have hsub' : ids ⊆ ids' := hperm.symm.subset
  have known' : ∀ id ∈ ids', ∃ r, s.schema.relationship id = .ok r := fun id hid =>
    known id (hsub hid)
  have hids' : ids' ≠ [] := by
    rintro rfl
    exact hids hperm.symm.eq_nil
  have hconnected : Connected s.schema ids' ↔ Connected s.schema ids :=
    ⟨.congr hmem, .congr fun id => (hmem id).symm⟩
  refine ⟨fun a b ha hb => ?_, ?_, fun q hq selected => ?_⟩
  · have hb' := hb.mono hsub'
    refine ⟨?_, fun p p' hp hp' t => ?_⟩
    · rw [exists_assemble_iff hlinked known ha, exists_assemble_iff hlinked known' hb', hconnected]
    · rw [mem_tables_of_assemble hlinked known ha hp, mem_tables_of_assemble hlinked known' hb' hp']
      exact ⟨fun h => h.mono hsub', fun h => h.mono hsub⟩
  · obtain ⟨start, hstart, hend⟩ := startTable_isEnd hlinked known' hids'
    exact ⟨start, hstart, hend.mono hsub⟩
  · obtain ⟨hfails, hsucceeds⟩ := plan_of_relationships hlinked known' hids'
    obtain ⟨hfails', hsucceeds'⟩ := hq.statement_eq hlinked known hids selected
    have hplan : FailsToJoin SampleError.schema (s.plan (.relationships ids')) ↔
        FailsToJoin QueryError.schema (q.statement selected) := by
      rw [hfails, hfails', hconnected]
    refine ⟨(s.estimate_failsToJoin_iff _).trans hplan, fun g request cache htarget => ?_, ?_⟩
    · rw [← htarget] at hplan
      exact ⟨(s.sample_failsToJoin_iff request g cache).trans hplan, fun rate hpos hone =>
        (s.parts_failsToJoin_iff request hpos hone g cache).trans hplan⟩
    · intro hmetadata
      have hexists : (∃ e, s.estimate (.relationships ids') = .ok e) ↔
          ∃ p, s.plan (.relationships ids') = .ok p := by
        constructor
        · rintro ⟨e, he⟩
          obtain ⟨p, hp, -⟩ := map_eq_ok.mp he
          exact ⟨p, hp⟩
        · rintro ⟨p, hp⟩
          exact ⟨_, map_eq_ok.mpr ⟨p, hp, rfl⟩⟩
      rw [hexists, hsucceeds fun t ht => hmetadata t (ht.mono hsub), hsucceeds', hconnected]

end Sampler

namespace Fleet

theorem built : schema.Built := by
  have h₀ : Schema.Built (.empty : Schema ℚ) := .empty
  have h₁ := h₀.addTable (t := { Table.named "drivers" with attributes := ["id", "truck"] }) rfl rfl rfl
  have h₂ := h₁.addTable (t := { Table.named "trucks" with attributes := ["id", "owner"] }) rfl rfl rfl
  have h₃ := h₂.addTable (t := { Table.named "depots" with attributes := ["id", "region"] }) rfl rfl rfl
  have h₄ := h₃.addTable (t := { Table.named "regions" with attributes := ["id"] }) rfl rfl rfl
  have h₅ := h₄.addRelationship (r := driven) rfl
  have h₆ := h₅.addRelationship (r := owned) rfl
  exact h₆.addRelationship (r := located) rfl

def source : RawSource ℚ := .ofTables [
  ("drivers", ⟨["id", "truck"], [[.int 1, .int 10]]⟩),
  ("trucks", ⟨["id", "owner"], [[.int 10, .int 1]]⟩),
  ("depots", ⟨["id", "region"], [[.int 20, .int 30]]⟩),
  ("regions", ⟨["id"], [[.int 30]]⟩)]

def sampler : Sampler ℚ := .ofPrepared schema source .standard .standard

theorem known (ids : List String) (h : ∀ id ∈ ids, (schema.relationship? id).isSome = true) :
    ∀ id ∈ ids, ∃ r, schema.relationship id = .ok r := by
  intro id hid
  obtain ⟨r, hr⟩ := Option.isSome_iff_exists.mp (h id hid)
  exact ⟨r, Schema.relationship_eq_ok.mpr hr⟩

/-- Drivers and trucks can be joined, drivers and depots cannot. -/
theorem joinability_agrees_fleet : ∃ q q' : Query ℚ,
    q.IsJoin schema [driven.identifier, owned.identifier] ∧
    q'.IsJoin schema [located.identifier, driven.identifier] ∧
    (∃ statement, q.statement "COUNT(*)" = .ok statement) ∧
    FailsToJoin SampleError.schema (sampler.estimate
      (.relationships [driven.identifier, located.identifier])) ∧
    FailsToJoin QueryError.schema (q'.statement "COUNT(*)") := by
  have hcycle := known [driven.identifier, owned.identifier] (by decide +kernel)
  have hapart := known [located.identifier, driven.identifier] (by decide +kernel)
  obtain ⟨q, -, hq⟩ := Query.exists_isJoin hcycle .cardinality
  obtain ⟨q', -, hq'⟩ := Query.exists_isJoin hapart .cardinality
  obtain ⟨-, -, hqueries⟩ := Sampler.joinability_agrees (s := sampler) built hcycle (by decide)
    (List.Perm.swap driven.identifier owned.identifier [])
  obtain ⟨-, -, hqueries'⟩ := Sampler.joinability_agrees (s := sampler) built hapart (by decide)
    (List.Perm.swap located.identifier driven.identifier [])
  obtain ⟨-, -, hsucceeds⟩ := hqueries q hq "COUNT(*)"
  obtain ⟨hfails, -, -⟩ := hqueries' q' hq' "COUNT(*)"
  have hmetadata : ∀ name ∈ schema.tables.map Table.name,
      (sampler.metadata.get? name).isSome = true := by decide +kernel
  have hestimate : (sampler.estimate
      (.relationships [owned.identifier, driven.identifier])).toOption.isSome = true := by
    decide +kernel
  have hstart : sampler.startTable [driven.identifier, located.identifier] = .ok "trucks" := by
    decide +kernel
  have hpath : JoinPath.assemble schema "trucks" [driven.identifier, located.identifier] =
      .error (.noJoinPath ["drivers", "trucks"] [located.identifier]) := by decide +kernel
  have hfailure : FailsToJoin SampleError.schema (sampler.estimate
      (.relationships [driven.identifier, located.identifier])) :=
    (sampler.estimate_failsToJoin_iff _).mpr
      ((Sampler.plan_failsToJoin_iff hstart).mpr ⟨_, _, hpath⟩)
  refine ⟨q, q', hq, hq', (hsucceeds fun t ht => ?_).mp (exists_eq_ok hestimate), hfailure,
    hfails.mp hfailure⟩
  exact Option.isSome_iff_exists.mp (hmetadata t (ht.mem_names built.linked))

end Fleet

end ApproxQuery
