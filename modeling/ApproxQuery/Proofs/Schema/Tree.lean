import ApproxQuery.Proofs.Schema.Chain

/-!
# Trees of relationships

The relationships of a path without cycle steps form a tree: each of them joins a new table to one
that was joined before it. A connected part of the tree that has the root has the parent of each of
its tables.
-/

namespace ApproxQuery.JoinPath

/-- A relationship that joins a table, which is its source if it fans out. -/
structure Edge where
  relationship : Relationship
  fansOut : Bool
deriving DecidableEq

namespace Edge

def parent (e : Edge) : String :=
  if e.fansOut then e.relationship.target else e.relationship.source

def child (e : Edge) : String :=
  if e.fansOut then e.relationship.source else e.relationship.target

theorem child_eq_or (e : Edge) : (e.child = e.relationship.source ∧ e.parent = e.relationship.target) ∨
    (e.child = e.relationship.target ∧ e.parent = e.relationship.source) := by
  cases h : e.fansOut with
  | true => exact .inl (by simp [child, parent, h])
  | false => exact .inr (by simp [child, parent, h])

end Edge

inductive Tree : List String → List Edge → Prop where
  | nil {joined : List String} : Tree joined []
  | cons {joined : List String} {e : Edge} {es : List Edge} (parent : e.parent ∈ joined)
      (child : e.child ∉ joined) (rest : Tree (joined ++ [e.child]) es) : Tree joined (e :: es)

variable {N : Type} {g : Schema N} {joined ids : List String} {steps : List JoinStep}
  {es : List Edge} {e : Edge} {start table : String}

namespace Tree

theorem nodup (h : Tree joined es) (hjoined : joined.Nodup) :
    (joined ++ es.map Edge.child).Nodup := by
  induction h with
  | nil => simpa using hjoined
  | @cons joined e es parent child rest ih =>
    have hnext : (joined ++ [e.child]).Nodup := by
      rw [List.nodup_append_comm]
      exact List.nodup_cons.mpr ⟨child, hjoined⟩
    simpa using ih hnext

theorem child_inj (h : Tree [start] es) {e' : Edge} (he : e ∈ es) (he' : e' ∈ es)
    (hchild : e.child = e'.child) : e = e' := by
  have hnodup := h.nodup (List.nodup_singleton start)
  exact List.inj_on_of_nodup_map (List.nodup_append.mp hnodup).2.1 he he' hchild

theorem child_ne (h : Tree [start] es) (he : e ∈ es) : e.child ≠ start := by
  intro heq
  have hnodup := h.nodup (List.nodup_singleton start)
  have hmem : start ∈ es.map Edge.child := heq ▸ List.mem_map_of_mem he
  exact (List.nodup_append.mp hnodup).2.2 start List.mem_cons_self start hmem rfl

theorem nodup_edges (h : Tree [start] es) : es.Nodup :=
  (List.nodup_append.mp (h.nodup (List.nodup_singleton start))).2.1.of_map

/-- A set with the root that lacks some table lacks one whose parent it has. -/
theorem exists_frontier {reached : String → Prop} (h : Tree joined es)
    (hjoined : ∀ table ∈ joined, reached table) (he : e ∈ es) (hchild : ¬ reached e.child) :
    ∃ e ∈ es, reached e.parent ∧ ¬ reached e.child := by
  induction h with
  | nil => cases he
  | @cons joined x es parent child rest ih =>
    by_cases hx : reached x.child
    · have hnext : ∀ table ∈ joined ++ [x.child], reached table := by
        intro table htable
        rcases List.mem_append.mp htable with htable | htable
        · exact hjoined table htable
        · exact List.mem_singleton.mp htable ▸ hx
      rcases List.mem_cons.mp he with rfl | he
      · exact absurd hx hchild
      · obtain ⟨e, he, hreached⟩ := ih hnext he
        exact ⟨e, List.mem_cons_of_mem x he, hreached⟩
    · exact ⟨x, List.mem_cons_self, hjoined _ parent, hx⟩

end Tree

/-- The relationships on the way from the root to a table are among those listed. -/
inductive Rooted (es : List Edge) (ids : List String) (start : String) : String → Prop where
  | root : Rooted es ids start start
  | child {e : Edge} (he : e ∈ es) (listed : e.relationship.identifier ∈ ids)
      (parent : Rooted es ids start e.parent) : Rooted es ids start e.child

theorem Rooted.parent_of_child (h : Tree [start] es) (he : e ∈ es)
    (hroot : Rooted es ids start e.child) :
    e.relationship.identifier ∈ ids ∧ Rooted es ids start e.parent := by
  generalize htable : e.child = table at hroot
  cases hroot with
  | root => exact absurd htable (h.child_ne he)
  | @child e' he' listed parent =>
    cases h.child_inj he he' htable
    exact ⟨listed, parent⟩

/-- The two tables are the ends of a listed relationship. -/
def Adjacent (g : Schema N) (ids : List String) (a b : String) : Prop :=
  ∃ id ∈ ids, ∃ r, g.relationship id = .ok r ∧
    ((r.source = a ∧ r.target = b) ∨ (r.source = b ∧ r.target = a))

/-- Tables that are adjacent are the ends of an edge. -/
theorem exists_edge_of_adjacent
    (hknown : ∀ e ∈ es, g.relationship e.relationship.identifier = .ok e.relationship)
    (hids : ∀ id ∈ ids, ∃ e ∈ es, e.relationship.identifier = id) {a b : String}
    (h : Adjacent g ids a b) : ∃ e ∈ es, e.relationship.identifier ∈ ids ∧
      ((e.child = b ∧ e.parent = a) ∨ (e.child = a ∧ e.parent = b)) := by
  obtain ⟨id, hid, r, known, hends⟩ := h
  obtain ⟨e, he, rfl⟩ := hids id hid
  have hr : e.relationship = r := Except.ok.inj ((hknown e he).symm.trans known)
  subst hr
  refine ⟨e, he, hid, ?_⟩
  rcases e.child_eq_or with ⟨hchild, hparent⟩ | ⟨hchild, hparent⟩
  · rcases hends with ⟨hs, ht⟩ | ⟨hs, ht⟩
    · exact .inr ⟨hchild.trans hs, hparent.trans ht⟩
    · exact .inl ⟨hchild.trans hs, hparent.trans ht⟩
  · rcases hends with ⟨hs, ht⟩ | ⟨hs, ht⟩
    · exact .inl ⟨hchild.trans ht, hparent.trans hs⟩
    · exact .inr ⟨hchild.trans ht, hparent.trans hs⟩

/-- What is connected to the root by relationships of a tree is so along the tree. -/
theorem rooted_of_connected (h : Tree [start] es)
    (hknown : ∀ e ∈ es, g.relationship e.relationship.identifier = .ok e.relationship)
    (hids : ∀ id ∈ ids, ∃ e ∈ es, e.relationship.identifier = id)
    (hconnected : Relation.ReflTransGen (Adjacent g ids) start table) :
    Rooted es ids start table := by
  induction hconnected with
  | refl => exact .root
  | @tail a b _ hadjacent ih =>
    obtain ⟨e, he, hid, ⟨rfl, rfl⟩ | ⟨rfl, rfl⟩⟩ := exists_edge_of_adjacent hknown hids hadjacent
    · exact .child he hid ih
    · exact (Rooted.parent_of_child h he ih).2

/-! The edges of a path. -/

def edges (g : Schema N) (steps : List JoinStep) : List Edge :=
  steps.filterMap fun
    | .fanOut id _ => (g.relationship? id).map fun r => ⟨r, true⟩
    | .lookup id _ => (g.relationship? id).map fun r => ⟨r, false⟩
    | .cycle _ => none

theorem edges_fanOut {r : Relationship} (known : g.relationship r.identifier = .ok r) :
    edges g (.fanOut r.identifier table :: steps) = ⟨r, true⟩ :: edges g steps := by
  simp [edges, Schema.relationship_eq_ok.mp known]

theorem edges_lookup {r : Relationship} (known : g.relationship r.identifier = .ok r) :
    edges g (.lookup r.identifier table :: steps) = ⟨r, false⟩ :: edges g steps := by
  simp [edges, Schema.relationship_eq_ok.mp known]

theorem relationship_of_mem_edges (he : e ∈ edges g steps) :
    g.relationship e.relationship.identifier = .ok e.relationship := by
  obtain ⟨s, _, hs⟩ := List.mem_filterMap.mp he
  have hfound : ∃ id, g.relationship? id = some e.relationship := by
    cases s with
    | fanOut id table =>
      obtain ⟨r, hr, rfl⟩ := Option.map_eq_some_iff.mp hs
      exact ⟨id, hr⟩
    | lookup id table =>
      obtain ⟨r, hr, rfl⟩ := Option.map_eq_some_iff.mp hs
      exact ⟨id, hr⟩
    | cycle id => cases hs
  obtain ⟨id, hid⟩ := hfound
  have known := Schema.relationship_eq_ok.mpr hid
  rw [Schema.identifier_of_relationship known, known]

/-- The steps that add tables join them along the edges of a tree. -/
theorem Chain.tree_edges (h : Chain g joined steps) : Tree joined (edges g steps) ∧
    (edges g steps).map (fun e => (e.child, e.relationship.identifier)) =
      steps.filterMap fun s => s.newTable?.map (·, s.relationship) := by
  induction h with
  | nil => exact ⟨.nil, rfl⟩
  | cycle known source target rest ih => exact ih
  | @fanOut joined r steps known source target rest ih =>
    rw [edges_fanOut known]
    exact ⟨.cons target source ih.1, congrArg ((r.source, r.identifier) :: ·) ih.2⟩
  | @lookup joined r steps known source target rest ih =>
    rw [edges_lookup known]
    exact ⟨.cons source target ih.1, congrArg ((r.target, r.identifier) :: ·) ih.2⟩

theorem Chain.map_child_edges (h : Chain g joined steps) :
    (edges g steps).map Edge.child = added steps := by
  have hfst := congrArg (List.map Prod.fst) h.tree_edges.2
  rw [List.map_map, List.map_filterMap] at hfst
  simpa [Function.comp_def, added] using hfst

theorem map_snd_joined (steps : List JoinStep) :
    (steps.filterMap fun s => s.newTable?.map (·, s.relationship)).map Prod.snd =
      (steps.filter (·.newTable?.isSome)).map (·.relationship) := by
  rw [List.map_filterMap, ← List.filterMap_eq_map, ← List.filterMap_eq_filter,
    List.filterMap_filterMap]
  congr 1
  funext s
  cases s <;> rfl

theorem Chain.map_identifier_edges (h : Chain g joined steps) :
    (edges g steps).map (·.relationship.identifier) =
      (steps.filter (·.newTable?.isSome)).map (·.relationship) := by
  have hsnd := congrArg (List.map Prod.snd) h.tree_edges.2
  rw [List.map_map, map_snd_joined] at hsnd
  exact hsnd

theorem Chain.tree (h : Chain g joined steps) (hacyclic : ∀ s ∈ steps, s.newTable? ≠ none) :
    Tree joined (edges g steps) ∧ (edges g steps).map Edge.child = added steps ∧
      (edges g steps).map (·.relationship.identifier) = steps.map (·.relationship) := by
  have hall : steps.filter (·.newTable?.isSome) = steps :=
    List.filter_eq_self.mpr fun s hs => Option.isSome_iff_ne_none.mpr (hacyclic s hs)
  exact ⟨h.tree_edges.1, h.map_child_edges, h.map_identifier_edges.trans (by rw [hall])⟩

end ApproxQuery.JoinPath
