import ApproxQuery.Proofs.Schema.Connected

/-!
# Spanning trees without a root

Relationships span tables as a tree if they connect all of them and each relationship is needed for
that. From any of the tables such a tree can be walked with that table as the root. A part of the tree
that is connected in itself is closed towards the root, and outside of it the parent of a table is
nearer to the part than the table.
-/

namespace ApproxQuery.JoinPath

variable {N : Type} {g : Schema N} {ids : List String} {tables part : SortedSet String}
  {start a b : String} {steps : List JoinStep} {es : List Edge} {e : Edge}

/-- The relationships connect the tables, and none of them could be left out. -/
structure SpanningTree (g : Schema N) (ids : List String) (tables : SortedSet String) : Prop where
  ends : ∀ id ∈ ids, ∃ r, g.relationship id = .ok r ∧ r.source ∈ tables ∧ r.target ∈ tables
  connected : ∀ a ∈ tables, ∀ b ∈ tables, Reachable g ids a b
  needed : ∀ id ∈ ids, ∀ r, g.relationship id = .ok r →
    ¬ Reachable g (ids.erase id) r.source r.target

/-- The listed relationships with both ends in the part. -/
def inner (g : Schema N) (ids : List String) (part : SortedSet String) : List String :=
  ids.filter fun id => (g.relationship? id).any fun r => decide (r.source ∈ part ∧ r.target ∈ part)

/-- Some of the tables, connected by relationships between them. -/
structure Subtree (g : Schema N) (ids : List String) (tables part : SortedSet String) : Prop where
  nonempty : ∃ t, t ∈ part
  sub : ∀ t ∈ part, t ∈ tables
  connected : ∀ a ∈ part, ∀ b ∈ part, Reachable g (inner g ids part) a b

/-- So many relationships lead from the part to the table. -/
def InSteps (g : Schema N) (ids : List String) (part : SortedSet String) : Nat → String → Prop
  | 0, t => t ∈ part
  | n + 1, t => ∃ a, InSteps g ids part n a ∧ Adjacent g ids a t

/-- The first table is reached from the part in fewer steps than the second. -/
def Nearer (g : Schema N) (ids : List String) (part : SortedSet String) (a b : String) : Prop :=
  ∃ n, InSteps g ids part n a ∧ ∀ k ≤ n, ¬ InSteps g ids part k b

theorem mem_inner {id : String} : id ∈ inner g ids part ↔
    id ∈ ids ∧ ∃ r, g.relationship id = .ok r ∧ r.source ∈ part ∧ r.target ∈ part := by
  simp [inner, Schema.relationship_eq_ok, Option.any_eq_true]

/-- A relationship is needed if it alone leaves some set of tables. -/
theorem not_reachable_of_cut (cut : List String)
    (hclosed : ∀ id ∈ ids, ∀ r ∈ g.relationship? id, r.source ∈ cut ↔ r.target ∈ cut)
    (ha : a ∈ cut) (hb : b ∉ cut) : ¬ Reachable g ids a b := by
  intro h
  apply hb
  clear hb
  induction h with
  | refl => exact ha
  | tail _ hadjacent ih =>
    obtain ⟨id, hid, r, known, ⟨rfl, rfl⟩ | ⟨rfl, rfl⟩⟩ := hadjacent
    · exact (hclosed id hid r (Schema.relationship_eq_ok.mp known)).mp ih
    · exact (hclosed id hid r (Schema.relationship_eq_ok.mp known)).mpr ih

theorem Chain.of_append {joined : List String} {before after : List JoinStep}
    (h : Chain g joined (before ++ after)) : Chain g joined before := by
  induction before generalizing joined with
  | nil => exact .nil
  | cons s before ih =>
    cases h with
    | cycle known source target rest => exact .cycle known source target (ih rest)
    | fanOut known source target rest => exact .fanOut known source target (ih rest)
    | lookup known source target rest => exact .lookup known source target (ih rest)

/-- A relationship that only filters is not needed, as the tables at its ends are joined before. -/
theorem Chain.reachable_of_cycle {before after : List JoinStep} {id : String}
    (h : Chain g [start] steps) (hsteps : steps = before ++ .cycle id :: after)
    (hids : (steps.map (·.relationship)).Perm ids) (hnodup : ids.Nodup) :
    ∃ r, g.relationship id = .ok r ∧ Reachable g (ids.erase id) r.source r.target := by
  obtain ⟨r, known, source, target⟩ := h.extends_of_eq hsteps
  subst hsteps
  have hlisted : ∀ s ∈ before, s.relationship ∈ ids.erase id := by
    intro s hs
    have hmem : s.relationship ∈ ids :=
      hids.subset (List.mem_map_of_mem (List.mem_append_left _ hs))
    refine (List.mem_erase_of_ne fun heq => ?_).mpr hmem
    have hall := hids.nodup_iff.mpr hnodup
    rw [List.map_append, List.map_cons] at hall
    refine (List.nodup_append.mp hall).2.2 s.relationship (List.mem_map_of_mem hs) id ?_ heq
    exact List.mem_cons_self
  have hreach := h.of_append.reachable hlisted (List.forall_mem_singleton.mpr (.refl (a := start)))
  exact ⟨r, known, (hreach _ source).symm.trans (hreach _ target)⟩

theorem SpanningTree.known (h : SpanningTree g ids tables) :
    ∀ id ∈ ids, ∃ r, g.relationship id = .ok r := by
  intro id hid
  obtain ⟨r, hr, -⟩ := h.ends id hid
  exact ⟨r, hr⟩

/-- Walked from any of its tables the relationships of a spanning tree are edges. -/
theorem SpanningTree.exists_edges (h : SpanningTree g ids tables) (hnodup : ids.Nodup)
    (hstart : start ∈ tables) : ∃ es, Tree [start] es ∧
      (∀ e ∈ es, g.relationship e.relationship.identifier = .ok e.relationship) ∧
      (es.map (·.relationship.identifier)).Perm ids := by
  obtain ⟨steps, left, hex, -⟩ := exists_exhausted [start] h.known
  have hleft : left = [] := hex.left_eq_nil.mpr fun id hid => by
    obtain ⟨r, hr, source, -⟩ := h.ends id hid
    exact ⟨r, hr, .inl (h.connected start hstart _ source)⟩
  have hperm : (steps.map (·.relationship)).Perm ids := by simpa [hleft] using hex.perm
  have hacyclic : ∀ s ∈ steps, s.newTable? ≠ none := by
    intro s hs hnone
    obtain ⟨before, after, hsteps⟩ := List.append_of_mem hs
    cases s with
    | fanOut id table => cases hnone
    | lookup id table => cases hnone
    | cycle id =>
      obtain ⟨r, hr, hreach⟩ := hex.chain.reachable_of_cycle hsteps hperm hnodup
      exact h.needed id (hperm.subset (List.mem_map_of_mem hs)) r hr hreach
  obtain ⟨htree, -, hids⟩ := hex.chain.tree hacyclic
  exact ⟨edges g steps, htree, fun e he => relationship_of_mem_edges he, hids ▸ hperm⟩

/-- With the root a connected part has the parents of its tables. -/
theorem Subtree.parent_mem (h : Subtree g ids tables part) (htree : Tree [start] es)
    (hknown : ∀ e ∈ es, g.relationship e.relationship.identifier = .ok e.relationship)
    (hids : ∀ id ∈ ids, ∃ e ∈ es, e.relationship.identifier = id) (hstart : start ∈ part)
    (he : e ∈ es) (hchild : e.child ∈ part) : e.parent ∈ part := by
  have hrooted := rooted_of_connected htree hknown (fun id hid => hids id (mem_inner.mp hid).1)
    (h.connected start hstart e.child hchild)
  obtain ⟨-, r, known, source, target⟩ := mem_inner.mp (Rooted.parent_of_child htree he hrooted).1
  cases known.symm.trans (hknown e he)
  rcases e.child_eq_or with ⟨-, hp⟩ | ⟨-, hp⟩
  · exact hp ▸ target
  · exact hp ▸ source

section

variable (htree : Tree [start] es)
  (hknown : ∀ e ∈ es, g.relationship e.relationship.identifier = .ok e.relationship)
  (hids : ∀ id ∈ ids, ∃ e ∈ es, e.relationship.identifier = id)
  (hclosed : ∀ e ∈ es, e.child ∈ part → e.parent ∈ part)
include htree hknown hids hclosed

/-- Whatever leads to a table outside of the part has met the parent of the table before. -/
theorem exists_inSteps_parent {n : Nat} (he : e ∈ es) (hchild : e.child ∉ part)
    (h : InSteps g ids part n e.child) : ∃ k < n, InSteps g ids part k e.parent := by
  induction n using Nat.strong_induction_on generalizing e with
  | _ n ih =>
    cases n with
    | zero => exact absurd h hchild
    | succ n =>
      obtain ⟨a, ha, hadjacent⟩ := h
      obtain ⟨e', he', -, ⟨hc, hp⟩ | ⟨hc, hp⟩⟩ := exists_edge_of_adjacent hknown hids hadjacent
      · cases htree.child_inj he' he hc
        exact ⟨n, n.lt_succ_self, hp ▸ ha⟩
      · -- The step before was at a child of the table, which was met before that.
        have hout : e'.child ∉ part := fun hin => hchild (hp ▸ hclosed e' he' hin)
        obtain ⟨k, hk, hmet⟩ := ih n n.lt_succ_self he' hout (hc ▸ ha)
        obtain ⟨j, hj, hparent⟩ := ih k (hk.trans n.lt_succ_self) he hchild (hp ▸ hmet)
        exact ⟨j, hj.trans (hk.trans n.lt_succ_self), hparent⟩

theorem nearer_parent (he : e ∈ es) (hreach : ∃ n, InSteps g ids part n e.child) :
    Nearer g ids part e.parent e.child ↔ e.child ∉ part := by
  classical
  constructor
  · rintro ⟨n, -, hfar⟩ hchild
    exact hfar 0 n.zero_le hchild
  · intro hchild
    obtain ⟨k, hk, hparent⟩ :=
      exists_inSteps_parent htree hknown hids hclosed he hchild (Nat.find_spec hreach)
    exact ⟨k, hparent, fun j hj => Nat.find_min hreach (hj.trans_lt hk)⟩

theorem not_nearer_child (he : e ∈ es) : ¬ Nearer g ids part e.child e.parent := by
  rintro ⟨n, hnear, hfar⟩
  by_cases hchild : e.child ∈ part
  · exact hfar 0 n.zero_le (hclosed e he hchild)
  · obtain ⟨k, hk, hparent⟩ := exists_inSteps_parent htree hknown hids hclosed he hchild hnear
    exact hfar k hk.le hparent

end

theorem exists_inSteps (ha : a ∈ part) (h : Reachable g ids a b) : ∃ n, InSteps g ids part n b := by
  induction h with
  | refl => exact ⟨0, ha⟩
  | tail _ hadjacent ih =>
    obtain ⟨n, hn⟩ := ih
    exact ⟨n + 1, _, hn, hadjacent⟩

end ApproxQuery.JoinPath
