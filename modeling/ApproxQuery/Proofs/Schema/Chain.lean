import ApproxQuery.Proofs.Outcome
import ApproxQuery.Schema.JoinPath

/-!
# Chains of steps

An assembled path is a chain: each step follows a relationship of the schema that has an end among
the tables joined so far, and a step that adds a table adds one that was not joined before.
-/

namespace ApproxQuery

theorem Schema.relationship_eq_ok {N : Type} {g : Schema N} {id : String} {r : Relationship} :
    g.relationship id = .ok r ↔ g.relationship? id = some r := by
  unfold relationship
  cases g.relationship? id <;> simp

theorem Schema.identifier_of_relationship {N : Type} {g : Schema N} {id : String}
    {r : Relationship} (h : g.relationship id = .ok r) : r.identifier = id := by
  unfold relationship at h
  split at h
  · rename_i s hs
    cases h
    have hid := List.find?_some hs
    exact beq_iff_eq.mp hid
  · cases h

theorem Schema.map_identifier_of_mapM {N : Type} {g : Schema N} {ids : List String}
    {rs : List Relationship} (h : ids.mapM g.relationship = .ok rs) :
    rs.map Relationship.identifier = ids := by
  refine (List.forall₂_eq_eq_eq ▸ List.forall₂_map_right_iff.mpr ?_ : ids = _).symm
  exact (mapM_eq_ok.mp h).imp fun id r hr => (identifier_of_relationship hr).symm

theorem Schema.nodup_of_mapM {N : Type} {g : Schema N} {ids : List String}
    {rs : List Relationship} (h : ids.mapM g.relationship = .ok rs) (hids : ids.Nodup) :
    rs.Nodup := by
  refine List.Nodup.of_map Relationship.identifier ?_
  rwa [map_identifier_of_mapM h]

theorem Schema.name_of_table {N : Type} {g : Schema N} {name : String} {t : Table N}
    (h : g.table name = .ok t) : t.name = name := by
  unfold table at h
  split at h
  · rename_i s hs
    cases h
    have hid := List.find?_some hs
    exact beq_iff_eq.mp hid
  · cases h

namespace JoinPath

variable {N : Type} {g : Schema N} {joined : List String} {steps : List JoinStep}

/-- The steps can be made one after another from the joined tables. -/
inductive Chain (g : Schema N) : List String → List JoinStep → Prop where
  | nil {joined : List String} : Chain g joined []
  | cycle {joined : List String} {r : Relationship} {steps : List JoinStep}
      (known : g.relationship r.identifier = .ok r) (source : r.source ∈ joined)
      (target : r.target ∈ joined) (rest : Chain g joined steps) :
      Chain g joined (.cycle r.identifier :: steps)
  | fanOut {joined : List String} {r : Relationship} {steps : List JoinStep}
      (known : g.relationship r.identifier = .ok r) (source : r.source ∉ joined)
      (target : r.target ∈ joined) (rest : Chain g (joined ++ [r.source]) steps) :
      Chain g joined (.fanOut r.identifier r.source :: steps)
  | lookup {joined : List String} {r : Relationship} {steps : List JoinStep}
      (known : g.relationship r.identifier = .ok r) (source : r.source ∈ joined)
      (target : r.target ∉ joined) (rest : Chain g (joined ++ [r.target]) steps) :
      Chain g joined (.lookup r.identifier r.target :: steps)

theorem takeStep_eq_some {ids left : List String} {step : JoinStep}
    (h : takeStep g joined ids = .ok (some (step, left))) :
    ∃ r, g.relationship r.identifier = .ok r ∧ JoinStep.ofJoined? joined r = some step := by
  induction ids generalizing left with
  | nil => cases h
  | cons id ids ih =>
    unfold takeStep at h
    obtain ⟨r, hr, h⟩ := bind_eq_ok.mp h
    split at h
    · rename_i s hs
      cases h
      have hid := Schema.identifier_of_relationship hr
      exact ⟨r, by rw [hid, hr], hs⟩
    · obtain ⟨next, hnext, h⟩ := bind_eq_ok.mp h
      have h := pure_eq_ok.mp h
      obtain ⟨⟨s, rest⟩, rfl, hs⟩ := Option.map_eq_some_iff.mp h
      cases hs
      exact ih hnext

theorem Chain.cons {r : Relationship} {step : JoinStep} (known : g.relationship r.identifier = .ok r)
    (hstep : JoinStep.ofJoined? joined r = some step)
    (rest : Chain g (joined ++ step.newTable?.toList) steps) : Chain g joined (step :: steps) := by
  unfold JoinStep.ofJoined? at hstep
  split at hstep
  · rename_i hs ht
    cases hstep
    rw [List.contains_iff_mem] at hs ht
    exact .cycle known hs ht (by simpa [JoinStep.newTable?] using rest)
  · rename_i hs ht
    cases hstep
    rw [← Bool.not_eq_true, List.contains_iff_mem] at hs
    rw [List.contains_iff_mem] at ht
    exact .fanOut known hs ht rest
  · rename_i hs ht
    cases hstep
    rw [List.contains_iff_mem] at hs
    rw [← Bool.not_eq_true, List.contains_iff_mem] at ht
    exact .lookup known hs ht rest
  · cases hstep

theorem chain_isChain {rounds : Nat} {remaining : List String}
    (h : chain g rounds joined remaining = .ok steps) : Chain g joined steps := by
  induction rounds generalizing joined remaining steps with
  | zero =>
    cases h
    exact .nil
  | succ rounds ih =>
    unfold chain at h
    obtain ⟨next, hnext, h⟩ := bind_eq_ok.mp h
    split at h
    · cases h
    · rename_i step left
      obtain ⟨rest, hrest, h⟩ := bind_eq_ok.mp h
      cases pure_eq_ok.mp h
      obtain ⟨r, hknown, hstep⟩ := takeStep_eq_some hnext
      exact .cons hknown hstep (ih hrest)

theorem length_chain {rounds : Nat} {remaining : List String}
    (h : chain g rounds joined remaining = .ok steps) : steps.length = rounds := by
  induction rounds generalizing joined remaining steps with
  | zero =>
    cases h
    rfl
  | succ rounds ih =>
    unfold chain at h
    obtain ⟨next, hnext, h⟩ := bind_eq_ok.mp h
    split at h
    · cases h
    · obtain ⟨rest, hrest, h⟩ := bind_eq_ok.mp h
      cases pure_eq_ok.mp h
      rw [List.length_cons, ih hrest]

theorem length_assemble {start : String} {ids : List String} {p : JoinPath}
    (h : assemble g start ids = .ok p) : p.steps.length = ids.length := by
  unfold assemble at h
  obtain ⟨_, _, h⟩ := bind_eq_ok.mp h
  obtain ⟨steps, hsteps, h⟩ := bind_eq_ok.mp h
  cases pure_eq_ok.mp h
  exact length_chain hsteps

theorem steps_ne_nil {start : String} {ids : List String} {p : JoinPath}
    (h : assemble g start ids = .ok p) (hids : ids ≠ []) : p.steps ≠ [] := by
  rw [← List.length_pos_iff, length_assemble h]
  exact List.length_pos_iff.mpr hids

/-- The tables that the steps add. -/
def added (steps : List JoinStep) : List String :=
  steps.filterMap (·.newTable?)

@[simp] theorem added_nil : added [] = [] := rfl

theorem added_cons (s : JoinStep) (steps : List JoinStep) :
    added (s :: steps) = s.newTable?.toList ++ added steps := by
  cases s <;> rfl

theorem Chain.tail {s : JoinStep} (h : Chain g joined (s :: steps)) :
    Chain g (joined ++ s.newTable?.toList) steps := by
  cases h with
  | cycle known source target rest => simpa [JoinStep.newTable?] using rest
  | fanOut known source target rest => exact rest
  | lookup known source target rest => exact rest

theorem Chain.ends {s : JoinStep} (h : Chain g joined (s :: steps)) :
    ∃ r, g.relationship s.relationship = .ok r ∧ r.source ∈ joined ++ s.newTable?.toList ∧
      r.target ∈ joined ++ s.newTable?.toList := by
  cases h with
  | @cycle _ r _ known source target rest =>
    exact ⟨r, known, List.mem_append_left _ source, List.mem_append_left _ target⟩
  | @fanOut _ r _ known source target rest =>
    exact ⟨r, known, List.mem_append_right _ List.mem_cons_self, List.mem_append_left _ target⟩
  | @lookup _ r _ known source target rest =>
    exact ⟨r, known, List.mem_append_left _ source, List.mem_append_right _ List.mem_cons_self⟩

theorem Chain.ends_of_mem {s : JoinStep} (h : Chain g joined steps) (hs : s ∈ steps) :
    ∃ r, g.relationship s.relationship = .ok r ∧ r.source ∈ joined ++ added steps ∧
      r.target ∈ joined ++ added steps := by
  induction steps generalizing joined with
  | nil => cases hs
  | cons x steps ih =>
    rw [added_cons, ← List.append_assoc]
    rcases List.mem_cons.mp hs with rfl | hs
    · obtain ⟨r, known, source, target⟩ := h.ends
      exact ⟨r, known, List.mem_append_left _ source, List.mem_append_left _ target⟩
    · exact ih h.tail hs

theorem Chain.nodup (h : Chain g joined steps) (hjoined : joined.Nodup) :
    (joined ++ added steps).Nodup := by
  induction h with
  | nil => simpa using hjoined
  | cycle known source target rest ih => exact ih hjoined
  | @fanOut joined r steps known source target rest ih =>
    have hnext : (joined ++ [r.source]).Nodup := by
      rw [List.nodup_append_comm]
      exact List.nodup_cons.mpr ⟨source, hjoined⟩
    simpa [added_cons, JoinStep.newTable?] using ih hnext
  | @lookup joined r steps known source target rest ih =>
    have hnext : (joined ++ [r.target]).Nodup := by
      rw [List.nodup_append_comm]
      exact List.nodup_cons.mpr ⟨target, hjoined⟩
    simpa [added_cons, JoinStep.newTable?] using ih hnext

theorem assemble_isChain {start : String} {ids : List String} {p : JoinPath}
    (h : assemble g start ids = .ok p) : p.start = start ∧ Chain g [start] p.steps := by
  unfold assemble at h
  obtain ⟨_, _, h⟩ := bind_eq_ok.mp h
  obtain ⟨steps, hsteps, h⟩ := bind_eq_ok.mp h
  cases pure_eq_ok.mp h
  exact ⟨rfl, chain_isChain hsteps⟩

end JoinPath

end ApproxQuery
