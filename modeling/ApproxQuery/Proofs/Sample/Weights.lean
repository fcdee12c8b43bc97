import ApproxQuery.Proofs.Sample.OuterJoin
import ApproxQuery.Proofs.Schema.Tree

/-!
# Weights of tuples

If every step of a chain shares out one unit among the tuples that a tuple leads to, then the
products of these shares are one unit in all, over the tuples at the end of the chain.
-/

namespace ApproxQuery.Expansion

open JoinPath

variable {g : Schema ℚ} {bs : List (TableBlock ℚ)} {joined : List String} {s : JoinStep}
  {steps rest : List JoinStep} {r : Relationship} {t : JoinTuple} {ts : List JoinTuple}

theorem stepped_flatMap : stepped bs r ts s = ts.flatMap fun t => stepped bs r [t] s := by
  cases s with
  | fanOut id table => simp [stepped]
  | lookup id table => simp [stepped]
  | cycle id =>
    induction ts with
    | nil => rfl
    | cons t ts ih => exact (List.filter_append [t] ts).trans (congrArg _ ih)

theorem expanded_flatMap (h : Chain g joined steps) :
    expanded g bs steps ts = ts.flatMap fun t => expanded g bs steps [t] := by
  induction steps generalizing joined ts with
  | nil => simp [expanded]
  | cons s steps ih =>
    obtain ⟨r, known, -⟩ := h.ends
    simp only [expanded_cons known]
    rw [ih h.tail, stepped_flatMap, List.flatMap_assoc]
    exact List.flatMap_congr fun t _ => (ih h.tail).symm

/-- The step is taken from the joined tables, and the others follow. -/
structure At (g : Schema ℚ) (bs : List (TableBlock ℚ)) (joined : List String) (s : JoinStep)
    (rest : List JoinStep) (r : Relationship) : Prop where
  chain : Chain g joined (s :: rest)
  names : bs.map TableBlock.name = joined ++ added (s :: rest)
  known : g.relationship s.relationship = .ok r

namespace At

theorem cases (h : At g bs joined s rest r) :
    (s = .cycle r.identifier ∧ r.source ∈ joined ∧ r.target ∈ joined) ∨
      (s = .fanOut r.identifier r.source ∧ r.source ∉ joined ∧ r.target ∈ joined) ∨
      (s = .lookup r.identifier r.target ∧ r.source ∈ joined ∧ r.target ∉ joined) := by
  obtain ⟨hchain, -, known⟩ := h
  cases hchain with
  | cycle known' source target _ =>
    cases known.symm.trans known'
    exact .inl ⟨rfl, source, target⟩
  | fanOut known' source target _ =>
    cases known.symm.trans known'
    exact .inr (.inl ⟨rfl, source, target⟩)
  | lookup known' source target _ =>
    cases known.symm.trans known'
    exact .inr (.inr ⟨rfl, source, target⟩)

theorem names_append (h : At g bs joined s rest r) :
    bs.map TableBlock.name = (joined ++ s.newTable?.toList) ++ added rest := by
  rw [h.names, List.append_assoc, added_cons]

theorem sides (h : At g bs joined s rest r) (hsound : ∀ c ∈ bs, c.Sound)
    (hstored : Stored bs r.sourceKey ∧ Stored bs r.targetKey) :
    ∃ place place' c c', IsSide bs r.targetKey place c ∧ IsSide bs r.sourceKey place' c' ∧
      place < (joined ++ s.newTable?.toList).length := by
  obtain ⟨r', known, source, target⟩ := h.chain.ends
  cases h.known.symm.trans known
  obtain ⟨place, c, hside, hlt⟩ :=
    isSide_of_mem (a := r.targetKey) h.names_append hsound target hstored.2
  obtain ⟨place', c', hside', -⟩ :=
    isSide_of_mem (a := r.sourceKey) h.names_append hsound source hstored.1
  exact ⟨place, place', c, c', hside, hside', hlt⟩

/-- A step that adds a table extends each tuple, along an edge of the tree of the path. -/
theorem exists_extended (h : At g bs joined s rest r) (hadds : s.newTable? ≠ none) :
    ∃ a b e, s.newTable? = some b.table ∧ a.table ∈ joined ∧ b.table ∉ joined ∧
      (∀ t, stepped bs r [t] s = extended bs a b t) ∧
      ((a = r.targetKey ∧ b = r.sourceKey) ∨ (a = r.sourceKey ∧ b = r.targetKey)) ∧
      e.relationship = r ∧ e.parent = a.table ∧ e.child = b.table ∧
      ∀ steps, s ∈ steps → e ∈ edges g steps := by
  have known := Schema.relationship_eq_ok.mp h.known
  rcases h.cases with ⟨rfl, -⟩ | ⟨rfl, source, target⟩ | ⟨rfl, source, target⟩
  · exact absurd rfl hadds
  · refine ⟨r.targetKey, r.sourceKey, ⟨r, true⟩, rfl, target, source, fun t => ?_,
      .inl ⟨rfl, rfl⟩, rfl, rfl, rfl, fun _ hs => List.mem_filterMap.mpr ⟨_, hs, ?_⟩⟩
    · exact List.append_nil _
    · exact congrArg (Option.map _) known
  · refine ⟨r.sourceKey, r.targetKey, ⟨r, false⟩, rfl, source, target, fun t => ?_,
      .inr ⟨rfl, rfl⟩, rfl, rfl, rfl, fun _ hs => List.mem_filterMap.mpr ⟨_, hs, ?_⟩⟩
    · exact List.append_nil _
    · exact congrArg (Option.map _) known

end At

/-- The step gives the tuples that a good tuple leads to weights of sum one, and those that have a
weight are good again. A weight depends on the tables joined so far. -/
structure Shares (g : Schema ℚ) (bs : List (TableBlock ℚ)) (good : List String → JoinTuple → Prop)
    (weight : JoinStep → JoinTuple → ℚ) (s : JoinStep) : Prop where
  depends : ∀ {joined rest r}, At g bs joined s rest r → ∀ u : JoinTuple,
    weight s (u.take (joined ++ s.newTable?.toList).length) = weight s u
  total : ∀ {joined rest r}, At g bs joined s rest r → ∀ t, Holds bs joined t → good joined t →
    ((stepped bs r [t] s).map (weight s)).sum = 1
  keeps : ∀ {joined rest r}, At g bs joined s rest r → ∀ t, Holds bs joined t → good joined t →
    ∀ u ∈ stepped bs r [t] s, weight s u ≠ 0 → good (joined ++ s.newTable?.toList) u

/-- The product of the weights of the steps. -/
def weightOf (weight : JoinStep → JoinTuple → ℚ) (steps : List JoinStep) (t : JoinTuple) : ℚ :=
  (steps.map (weight · t)).prod

theorem sum_map_flatMap {α β : Type} {xs : List α} {f : β → ℚ} {next : α → List β} {weight : α → ℚ}
    (h : ∀ x ∈ xs, ((next x).map f).sum = weight x) :
    ((xs.flatMap next).map f).sum = (xs.map weight).sum := by
  induction xs with
  | nil => rfl
  | cons x xs ih =>
    rw [List.flatMap_cons, List.map_append, List.sum_append, h x List.mem_cons_self,
      ih fun y hy => h y (List.mem_cons_of_mem x hy), List.map_cons, List.sum_cons]

theorem sum_weights {good : List String → JoinTuple → Prop} {weight : JoinStep → JoinTuple → ℚ}
    (hsound : ∀ c ∈ bs, c.Sound) (h : Chain g joined steps)
    (hbs : bs.map TableBlock.name = joined ++ added steps) (hstored : KeysStored g bs steps)
    (hshares : ∀ s ∈ steps, Shares g bs good weight s) (ht : Holds bs joined t)
    (hgood : good joined t) :
    ((expanded g bs steps [t]).map (weightOf weight steps)).sum = 1 := by
  induction steps generalizing joined t with
  | nil => simp [expanded, weightOf]
  | cons s steps ih =>
    have hts : ∀ u ∈ [t], Holds bs joined u := by simpa using ht
    obtain ⟨r, known, hstep⟩ :=
      stepResult_of_chain hsound h hbs (hstored s List.mem_cons_self) hts
    have hat : At g bs joined s steps r := ⟨h, hbs, known⟩
    have hshare := hshares s List.mem_cons_self
    have hbs' := hat.names_append
    rw [expanded_cons known, expanded_flatMap h.tail, ← hshare.total hat t ht hgood]
    apply sum_map_flatMap
    intro u hu
    have hholds := hstep.holds u hu
    -- The weight of the step is the same for all tuples that the tuple leads to.
    have hweight : (expanded g bs steps [u]).map (weightOf weight (s :: steps)) =
        (expanded g bs steps [u]).map fun v => weight s u * weightOf weight steps v := by
      apply List.map_congr_left
      intro v hv
      have hus : ∀ v ∈ [u], Holds bs (joined ++ s.newTable?.toList) v := by simpa using hholds
      obtain ⟨-, -, -, hmem⟩ :=
        run_of_chain hsound h.tail hbs' hstored.tail hus (List.nodup_singleton u)
      have htake := List.mem_singleton.mp ((hmem v).mp hv).2.1
      rw [weightOf, List.map_cons, List.prod_cons, ← hshare.depends hat v, htake, weightOf]
    rw [hweight, List.sum_map_mul_left]
    by_cases hzero : weight s u = 0
    · rw [hzero, zero_mul]
    · have hnext := ih h.tail hbs' hstored.tail (fun x hx => hshares x (List.mem_cons_of_mem s hx))
        hholds (hshare.keeps hat t ht hgood u hu hzero)
      rw [hnext, mul_one]

end ApproxQuery.Expansion
