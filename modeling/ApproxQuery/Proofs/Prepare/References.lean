import ApproxQuery.Prepare.Multipliers
import ApproxQuery.Proofs.Value.Equality

/-!
# References to a key

A row references a key if its value is equal to the key and is not null. A tally that is filled with
the values one after another tells for every key how many of them reference it.
-/

namespace ApproxQuery

variable {N : Type} [Scalar N]

namespace Multiplier

/-- The number of values that reference the key. -/
def count (references : List (Value N)) (key : Value N) : Nat :=
  references.countP fun v => !v.isNull && v == key

/-- Nothing references a null or a key that no value is equal to. -/
theorem count_eq_zero {references : List (Value N)} {key : Value N}
    (h : key.isNull = true ∨ ∀ v ∈ references, v.isNull = false → (v == key) = false) :
    count references key = 0 := by
  refine List.countP_eq_zero.mpr fun v hv hcounted => ?_
  obtain ⟨hpresent, heq⟩ := Bool.and_eq_true_iff.mp hcounted
  rw [Bool.not_eq_true'] at hpresent
  rcases h with hnull | hnone
  · rw [← Value.isNull_eq_of_beq heq, hpresent] at hnull
    cases hnull
  · rw [hnone v hv hpresent] at heq
    cases heq

variable [LawfulScalar N]

theorem count_congr {ks ks' : List (Value N)} {v v' : Value N}
    (hks : List.Forall₂ (fun k k' => (k == k') = true) ks ks') (hv : (v == v') = true) :
    count ks v = count ks' v' := by
  unfold count
  induction hks with
  | nil => rfl
  | cons hk _ ih =>
    rw [List.countP_cons, List.countP_cons, ih, Value.beq_congr hk hv, Value.isNull_eq_of_beq hk]

/-- Of different values at most one references a key. -/
theorem count_le_one {ks : List (Value N)} (h : ks.Pairwise fun k k' => (k == k') = false)
    (v : Value N) : count ks v ≤ 1 := by
  unfold count
  induction ks with
  | nil => exact Nat.zero_le 1
  | cons k ks ih =>
    obtain ⟨hk, hks⟩ := List.pairwise_cons.mp h
    rw [List.countP_cons]
    split
    · rename_i hkv
      have heq := (Bool.and_eq_true_iff.mp hkv).2
      have hzero : ks.countP (fun k => !k.isNull && k == v) = 0 := by
        refine List.countP_eq_zero.mpr fun k' hk' hkv' => ?_
        have heq' := (Bool.and_eq_true_iff.mp hkv').2
        have hsame := Value.beq_trans heq (Value.beq_comm k' v ▸ heq')
        rw [hk k' hk'] at hsame
        cases hsame
      omega
    · have hle := ih hks
      omega

end Multiplier

namespace Tally

theorem get_cons (w : Value N) (n : Nat) (tally : Tally N) (key : Value N) :
    get ((w, n) :: tally) key = if w == key then n else tally.get key := by
  unfold get
  rw [List.find?_cons]
  cases w == key <;> rfl

variable [LawfulScalar N]

/-- One more of a value counts for the keys that are equal to it. -/
theorem get_add (tally : Tally N) (v key : Value N) :
    (tally.add v).get key = tally.get key + if v == key then 1 else 0 := by
  induction tally with
  | nil => cases h : v == key <;> simp [add, get, h]
  | cons entry tally ih =>
    obtain ⟨w, n⟩ := entry
    rw [add, get_cons]
    split
    · rename_i hw
      rw [get_cons, Value.beq_congr hw (Value.beq_refl key)]
      cases v == key <;> rfl
    · rename_i hw
      rw [get_cons, ih]
      split
      · rename_i hkey
        -- the entry of the key is not that of the value
        have hv : ¬ (v == key) = true := fun hv =>
          hw (Value.beq_trans hkey (Value.beq_comm v key ▸ hv))
        rw [if_neg hv, Nat.add_zero]
      · rfl

theorem get_foldl_add (tally : Tally N) (vs : List (Value N)) (key : Value N) :
    (vs.foldl add tally).get key = tally.get key + vs.countP (· == key) := by
  induction vs generalizing tally with
  | nil => rfl
  | cons v vs ih =>
    rw [List.foldl_cons, ih, get_add, List.countP_cons]
    omega

/-- A tally of values tells how many of them reference a key. -/
theorem get_ofValues (vs : List (Value N)) (key : Value N) :
    (ofValues vs).get key = Multiplier.count vs key := by
  rw [ofValues, get_foldl_add, List.countP_filter, Multiplier.count]
  simp only [Bool.and_comm]
  exact Nat.zero_add _

end Tally

end ApproxQuery
