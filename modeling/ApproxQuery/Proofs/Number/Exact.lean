import ApproxQuery.Number.Scalar
import Mathlib

/-!
# Exact numbers

On rational numbers the operations of scalars are the usual ones, every number is finite, and no
number is the result of rounding.
-/

namespace ApproxQuery

/-- Integers and finite scalars are numbers. -/
class NumericScalar (N : Type) [Scalar N] : Prop where
  isNaN_ofInt : ∀ i : Int, Scalar.isNaN (Scalar.ofInt i : N) = false
  isNaN_of_isFinite : ∀ x : N, Scalar.isFinite x = true → Scalar.isNaN x = false

/-- Moreover, the order tells numbers apart, and scalars that stand for one integer have one
representative. -/
class LawfulScalar (N : Type) [Scalar N] : Prop extends NumericScalar N where
  eq_comm : ∀ x y : N, Scalar.eq x y = Scalar.eq y x
  eq_self : ∀ x : N, Scalar.isNaN x = false → Scalar.eq x x = true
  zero_lt_one : Scalar.lt (0 : N) 1 = true
  integer?_canonical : ∀ x : N, Scalar.integer? (Scalar.canonical x) = Scalar.integer? x
  canonical_eq : ∀ (x y : N) (i : Int), Scalar.integer? x = some i → Scalar.integer? y = some i →
    Scalar.canonical x = Scalar.canonical y

/-- The positive integers up to a bound are scalars of their own. -/
def Scalar.CountsTo (N : Type) [Scalar N] (bound : Nat) : Prop :=
  ∀ n, 0 < n → n ≤ bound →
    Scalar.lt (Scalar.ofNat n : N) 1 = false ∧ Scalar.floor? (Scalar.ofNat n : N) = some (n : Int)

end ApproxQuery

namespace ApproxQuery.Exact

instance : NumericScalar ℚ := ⟨fun _ => rfl, fun _ _ => rfl⟩

theorem compare?_eq (a b : ℚ) :
    Scalar.compare? a b = some (if a < b then .lt else if b < a then .gt else .eq) := rfl

@[simp] theorem lt_iff {a b : ℚ} : Scalar.lt a b = true ↔ a < b := by
  rw [Scalar.lt, compare?_eq]
  split_ifs with hab hba
  · simp [hab]
  · simp [hab]
  · simp [hab]

@[simp] theorem le_iff {a b : ℚ} : Scalar.le a b = true ↔ a ≤ b := by
  rw [Scalar.le, compare?_eq]
  split_ifs with hab hba
  · simp [Ordering.isLE, hab.le]
  · simp [Ordering.isLE, hba]
  · simp [Ordering.isLE, not_lt.mp hba]

@[simp] theorem eq_iff {a b : ℚ} : Scalar.eq a b = true ↔ a = b := by
  rw [Scalar.eq, compare?_eq]
  split_ifs with hab hba
  · simp [hab.ne]
  · simp [hba.ne']
  · simp [le_antisymm (not_lt.mp hba) (not_lt.mp hab)]

@[simp] theorem isNaN_eq (a : ℚ) : Scalar.isNaN a = false := rfl

@[simp] theorem isFinite_eq (a : ℚ) : Scalar.isFinite a = true := rfl

@[simp] theorem canonical_eq (a : ℚ) : Scalar.canonical a = a := rfl

@[simp] theorem ofInt_eq (i : Int) : (Scalar.ofInt i : ℚ) = i := rfl

@[simp] theorem ofNat_eq (n : Nat) : (Scalar.ofNat n : ℚ) = n := rfl

@[simp] theorem max_eq (a b : ℚ) : Scalar.max a b = max a b := by
  by_cases h : a ≤ b
  · simp [Scalar.max, le_iff.mpr h, max_eq_right h]
  · have hb : Scalar.le a b = false := Bool.eq_false_iff.mpr fun hle => h (le_iff.mp hle)
    simp [Scalar.max, hb, max_eq_left (not_le.mp h).le]

@[simp] theorem abs_eq (a : ℚ) : Scalar.abs a = |a| := by
  change (if a.num < 0 then -a else a) = |a|
  split_ifs with h
  · rw [abs_of_neg (Rat.num_neg.mp h)]
  · rw [abs_of_nonneg (Rat.num_nonneg.mp (not_lt.mp h))]

theorem epsilon_eq : (Scalar.epsilon : ℚ) = 1 / 2 ^ 52 := by
  change mkRat 1 4503599627370496 = _
  rw [Rat.mkRat_eq_div]
  norm_num

theorem sum_eq (xs : List ℚ) : Scalar.sum xs = xs.sum := by
  cases xs with
  | nil => rfl
  | cons x xs =>
    rw [List.sum_eq_foldl, List.foldl_cons, zero_add]
    rfl

theorem mean_eq (xs : List ℚ) : Scalar.mean xs = xs.sum / xs.length := by
  rw [Scalar.mean, sum_eq]
  rfl

/-- Some number is not above the mean. -/
theorem exists_le_mean {xs : List ℚ} (hne : xs ≠ []) : ∃ x ∈ xs, x ≤ Scalar.mean xs := by
  refine List.exists_le_of_sum_le hne id (fun _ => Scalar.mean xs) (le_of_eq ?_)
  have hlength : (xs.length : ℚ) ≠ 0 := Nat.cast_ne_zero.mpr (List.length_eq_zero_iff.not.mpr hne)
  rw [List.map_id, List.map_const', List.sum_replicate, nsmul_eq_mul, mean_eq,
    mul_div_cancel₀ _ hlength]

theorem integer?_eq_some {x : ℚ} {i : Int} : Scalar.integer? x = some i ↔ x = i := by
  constructor
  · intro h
    change (if x.den = 1 then some x.num else none) = some i at h
    split_ifs at h with hd
    · cases h
      exact (Rat.den_eq_one_iff x).mp hd |>.symm
  · rintro rfl
    change (if (i : ℚ).den = 1 then some (i : ℚ).num else none) = some i
    simp

theorem floor?_natCast (n : Nat) : Scalar.floor? (n : ℚ) = some (n : Int) :=
  congrArg some (Rat.floor_intCast n)

instance : LawfulScalar ℚ where
  eq_comm x y := by rw [Bool.eq_iff_iff, eq_iff, eq_iff, @eq_comm]
  eq_self _ _ := eq_iff.mpr rfl
  zero_lt_one := lt_iff.mpr zero_lt_one
  integer?_canonical _ := rfl
  canonical_eq _ _ _ hx hy := (integer?_eq_some.mp hx).trans (integer?_eq_some.mp hy).symm

theorem countsTo (bound : Nat) : Scalar.CountsTo ℚ bound := by
  intro n hpos _
  refine ⟨?_, floor?_natCast n⟩
  rw [← Bool.not_eq_true, lt_iff, not_lt]
  exact Nat.one_le_cast.mpr hpos

end ApproxQuery.Exact
