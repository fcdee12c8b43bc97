import ApproxQuery.Proofs.Value.Equality
import ApproxQuery.Query.Condition

/-!
# Conditions on equal values

On exact numbers a condition holds of equal values alike.
-/

namespace ApproxQuery

namespace Value

theorem compare?_int (i j : Int64) :
    (int i : Value ℚ).compare? (int j) = Scalar.compare? (i.toInt : ℚ) (j.toInt : ℚ) := by
  have hcompare : (int i : Value ℚ).compare? (int j) = some (compare i j) := rfl
  rw [hcompare, Exact.compare?_eq]
  congr 1
  simp only [Int.cast_lt]
  change compareOfLessAndEq i j = _
  unfold compareOfLessAndEq
  by_cases hlt : i < j
  · rw [if_pos hlt, if_pos (Int64.lt_iff_toInt_lt.mp hlt)]
  · rw [if_neg hlt, if_neg fun h => hlt (Int64.lt_iff_toInt_lt.mpr h)]
    by_cases heq : i = j
    · subst heq
      rw [if_pos rfl, if_neg (lt_irrefl _)]
    · have hne : i.toInt ≠ j.toInt := fun h => heq (Int64.toInt_inj.mp h)
      have hle : ¬ i.toInt < j.toInt := fun h => hlt (Int64.lt_iff_toInt_lt.mpr h)
      rw [if_neg heq, if_pos (by omega)]

theorem compare?_eq {v w : Value ℚ} {x y : ℚ} (hv : v.toScalar? = some x) (hw : w.toScalar? = some y) :
    v.compare? w = Scalar.compare? x y := by
  cases v with
  | null => cases hv
  | text s => cases hv
  | int i =>
    cases hv
    cases w with
    | null => cases hw
    | text s => cases hw
    | int j =>
      cases hw
      exact compare?_int i j
    | num y =>
      cases hw
      rfl
  | num x =>
    cases hv
    cases w with
    | null => cases hw
    | text s => cases hw
    | int j =>
      cases hw
      rfl
    | num y =>
      cases hw
      rfl

/-- Equal values are null, are one text, or stand for one number. -/
theorem cases_of_beq {v w : Value ℚ} (h : (v == w) = true) : v = w ∨
    ∃ x, v.toScalar? = some x ∧ w.toScalar? = some x := by
  change v.eq w = true at h
  cases v with
  | null => cases w <;> simp_all [eq]
  | text s => cases w <;> simp_all [eq]
  | int i =>
    cases w with
    | null => cases h
    | text s => cases h
    | int j => simp_all [eq]
    | num x => exact .inr ⟨i.toInt, rfl, congrArg some (word?_eq_some.mp (beq_iff_eq.mp h))⟩
  | num x =>
    cases w with
    | null => cases h
    | text s => cases h
    | int j => exact .inr ⟨j.toInt, congrArg some (word?_eq_some.mp (beq_iff_eq.mp h)), rfl⟩
    | num y => simp_all [eq]

theorem compare?_congr {v w : Value ℚ} (h : (v == w) = true) (u : Value ℚ) :
    v.compare? u = w.compare? u := by
  rcases cases_of_beq h with rfl | ⟨x, hv, hw⟩
  · rfl
  · cases hu : u.toScalar? with
    | some y => rw [compare?_eq hv hu, compare?_eq hw hu]
    | none =>
      have hnone {v : Value ℚ} (hv : v.toScalar? = some x) : v.compare? u = none := by
        cases u with
        | null =>
          cases v with
          | null => cases hv
          | text s => cases hv
          | int i => rfl
          | num y => rfl
        | text s =>
          cases v with
          | null => cases hv
          | text s => cases hv
          | int i => rfl
          | num y => rfl
        | int j => cases hu
        | num y => cases hu
      rw [hnone hv, hnone hw]

end Value

namespace Condition

theorem holds_congr {v w : Value ℚ} (h : (v == w) = true) (c : Condition ℚ) : c.holds v = c.holds w := by
  have hnull := Value.isNull_eq_of_beq h
  have hcontains (vs : List (Value ℚ)) : vs.contains v = vs.contains w := by
    rw [Bool.eq_iff_iff, List.contains_iff_exists_mem_beq, List.contains_iff_exists_mem_beq]
    exact exists_congr fun u => and_congr_right fun _ =>
      by rw [Value.beq_congr h (Value.beq_refl u)]
  unfold holds
  simp only [hnull, hcontains, Value.compare?_congr h]

theorem holds_equals_zero (a : AttributeRef) (x : ℚ) :
    (equals a (.int 0)).holds (.num x) = decide (x = 0) := by
  have hholds : (equals a (.int 0)).holds (.num x) =
      ((Value.num x).compare? (.int 0)).any Operator.eq.admits := rfl
  have hzero : (Value.int 0 : Value ℚ).toScalar? = some 0 := by rfl
  rw [hholds, Value.compare?_eq rfl hzero, Exact.compare?_eq]
  rcases lt_trichotomy x 0 with hlt | rfl | hgt
  · rw [if_pos hlt]
    simp [Operator.admits, hlt.ne]
  · simp [Operator.admits]
  · rw [if_neg hgt.not_gt, if_pos hgt]
    simp [Operator.admits, hgt.ne']

end Condition

end ApproxQuery
