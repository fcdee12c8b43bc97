import ApproxQuery.Proofs.Number.Exact
import ApproxQuery.Value.Basic

/-!
# Equality of values

Equality of values is symmetric, and null is equal to null only. On lawful scalars two values are
equal if their keys are, so equality is an equivalence.
-/

namespace ApproxQuery.Value

section

variable {N : Type} [Scalar N] {v w : Value N}

theorem beq_comm (v w : Value N) : (v == w) = (w == v) := by
  change v.eq w = w.eq v
  cases v <;> cases w <;> simp [eq, Bool.beq_comm]

theorem distinct_sublist (vs : List (Value N)) : (distinct vs).Sublist vs := by
  unfold distinct
  have hfold (seen : List (Value N)) :
      (vs.foldl (fun seen v => if seen.contains v then seen else seen ++ [v]) seen).Sublist
        (seen ++ vs) := by
    induction vs generalizing seen with
    | nil => simp
    | cons v vs ih =>
      rw [List.foldl_cons]
      split
      · exact (ih seen).trans ((List.sublist_cons_self v vs).append_left seen)
      · simpa using ih (seen ++ [v])
  exact hfold []

theorem isNull_eq_of_beq (h : (v == w) = true) : v.isNull = w.isNull := by
  change v.eq w = true at h
  cases v <;> cases w <;> simp_all [eq, isNull]

end

theorem toInt_of_int64? {n : Int} {i : Int64} (h : Number.int64? n = some i) : n = i.toInt := by
  unfold Number.int64? at h
  split at h
  · rename_i hrange
    cases h
    rw [Int64.toInt_ofInt_of_le hrange.1 hrange.2]
  · cases h

theorem int64?_toInt (i : Int64) : Number.int64? i.toInt = some i := by
  unfold Number.int64?
  rw [if_pos ⟨i.le_toInt, i.toInt_lt⟩, Int64.ofInt_toInt]

theorem word?_eq_some {x : ℚ} {i : Int64} : word? x = some i ↔ x = (i.toInt : ℚ) := by
  unfold word?
  rw [Option.bind_eq_some_iff]
  simp only [Exact.integer?_eq_some]
  constructor
  · rintro ⟨n, rfl, hn⟩
    rw [toInt_of_int64? hn]
  · rintro rfl
    exact ⟨i.toInt, rfl, int64?_toInt i⟩

variable {N : Type} [Scalar N]

theorem key_num (x : N) : (num x : Value N).key = (word? x).elim (.num (Scalar.canonical x)) .int := rfl

theorem key_int_eq_num {i : Int64} {x : N} : (int i).key = (num x).key ↔ word? x = some i := by
  rw [key_num]
  cases word? x <;> simp [key, eq_comm]

variable [LawfulScalar N]

theorem key_num_eq_num {x y : N} :
    (num x).key = (num y).key ↔ Scalar.canonical x = Scalar.canonical y := by
  constructor
  · intro h
    cases hy : word? y with
    | some j =>
      have hkey : (num y).key = (int j : Value N).key := by rw [key_num, hy, Option.elim_some, key]
      have hx := key_int_eq_num.mp (h.trans hkey).symm
      obtain ⟨n, hxn, hn⟩ := Option.bind_eq_some_iff.mp hx
      obtain ⟨m, hym, hm⟩ := Option.bind_eq_some_iff.mp hy
      rw [toInt_of_int64? hn] at hxn
      rw [toInt_of_int64? hm] at hym
      exact LawfulScalar.canonical_eq x y _ hxn hym
    | none =>
      rw [key_num, key_num, hy] at h
      cases hx : word? x <;> simp_all
  · intro h
    have hinteger : Scalar.integer? x = Scalar.integer? y := by
      rw [← LawfulScalar.integer?_canonical x, h, LawfulScalar.integer?_canonical]
    rw [key_num, key_num, h, word?, word?, hinteger]

variable {u v w : Value N}

theorem beq_iff_key : (v == w) = true ↔ v.key = w.key := by
  change v.eq w = true ↔ _
  cases v with
  | null => cases w with
    | num x => cases h : word? x <;> simp [eq, key, h]
    | _ => simp [eq, key]
  | text s => cases w with
    | num x => cases h : word? x <;> simp [eq, key, h]
    | _ => simp [eq, key]
  | int i => cases w with
    | num x => rw [key_int_eq_num, eq, beq_iff_eq]
    | _ => simp [eq, key]
  | num x => cases w with
    | num y => rw [key_num_eq_num, eq, beq_iff_eq]
    | int j => rw [@eq_comm _ (num x).key, key_int_eq_num, eq, beq_iff_eq]
    | null => cases h : word? x <;> simp [eq, key, h]
    | text s => cases h : word? x <;> simp [eq, key, h]

theorem beq_refl (v : Value N) : (v == v) = true :=
  beq_iff_key.mpr rfl

theorem beq_trans (h : (u == v) = true) (h' : (v == w) = true) : (u == w) = true :=
  beq_iff_key.mpr ((beq_iff_key.mp h).trans (beq_iff_key.mp h'))

theorem beq_congr {v' w' : Value N} (hv : (v == v') = true) (hw : (w == w') = true) :
    (v == w) = (v' == w') := by
  rw [Bool.eq_iff_iff, beq_iff_key, beq_iff_key, beq_iff_key.mp hv, beq_iff_key.mp hw]

theorem num_toScalar?_beq {v : Value ℚ} {x : ℚ} (h : v.toScalar? = some x) : (num x == v) = true := by
  cases v with
  | null => cases h
  | text s => cases h
  | int i =>
    cases h
    exact beq_iff_key.mpr (key_int_eq_num.mpr (word?_eq_some.mpr rfl)).symm
  | num y =>
    cases h
    exact beq_refl _

theorem exists_mem_distinct {vs : List (Value N)} (h : v ∈ vs) : ∃ w ∈ distinct vs, (w == v) = true := by
  have hfold (seen : List (Value N)) (hv : v ∈ vs ∨ ∃ w ∈ seen, (w == v) = true) :
      ∃ w ∈ vs.foldl (fun seen v => if seen.contains v then seen else seen ++ [v]) seen,
        (w == v) = true := by
    clear h
    induction vs generalizing seen with
    | nil => exact hv.resolve_left List.not_mem_nil
    | cons u vs ih =>
      apply ih _
      rcases hv with hmem | ⟨w, hw, heq⟩
      · rcases List.mem_cons.mp hmem with rfl | hmem
        · refine .inr ?_
          dsimp only
          split
          · rename_i hcontains
            obtain ⟨w, hw, heq⟩ := List.contains_iff_exists_mem_beq.mp hcontains
            exact ⟨w, hw, beq_comm v w ▸ heq⟩
          · exact ⟨v, List.mem_append_right _ List.mem_cons_self, beq_refl v⟩
        · exact .inl hmem
      · refine .inr ?_
        dsimp only
        split
        · exact ⟨w, hw, heq⟩
        · exact ⟨w, List.mem_append_left _ hw, heq⟩
  exact hfold [] (.inl h)

end ApproxQuery.Value
