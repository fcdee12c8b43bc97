import ApproxQuery.Proofs.Number.Counts
import ApproxQuery.Proofs.Value.Equality

/-!
# Numbers read back from their text

The text of a number is read back as that number. Read as an integer, the text of a whole number
stands for an integer that is rounded to the number: below `2 ^ 53` that is the number itself.
-/

open Float.Model Float.Model.UnpackedFloat

namespace ApproxQuery

namespace Layout

open Binary64

/-- The text of a number is `NaN`, or `inf` or a numeral with a sign. -/
theorem plain_cases (x : Float) :
    (plain x = "NaN" ∧ x = 0.0 / 0.0) ∨
    (∃ negative, plain x = String.ofList (sign negative ++ ['i', 'n', 'f']) ∧
      x = Number.withSign negative (1.0 / 0.0)) ∨
    ∃ negative n, plain x = String.ofList (sign negative ++ Numeral.text n) ∧
      x = Number.withSign negative (Number.ofDecimal n.decimal.digits n.decimal.exponent) := by
  have hfinite (h : x.toModel.unpack.isFinite = true) := exists_numeral_plain (x := x) h
  cases hu : x.toModel.unpack with
  | notANumber =>
    refine .inl ⟨?_, eq_of_unpack_eq (hu.trans rfl)⟩
    unfold plain ofFloat
    rw [hu]
  | infinity s =>
    refine .inr (.inl ⟨isNegative s, ?_, eq_of_unpack_eq ?_⟩)
    · unfold plain ofFloat
      rw [hu]
      cases s <;> rfl
    · rw [hu]
      cases s <;> rfl
  | zero s =>
    obtain ⟨negative, n, htext, hvalue⟩ := hfinite (by rw [hu]; rfl)
    exact .inr (.inr ⟨negative, n, htext, hvalue.symm⟩)
  | finite s m e h =>
    obtain ⟨negative, n, htext, hvalue⟩ := hfinite (by rw [hu]; rfl)
    exact .inr (.inr ⟨negative, n, htext, hvalue.symm⟩)

end Layout

namespace Number

open Binary64

theorem readFloat?_plain (x : Float) : readFloat? (Layout.plain x).toList = some x := by
  rcases Layout.plain_cases x with ⟨htext, hx⟩ | ⟨negative, htext, hx⟩ | ⟨negative, n, htext, hx⟩
  · rw [htext, hx]
    rfl
  · rw [htext, hx, String.toList_ofList]
    cases negative <;> rfl
  · rw [htext, String.toList_ofList, readFloat?_numeral, ← hx]

/-- A numeral that is read as an integer has neither a fraction nor an exponent. -/
theorem decimal_of_digits? {n : Numeral} {m : Nat} (h : digits? n.text = some m) :
    n.decimal = ⟨m, 0⟩ := by
  unfold digits? at h
  split at h
  · rename_i hdigits
    have hmem {c : Char} (hc : c ∈ n.text) : c.isDigit = true := List.all_eq_true.mp hdigits.2 c hc
    have hfraction : n.fraction = [] := by
      by_contra hne
      refine absurd (hmem (c := '.') ?_) (by decide)
      rw [Numeral.text, Numeral.point, if_neg hne]
      simp
    have hexponent : n.exponent? = none := by
      rcases hexponent : n.exponent? with _ | ⟨negative, e⟩
      · rfl
      · refine absurd (hmem (c := 'e') ?_) (by decide)
        rw [Numeral.text, hexponent]
        simp [Numeral.power]
    have htext : n.text = n.whole := by
      simp [Numeral.text, Numeral.point, hfraction, hexponent, Numeral.power]
    cases h
    simp [Numeral.decimal, hfraction, hexponent, Numeral.exponent, htext]
  · cases h

/-- A number whose text is read as an integer is the sign of that integer and its size, rounded. -/
theorem eq_of_readInt64?_plain {x : Float} {i : Int64}
    (h : readInt64? (Layout.plain x).toList = some i) :
    ∃ negative m, x = withSign negative (Float.ofNat m) ∧
      i.toInt = if negative then -(m : Int) else m := by
  rcases Layout.plain_cases x with ⟨htext, -⟩ | ⟨negative, htext, -⟩ | ⟨negative, n, htext, hx⟩
  · rw [htext] at h
    cases h
  · rw [htext, String.toList_ofList] at h
    cases negative <;> cases h
  · rw [htext, String.toList_ofList] at h
    obtain ⟨j, hj, hi⟩ := Option.bind_eq_some_iff.mp h
    unfold signedInt? at hj
    rw [splitSign_numeral] at hj
    obtain ⟨k, hk, rfl⟩ := Option.map_eq_some_iff.mp hj
    obtain ⟨m, hm, hk⟩ := Option.bind_eq_some_iff.mp hk
    cases hk
    rw [decimal_of_digits? hm] at hx
    exact ⟨negative, m, hx, (Value.toInt_of_int64? hi).symm⟩

end Number

namespace Binary64

/-- An integer that is rounded to a number below `2 ^ 53` is below it. -/
theorem natAbs_lt_of_toRat_lt {i : Int} (hi : i.natAbs < 2 ^ 64)
    (h : |(ofFloat (Float.ofInt i)).toRat| < 2 ^ 53) : i.natAbs < 2 ^ 53 := by
  obtain ⟨top, htop⟩ : ∃ n : Int, n = 2 ^ 53 := ⟨_, rfl⟩
  have hcast : (top : ℚ) = 2 ^ 53 := by rw [htop, Int.cast_pow, Int.cast_ofNat]
  have hpositive : Scalar.integer? (Float.ofInt top) = some top := by
    rw [htop]
    decide +kernel
  have hnegative : Scalar.integer? (Float.ofInt (-top)) = some (-top) := by
    rw [htop]
    decide +kernel
  rw [← hcast] at h
  obtain ⟨hlower, hupper⟩ := abs_lt.mp h
  by_contra hlarge
  rcases (show top ≤ i ∨ i ≤ -top by omega) with hge | hle
  · rcases hge.eq_or_lt with rfl | hgt
    · exact hupper.ne (toRat_ofInt_of_integer? hpositive).2
    · exact hupper.not_ge ((toRat_ofInt_le_or_ge hpositive hi).1 hgt)
  · rw [← Int.cast_neg] at hlower
    rcases hle.eq_or_lt with rfl | hlt
    · exact hlower.ne' (toRat_ofInt_of_integer? hnegative).2
    · exact hlower.not_ge ((toRat_ofInt_le_or_ge hnegative hi).2 hlt)

/-- An integer below `2 ^ 53` is a machine number. -/
theorem integer?_ofInt {i : Int} (hi : i.natAbs < 2 ^ 53) : Scalar.integer? (Float.ofInt i) = some i := by
  rcases eq_or_ne i 0 with rfl | hne
  · exact integer?_of_toRat ofInt_zero.1 (ofInt_zero.2.trans Int.cast_zero.symm)
  · obtain ⟨M, E, hc, hvalue⟩ := exists_canonical (Int.natAbs_pos.mpr hne) hi
    rw [Nat.cast_natAbs, Int.cast_abs] at hvalue
    obtain ⟨hfinite, hround⟩ := toRat_ofInt hne hc (hvalue ▸ roundsTo_self M E)
    refine integer?_of_toRat hfinite ?_
    rw [hround, hvalue]
    exact_mod_cast Int.sign_mul_abs i

theorem withSign_ofNat {negative : Bool} {m : Nat} (hm : m ≠ 0) :
    Number.withSign negative (Float.ofNat m) = Float.ofInt (if negative then -(m : Int) else m) := by
  obtain ⟨k, rfl⟩ := Nat.exists_eq_succ_of_ne_zero hm
  cases negative <;> rfl

end Binary64

/-- Below `2 ^ 53` the integer that is read from the text of a number is that number. -/
theorem Number.integer?_of_readInt64?_plain {x : Float} {i : Int64}
    (h : readInt64? (Layout.plain x).toList = some i)
    (hx : |(Binary64.ofFloat x).toRat| < 2 ^ 53) : Scalar.integer? x = some i.toInt := by
  obtain ⟨negative, m, rfl, hi⟩ := eq_of_readInt64?_plain h
  rcases eq_or_ne m 0 with rfl | hm
  · rw [hi]
    cases negative <;> rfl
  · rw [Binary64.withSign_ofNat hm, ← hi] at hx ⊢
    refine Binary64.integer?_ofInt (Binary64.natAbs_lt_of_toRat_lt ?_ hx)
    have hlower := i.le_toInt
    have hupper := i.toInt_lt
    omega

end ApproxQuery
