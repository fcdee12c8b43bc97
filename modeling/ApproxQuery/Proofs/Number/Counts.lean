import ApproxQuery.Proofs.Number.Integers
import ApproxQuery.Sample.Rounding

/-!
# Counts as machine numbers

Counts below `2 ^ 53` are machine numbers. They are in order with larger counts, which are rounded;
a larger count divided by a smaller one is not below one; and rounding one at random gives the count
back.
-/

open Float.Model Float.Model.UnpackedFloat

namespace ApproxQuery.Binary64

variable {x y : Float} {m n : Nat}

theorem lt_iff (hx : Scalar.isFinite x = true) (hy : Scalar.isFinite y = true) :
    Scalar.lt x y = true ↔ (ofFloat x).toRat < (ofFloat y).toRat := by
  change (compare? x y == some .lt) = true ↔ _
  rw [compare?_eq_compare hx hy, beq_iff_eq, Option.some.injEq, compare_lt_iff_lt]

theorem le_iff (hx : Scalar.isFinite x = true) (hy : Scalar.isFinite y = true) :
    Scalar.le x y = true ↔ (ofFloat x).toRat ≤ (ofFloat y).toRat := by
  change (compare? x y).any Ordering.isLE = true ↔ _
  rw [compare?_eq_compare hx hy, Option.any_some, Ordering.isLE_iff_ne_gt,
    compare_gt_iff_gt, not_lt]

theorem eq_iff_toRat (hx : Scalar.isFinite x = true) (hy : Scalar.isFinite y = true) :
    Scalar.eq x y = true ↔ (ofFloat x).toRat = (ofFloat y).toRat := by
  change (compare? x y == some .eq) = true ↔ _
  rw [compare?_eq_compare hx hy, beq_iff_eq, Option.some.injEq, compare_eq_iff_eq]

theorem StandsFor.isFinite {q : ℚ} (h : StandsFor x q) : Scalar.isFinite x = true := by
  obtain ⟨M, E, hc, hx, -⟩ := h
  exact isFinite_iff.mpr (.inr ⟨_, _, _, _, hx⟩)

theorem StandsFor.eq {q : ℚ} (hx : StandsFor x q) (hy : StandsFor y q) : x = y := by
  have heq := hx.toRat_eq.trans hy.toRat_eq.symm
  obtain ⟨M, E, hc, hx, -⟩ := hx
  obtain ⟨N, F, hd, hy, -⟩ := hy
  exact eq_of_toRat_eq hx hy heq

theorem toRat_ofNat (hn : n < 2 ^ 53) : Scalar.isFinite (Scalar.ofNat n : Float) = true ∧
    (ofFloat (Scalar.ofNat n)).toRat = n := by
  rcases Nat.eq_zero_or_pos n with rfl | hpos
  · exact ⟨ofInt_zero.1, ofInt_zero.2.trans Nat.cast_zero.symm⟩
  · have hstands : StandsFor (Scalar.ofNat n) n := standsFor_ofNat hpos hn
    exact ⟨hstands.isFinite, hstands.toRat_eq⟩

theorem isFinite_ofNat (hn : n < 2 ^ 64) : Scalar.isFinite (Scalar.ofNat n : Float) = true :=
  isFinite_ofInt (i := n) hn

theorem le_toRat_ofNat (hm : m < 2 ^ 53) (hn : n < 2 ^ 64) (h : m ≤ n) :
    (m : ℚ) ≤ (ofFloat (Scalar.ofNat n)).toRat := by
  obtain ⟨hfinite, hvalue⟩ := toRat_ofNat hm
  rcases h.eq_or_lt with rfl | hlt
  · exact hvalue.ge
  · exact (toRat_ofInt_le_or_ge (j := n) (integer?_of_toRat hfinite hvalue) hn).1 (by exact_mod_cast hlt)

/-- A count is not above a larger one after rounding. -/
theorem not_lt_ofNat (hm : m < 2 ^ 53) (hn : n < 2 ^ 64) (h : m ≤ n) :
    Scalar.lt (Scalar.ofNat n : Float) (Scalar.ofNat m) = false := by
  obtain ⟨hfinite, hvalue⟩ := toRat_ofNat hm
  rw [Bool.eq_false_iff, ne_eq, lt_iff (isFinite_ofNat hn) hfinite, hvalue]
  exact not_lt.mpr (le_toRat_ofNat hm hn h)

/-- A positive count is not zero. -/
theorem eq_zero_ofNat (hpos : 0 < n) (hn : n < 2 ^ 64) :
    Scalar.eq (Scalar.ofNat n : Float) 0 = false := by
  have hone : (1 : ℚ) ≤ (ofFloat (Scalar.ofNat n)).toRat := by
    exact_mod_cast le_toRat_ofNat (m := 1) (by norm_num) hn hpos
  refine Bool.eq_false_iff.mpr fun h => ?_
  have heq := (eq_iff_toRat (isFinite_ofNat hn) ofInt_zero.1).mp h
  rw [heq, ofInt_zero.2] at hone
  exact absurd hone (by norm_num)

/-- The quotient of a count by a smaller one is not below one. -/
theorem one_le_div (hpos : 0 < m) (hm : m < 2 ^ 53) (hn : n < 2 ^ 64) (h : m ≤ n) :
    ∃ q, 1 ≤ q ∧ StandsFor (Scalar.ofNat n / Scalar.ofNat m) q := by
  have hstands : StandsFor (Scalar.ofNat m) m := standsFor_ofNat hpos hm
  have hle := le_toRat_ofNat hm hn h
  obtain ⟨M, E, hc, hround⟩ := exists_roundsTo (hpos.trans_le h) hn
  have hlarge : StandsFor (Scalar.ofNat n) (M * 2 ^ E) :=
    ⟨M, E, hc, unpack_ofNat (hpos.trans_le h) hc hround, rfl⟩
  rw [hlarge.toRat_eq] at hle
  have hmq : (0 : ℚ) < m := by exact_mod_cast hpos
  have hone : 1 ≤ (M * 2 ^ E : ℚ) / m := (one_le_div₀ hmq).mpr hle
  have hbound : (M * 2 ^ E : ℚ) / m < 2 ^ 128 := by
    have hM : (1 : ℚ) ≤ M := by exact_mod_cast hc.pos
    have hnq : (n : ℚ) < 2 ^ 64 := by exact_mod_cast hn
    have hdiv : (M * 2 ^ E : ℚ) / m ≤ M * 2 ^ E :=
      div_le_self (by positivity) (by exact_mod_cast hpos)
    have htwice : (M * 2 ^ E : ℚ) ≤ 2 * n := by nlinarith [hround.lower_two, two_zpow_pos E]
    linarith
  obtain ⟨N, F, hd, hquotient⟩ := exists_roundsTo_of_one_le hone hbound
  obtain ⟨A, B, ha, hunit⟩ := exists_canonical one_pos (by norm_num)
  rw [Nat.cast_one] at hunit
  have hge := hquotient.le_of_le ha hd (hunit ▸ hone)
  exact ⟨N * 2 ^ F, hunit ▸ hge, N, F, hd, hlarge.div hstands hd hquotient, rfl⟩

theorem standsFor_one : StandsFor (1 : Float) 1 := by
  have hone := standsFor_ofNat one_pos (by norm_num)
  rwa [Nat.cast_one] at hone

/-- A rate of one is not lowered by the quotient of a count by a smaller one. -/
theorem min_one_div (hpos : 0 < m) (hm : m < 2 ^ 53) (hn : n < 2 ^ 64) (h : m ≤ n) :
    Scalar.min (1 : Float) (Scalar.ofNat n / Scalar.ofNat m) = 1 := by
  obtain ⟨q, hq, hstands⟩ := one_le_div hpos hm hn h
  have hone := standsFor_one
  unfold Scalar.min
  split
  · rename_i hle
    rw [NumericScalar.isNaN_of_isFinite _ hone.isFinite, Bool.false_or,
      le_iff hstands.isFinite hone.isFinite, hstands.toRat_eq, hone.toRat_eq] at hle
    exact (le_antisymm hle hq ▸ hstands).eq hone
  · rfl

theorem ofNat_mul_one (hpos : 0 < n) (hn : n < 2 ^ 53) :
    (Scalar.ofNat n * 1 : Float) = Scalar.ofNat n := by
  have hstands : StandsFor (Scalar.ofNat n) n := standsFor_ofNat hpos hn
  obtain ⟨M, E, hc, hx, hvalue⟩ := id hstands
  refine StandsFor.eq ⟨M, E, hc, ?_, hvalue⟩ hstands
  refine StandsFor.mul hstands standsFor_one (by exact_mod_cast hpos) hc ?_
  rw [mul_one, ← hvalue]
  exact roundsTo_self M E

theorem unpack_sub_self (hx : Scalar.isFinite x = true) :
    (x - x).toModel.unpack = .zero .positive := by
  change (Float.Model.pack
    (UnpackedFloat.sub Format.binary64 x.toModel.unpack x.toModel.unpack)).unpack = _
  have hsub : UnpackedFloat.sub Format.binary64 x.toModel.unpack x.toModel.unpack =
      .zero .positive := by
    rcases isFinite_iff.mp hx with ⟨s, hs⟩ | ⟨s, m, e, h, hs⟩
    · rw [hs]
      cases s <;> rfl
    · rw [hs]
      simp only [UnpackedFloat.sub, sub_self, UnpackedFloat.normalize, Int.compare_eq_eq.mpr]
  rw [hsub]
  rfl

theorem sub_self_not_pos (hx : Scalar.isFinite x = true) : Scalar.lt 0 (x - x) = false := by
  have hunpack := unpack_sub_self hx
  have hzero := toRat_ofNat (n := 0) (by norm_num)
  have hlt := lt_iff hzero.1 (isFinite_iff.mpr (.inl ⟨_, hunpack⟩))
  rw [hzero.2, toRat_zero hunpack, Nat.cast_zero] at hlt
  exact Bool.eq_false_iff.mpr fun h => absurd (hlt.mp h) (lt_irrefl 0)

end Binary64

variable {N G : Type} [Scalar N] [Generator G]

/-- Nothing is left to chance in rounding an integer. -/
theorem probabilityRound_eq {x : N} {n : Nat} (hpos : Scalar.lt 0 x = true)
    (hfinite : Scalar.isFinite x = true) (hfloor : Scalar.floor? x = some (n : Int))
    (hrest : Scalar.lt 0 (x - Scalar.ofInt n) = false) (hn : n < 2 ^ 64) (gen : G) :
    (probabilityRound x gen).1 = n := by
  unfold probabilityRound
  simp only [hpos, hfinite, hfloor, hrest, Bool.and_self, if_true, Bool.false_eq_true, if_false,
    Int.toNat_natCast]
  exact min_eq_left (by rw [UInt64.size]; omega)

theorem Binary64.probabilityRound_ofNat {n : Nat} (hpos : 0 < n) (hn : n < 2 ^ 53) (gen : G) :
    (probabilityRound (Scalar.ofNat n : Float) gen).1 = n := by
  have hstands : StandsFor (Scalar.ofNat n) n := standsFor_ofNat hpos hn
  have hzero := toRat_ofNat (n := 0) (by norm_num)
  have hlt : Scalar.lt (Scalar.ofNat 0) (Scalar.ofNat n : Float) = true := by
    rw [lt_iff hzero.1 hstands.isFinite, hzero.2, hstands.toRat_eq]
    exact_mod_cast hpos
  exact probabilityRound_eq hlt hstands.isFinite (countsTo n hpos (by omega)).2
    (sub_self_not_pos hstands.isFinite) (by omega) gen

end ApproxQuery
