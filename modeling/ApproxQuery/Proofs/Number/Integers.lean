import ApproxQuery.Proofs.Number.Numeral

/-!
# Integers as machine numbers

A 64-bit integer is rounded to the nearest machine number, and one that is a machine number to
itself. Rounding does not cross a machine number, so it keeps an integer on its side of it.
-/

open Float.Model Float.Model.UnpackedFloat

namespace ApproxQuery.Binary64

section

variable {M N n q : Nat} {E F : Int} {r : ℚ}

theorem below_pos (M : Nat) (E : Int) : (0 : ℚ) < below M E := by
  unfold below
  split <;> norm_num

theorem roundsTo_down (hr : 0 ≤ r) (hle : 2 * r ≤ 2 ^ E) (hodd : q % 2 = 1 → 2 * r < 2 ^ E) :
    RoundsTo q E (q * 2 ^ E + r) := by
  have hcut := mul_pos (below_pos q E) (two_zpow_pos E)
  refine ⟨by linarith, by linarith, fun hq => ?_⟩
  have hlt := hodd hq
  constructor <;> linarith

theorem roundsTo_up (hq : 2 ^ 52 ≤ q) (hr : r < 2 ^ E) (hle : 2 ^ E ≤ 2 * r)
    (hodd : q % 2 = 0 → 2 ^ E < 2 * r) : RoundsTo (q + 1) E (q * 2 ^ E + r) := by
  have hbelow : below (q + 1) E = 2 := if_neg (by omega)
  constructor
  · rw [hbelow]
    push_cast
    linarith
  · push_cast
    linarith
  · intro hsucc
    have hlt := hodd (by omega)
    rw [hbelow]
    push_cast
    constructor <;> linarith

/-- The largest mantissa is followed by the smallest one of the next exponent. -/
theorem roundsTo_top (hlow : -1074 ≤ E) (hr : r < 2 ^ E) (hle : 2 ^ E ≤ 2 * r) :
    RoundsTo (2 ^ 52) (E + 1) ((2 ^ 53 - 1) * 2 ^ E + r) := by
  have hbelow : below (2 ^ 52) (E + 1) = 1 := if_pos ⟨rfl, by omega⟩
  constructor
  · rw [hbelow, two_zpow_add, zpow_one]
    push_cast
    linarith
  · rw [two_zpow_add, zpow_one]
    push_cast
    linarith
  · intro hodd
    exact absurd hodd (by norm_num)

/-- Half way between two neighbours the even one is taken. -/
theorem exists_roundsTo_add (hq : 2 ^ 52 ≤ q) (hlt : q < 2 ^ 53) (hpos : 0 ≤ r) (hr : r < 2 ^ E)
    (hlow : -1074 ≤ E) (hhigh : E ≤ 970) :
    ∃ M F, Canonical M F ∧ RoundsTo M F (q * 2 ^ E + r) := by
  by_cases hdown : 2 * r ≤ 2 ^ E ∧ (q % 2 = 1 → 2 * r < 2 ^ E)
  · exact ⟨q, E, ⟨by omega, hlt, hlow, by omega, .inl hq⟩, roundsTo_down hpos hdown.1 hdown.2⟩
  · have hle : 2 ^ E ≤ 2 * r := by
      by_contra hgt
      exact hdown ⟨(not_le.mp hgt).le, fun _ => not_le.mp hgt⟩
    have heven (hq : q % 2 = 0) : 2 ^ E < 2 * r := by
      by_contra hgt
      exact hdown ⟨not_lt.mp hgt, fun _ => by omega⟩
    by_cases htop : q + 1 < 2 ^ 53
    · exact ⟨q + 1, E, ⟨by omega, htop, hlow, by omega, .inl (by omega)⟩, roundsTo_up hq hr hle heven⟩
    · have hq : (q : ℚ) = 2 ^ 53 - 1 := by
        have hsucc : q + 1 = 2 ^ 53 := by omega
        have hsucc : (q + 1 : ℚ) = 2 ^ 53 := by exact_mod_cast hsucc
        linarith
      exact ⟨2 ^ 52, E + 1, ⟨by norm_num, by norm_num, by omega, by omega, .inl le_rfl⟩,
        hq ▸ roundsTo_top hlow hr hle⟩

/-- What is neither below one nor too large is rounded to a machine number. -/
theorem exists_roundsTo_of_one_le {y : ℚ} (hone : 1 ≤ y) (hlt : y < 2 ^ 128) :
    ∃ M F, Canonical M F ∧ RoundsTo M F y := by
  have hy : 0 < y := by linarith
  obtain ⟨n, hle, hgt⟩ := exists_mem_Ico_zpow hy (by norm_num : (1 : ℚ) < 2)
  have hn : 0 < n + 1 := lt_of_two_zpow_lt (by rw [zpow_zero]; linarith)
  have hn' : n < (128 : ℕ) := lt_of_two_zpow_lt (by rw [zpow_natCast]; linarith)
  have hE := two_zpow_pos (n - 52)
  have hscale (k : Nat) : (2 : ℚ) ^ (n - 52 + k) = 2 ^ k * 2 ^ (n - 52) := by
    rw [two_zpow_add, zpow_natCast, mul_comm]
  have hlow : 2 ^ 52 ≤ y / 2 ^ (n - 52) := by
    rw [le_div_iff₀ hE, ← hscale]
    simpa using hle
  have hhigh : y / 2 ^ (n - 52) < 2 ^ 53 := by
    rw [div_lt_iff₀ hE, ← hscale, show n - 52 + (53 : ℕ) = n + 1 by omega]
    exact hgt
  have hfloor := Nat.floor_le (a := y / 2 ^ (n - 52)) (by positivity)
  have hnext := Nat.lt_floor_add_one (y / 2 ^ (n - 52))
  rw [le_div_iff₀ hE] at hfloor
  rw [div_lt_iff₀ hE] at hnext
  obtain ⟨M, F, hc, hround⟩ := exists_roundsTo_add (q := ⌊y / 2 ^ (n - 52)⌋₊)
    (r := y - ⌊y / 2 ^ (n - 52)⌋₊ * 2 ^ (n - 52)) (E := n - 52)
    (Nat.le_floor (by exact_mod_cast hlow))
    ((Nat.floor_lt (by positivity)).mpr (by exact_mod_cast hhigh)) (by linarith) (by linarith)
    (by omega) (by omega)
  rw [add_sub_cancel] at hround
  exact ⟨M, F, hc, hround⟩

theorem exists_roundsTo (hpos : 0 < n) (hlt : n < 2 ^ 64) : ∃ M E, Canonical M E ∧ RoundsTo M E n :=
  exists_roundsTo_of_one_le (by exact_mod_cast hpos)
    (by exact_mod_cast hlt.trans (Nat.pow_lt_pow_right (by norm_num) (by norm_num)))

theorem Canonical.of_lt (hM : Canonical M E) (hN : Canonical N F) (h : E < F) :
    (M : ℚ) ≤ 2 ^ 53 - 1 ∧ (2 ^ 52 : ℚ) ≤ N ∧ (2 * 2 ^ E : ℚ) ≤ 2 ^ F := by
  have hM53 : (M + 1 : ℚ) ≤ 2 ^ 53 := by exact_mod_cast hM.lt
  have hN52 : (2 ^ 52 : ℚ) ≤ N := by
    exact_mod_cast hN.normal.resolve_right (by have := hM.low; omega)
  have hle : (2 : ℚ) ^ (1 + E) ≤ 2 ^ F := zpow_le_zpow_right₀ (by norm_num) (by omega)
  rw [two_zpow_add, zpow_one] at hle
  exact ⟨by linarith, hN52, hle⟩

/-- Of two exponents the larger one is the smaller one with zeros at the mantissa's end. -/
theorem zpow_eq_mul (h : F ≤ E) : (M * 2 ^ E : ℚ) = (M * 2 ^ (E - F).toNat : ℕ) * 2 ^ F := by
  have hexp : (2 : ℚ) ^ E = 2 ^ (E - F).toNat * 2 ^ F := by
    rw [← zpow_natCast, ← two_zpow_add]
    congr 1
    omega
  push_cast
  rw [hexp, mul_assoc]

/-- The next machine number after the smaller one is at most the larger one. -/
theorem Canonical.succ_le (hM : Canonical M E) (hN : Canonical N F)
    (h : (N * 2 ^ F : ℚ) < M * 2 ^ E) : (N + 1 : ℚ) * 2 ^ F ≤ M * 2 ^ E := by
  have hpos := two_zpow_pos F
  rcases le_or_gt F E with hle | hlt
  · rw [zpow_eq_mul hle] at h ⊢
    have hlt : N < M * 2 ^ (E - F).toNat := by exact_mod_cast lt_of_mul_lt_mul_right h hpos.le
    exact mul_le_mul_of_nonneg_right (by exact_mod_cast hlt) hpos.le
  · obtain ⟨hM53, hN52, hexp⟩ := hM.of_lt hN hlt
    nlinarith [two_zpow_pos E]

/-- The smaller machine number is at most the one before the larger one. -/
theorem Canonical.le_pred (hM : Canonical M E) (hN : Canonical N F)
    (h : (M * 2 ^ E : ℚ) < N * 2 ^ F) : (2 * M : ℚ) * 2 ^ E ≤ (2 * N - 1) * 2 ^ F := by
  have hpos := two_zpow_pos F
  rcases le_or_gt F E with hle | hlt
  · have heq := zpow_eq_mul (M := M) hle
    rw [heq] at h
    have hlt : M * 2 ^ (E - F).toNat + 1 ≤ N := by exact_mod_cast lt_of_mul_lt_mul_right h hpos.le
    have hlt : ((M * 2 ^ (E - F).toNat : ℕ) + 1 : ℚ) ≤ N := by exact_mod_cast hlt
    nlinarith
  · obtain ⟨hM53, hN52, hexp⟩ := hM.of_lt hN hlt
    nlinarith [two_zpow_pos E]

theorem RoundsTo.le_of_le {y : ℚ} (hM : Canonical M E) (hN : Canonical N F) (h : RoundsTo N F y)
    (hle : (M * 2 ^ E : ℚ) ≤ y) : (M * 2 ^ E : ℚ) ≤ N * 2 ^ F := by
  by_contra hgt
  have hsucc := hM.succ_le hN (not_le.mp hgt)
  linarith [h.upper, two_zpow_pos F]

theorem RoundsTo.le_of_gt {y : ℚ} (hM : Canonical M E) (hN : Canonical N F) (h : RoundsTo N F y)
    (hgt : y < M * 2 ^ E) : (N * 2 ^ F : ℚ) ≤ M * 2 ^ E := by
  by_contra hlt
  have hpred := hM.le_pred hN (not_le.mp hlt)
  linarith [h.lower_two]

end

variable {x y : Float} {i j : Int} {M : Nat} {E : Int}

theorem unpack_ofNat {n : Nat} (hn : 0 < n) (hc : Canonical M E) (h : RoundsTo M E n) :
    (Float.ofNat n).toModel.unpack = .finite .positive M E hc.pos :=
  ofDecimal_eq (e := 0) hc hn (by simpa using h)

theorem isFinite_iff : Scalar.isFinite x = true ↔
    (∃ s, x.toModel.unpack = .zero s) ∨ ∃ s m e h, x.toModel.unpack = .finite s m e h := by
  change x.toModel.unpack.isFinite = true ↔ _
  cases x.toModel.unpack with
  | notANumber => exact iff_of_false (by decide) (by simp)
  | infinity s => exact iff_of_false (by cases s <;> decide) (by simp)
  | zero s => exact iff_of_true rfl (.inl ⟨s, rfl⟩)
  | finite s m e h => exact iff_of_true rfl (.inr ⟨s, m, e, h, rfl⟩)

theorem toRat_zero {s : Sign} (hx : x.toModel.unpack = .zero s) : (ofFloat x).toRat = 0 := by
  rw [ofFloat_of_zero hx, toRat, signed_eq]
  simp

theorem toRat_positive {m : Nat} {e : Int} {h : 0 < m}
    (hx : x.toModel.unpack = .finite .positive m e h) : (ofFloat x).toRat = m * 2 ^ e := by
  rw [ofFloat_of_unpack hx, toRat, signed_eq]
  simp [isNegative]

theorem toRat_negative {m : Nat} {e : Int} {h : 0 < m}
    (hx : x.toModel.unpack = .finite .negative m e h) : (ofFloat x).toRat = -(m * 2 ^ e) := by
  rw [ofFloat_of_unpack hx, toRat, signed_eq]
  simp [isNegative]

theorem toRat_ofInt (hi : i ≠ 0) (hc : Canonical M E) (h : RoundsTo M E |(i : ℚ)|) :
    Scalar.isFinite (Float.ofInt i) = true ∧
      (ofFloat (Float.ofInt i)).toRat = (i.sign : ℚ) * (M * 2 ^ E) := by
  cases i with
  | ofNat n =>
    have hn : 0 < n := Nat.pos_of_ne_zero fun h0 => hi (congrArg Int.ofNat h0)
    have hunpack := unpack_ofNat hn hc (by simpa using h)
    have hofInt : Float.ofInt (.ofNat n) = Float.ofNat n := rfl
    refine ⟨isFinite_iff.mpr (.inr ⟨_, _, _, _, hofInt ▸ hunpack⟩), ?_⟩
    rw [hofInt, toRat_positive hunpack, Int.sign_eq_one_of_pos (by simpa using hn)]
    simp
  | negSucc n =>
    have habs : |((Int.negSucc n : Int) : ℚ)| = (n.succ : ℕ) := by
      rw [Int.cast_negSucc, abs_neg, Nat.abs_cast]
    have hunpack := Layout.unpack_neg hc (unpack_ofNat n.succ_pos hc (habs ▸ h))
    have hofInt : Float.ofInt (.negSucc n) = -Float.ofNat n.succ := rfl
    refine ⟨isFinite_iff.mpr (.inr ⟨_, _, _, _, hofInt ▸ hunpack⟩), ?_⟩
    rw [hofInt, toRat_negative hunpack]
    simp

theorem ofInt_zero : Scalar.isFinite (Float.ofInt 0) = true ∧ (ofFloat (Float.ofInt 0)).toRat = 0 := by
  have hbits : (Float.ofInt 0).toModel.toBits = 0 := by decide +kernel
  have hunpack : (Float.ofInt 0).toModel.unpack = .zero .positive := by
    rw [Float.Model.unpack, hbits]
    rfl
  refine ⟨isFinite_iff.mpr (.inl ⟨_, hunpack⟩), ?_⟩
  exact toRat_zero hunpack

theorem isFinite_ofInt (h : i.natAbs < 2 ^ 64) : Scalar.isFinite (Float.ofInt i) = true := by
  rcases eq_or_ne i 0 with rfl | hi
  · exact ofInt_zero.1
  · obtain ⟨M, E, hc, hround⟩ := exists_roundsTo (Int.natAbs_pos.mpr hi) h
    exact (toRat_ofInt hi hc (by simpa [Nat.cast_natAbs] using hround)).1

/-- An integer that a machine number is equal to has the size of a canonical one. -/
theorem exists_canonical_of_integer? (hx : Scalar.integer? x = some i) (hi : i ≠ 0) :
    ∃ M E, Canonical M E ∧ (M * 2 ^ E : ℚ) = |(i : ℚ)| := by
  obtain ⟨⟨s, m, e, h, hunpack⟩, hvalue, -⟩ := (unpack_of_integer? hx).resolve_left fun h => hi h.2
  have hc := canonical_of_unpack hunpack
  refine ⟨m, e, hc, ?_⟩
  have hm : (0 : ℚ) < m * 2 ^ e := mul_pos (by exact_mod_cast h) (two_zpow_pos e)
  rw [← hvalue]
  cases s with
  | negative => rw [toRat_negative hunpack, abs_neg, abs_of_pos hm]
  | positive => rw [toRat_positive hunpack, abs_of_pos hm]

/-- An integer that is a machine number is rounded to itself. -/
theorem toRat_ofInt_of_integer? (hx : Scalar.integer? x = some i) :
    Scalar.isFinite (Float.ofInt i) = true ∧ (ofFloat (Float.ofInt i)).toRat = i := by
  rcases eq_or_ne i 0 with rfl | hi
  · exact ⟨ofInt_zero.1, by rw [ofInt_zero.2, Int.cast_zero]⟩
  · obtain ⟨M, E, hc, hvalue⟩ := exists_canonical_of_integer? hx hi
    obtain ⟨hfinite, hround⟩ := toRat_ofInt hi hc (hvalue ▸ roundsTo_self M E)
    refine ⟨hfinite, ?_⟩
    rw [hround, hvalue]
    exact_mod_cast Int.sign_mul_abs i

theorem integer?_of_toRat (hfinite : Scalar.isFinite x = true) (h : (ofFloat x).toRat = i) :
    Scalar.integer? x = some i := by
  change (ofFloat x).integer? = some i
  rcases isFinite_iff.mp hfinite with ⟨s, hs⟩ | ⟨s, m, e, k, hs⟩
  · rw [ofFloat_of_zero hs] at h ⊢
    exact integer?_finite.mpr h
  · rw [ofFloat_of_unpack hs] at h ⊢
    exact integer?_finite.mpr h

/-- Rounding does not take a size across that of a machine number. -/
theorem RoundsTo.le_or_ge_abs {N : Nat} {F : Int} {y : ℚ} (h : RoundsTo N F y) (hN : Canonical N F)
    (hx : Scalar.integer? x = some i) (hi : i ≠ 0) :
    (|(i : ℚ)| < y → |(i : ℚ)| ≤ N * 2 ^ F) ∧ (y < |(i : ℚ)| → (N * 2 ^ F : ℚ) ≤ |(i : ℚ)|) := by
  obtain ⟨M, E, hM, hvalue⟩ := exists_canonical_of_integer? hx hi
  rw [← hvalue]
  exact ⟨fun hlt => h.le_of_le hM hN hlt.le, h.le_of_gt hM hN⟩

/-- Rounding an integer does not take it across a machine number. -/
theorem toRat_ofInt_le_or_ge (hx : Scalar.integer? x = some i) (hj : j.natAbs < 2 ^ 64) :
    (i < j → (i : ℚ) ≤ (ofFloat (Float.ofInt j)).toRat) ∧
      (j < i → (ofFloat (Float.ofInt j)).toRat ≤ i) := by
  rcases eq_or_ne j 0 with rfl | hj0
  · rw [ofInt_zero.2]
    exact ⟨fun h => by exact_mod_cast h.le, fun h => by exact_mod_cast h.le⟩
  obtain ⟨N, F, hN, hround⟩ := exists_roundsTo (Int.natAbs_pos.mpr hj0) hj
  rw [Nat.cast_natAbs, Int.cast_abs] at hround
  rw [(toRat_ofInt hj0 hN hround).2, ← Int.cast_lt (R := ℚ), ← Int.cast_lt (R := ℚ)]
  have hpos : (0 : ℚ) < N * 2 ^ F := mul_pos (by exact_mod_cast hN.pos) (two_zpow_pos F)
  -- On one side of zero the sizes are compared, and otherwise the signs are enough.
  rcases lt_or_gt_of_ne hj0 with hj0 | hj0
  · have hjq : (j : ℚ) < 0 := by exact_mod_cast hj0
    rw [abs_of_neg hjq] at hround
    rw [Int.sign_eq_neg_one_of_neg hj0, Int.cast_neg, Int.cast_one, neg_one_mul]
    rcases le_or_gt 0 i with hi0 | hi0
    · have hiq : (0 : ℚ) ≤ i := by exact_mod_cast hi0
      exact ⟨fun h => by linarith, fun _ => by linarith⟩
    · have hiq : (i : ℚ) < 0 := by exact_mod_cast hi0
      obtain ⟨hbelow, habove⟩ := hround.le_or_ge_abs hN hx hi0.ne
      rw [abs_of_neg hiq] at hbelow habove
      exact ⟨fun h => le_neg_of_le_neg (habove (neg_lt_neg h)),
        fun h => neg_le_of_neg_le (hbelow (neg_lt_neg h))⟩
  · have hjq : (0 : ℚ) < j := by exact_mod_cast hj0
    rw [abs_of_pos hjq] at hround
    rw [Int.sign_eq_one_of_pos hj0, Int.cast_one, one_mul]
    rcases le_or_gt i 0 with hi0 | hi0
    · have hiq : (i : ℚ) ≤ 0 := by exact_mod_cast hi0
      exact ⟨fun _ => by linarith, fun h => by linarith⟩
    · have hiq : (0 : ℚ) < i := by exact_mod_cast hi0
      obtain ⟨hbelow, habove⟩ := hround.le_or_ge_abs hN hx hi0.ne'
      rw [abs_of_pos hiq] at hbelow habove
      exact ⟨hbelow, habove⟩

theorem compare_then_eq {m n : Nat} {e f : Int} (hm : Canonical m e) (hn : Canonical n f) :
    (compare e f).then (compare m n) = compare (m * 2 ^ e : ℚ) (n * 2 ^ f) := by
  have hlarger {m n : Nat} {e f : Int} (hm : Canonical m e) (hn : Canonical n f) (h : e < f) :
      (m * 2 ^ e : ℚ) < n * 2 ^ f := by
    obtain ⟨hm53, hn52, hexp⟩ := hm.of_lt hn h
    nlinarith [two_zpow_pos e]
  rcases lt_trichotomy e f with h | rfl | h
  · rw [Int.compare_eq_lt.mpr h, Ordering.lt_then, compare_lt_iff_lt.mpr (hlarger hm hn h)]
  · have hpos := two_zpow_pos e
    rw [Int.compare_eq_eq.mpr rfl, Ordering.eq_then]
    rcases lt_trichotomy m n with h | rfl | h
    · rw [Nat.compare_eq_lt.mpr h, compare_lt_iff_lt.mpr]
      exact mul_lt_mul_of_pos_right (by exact_mod_cast h) hpos
    · rw [Nat.compare_eq_eq.mpr rfl, compare_eq_iff_eq.mpr rfl]
    · rw [Nat.compare_eq_gt.mpr h, compare_gt_iff_gt.mpr]
      exact mul_lt_mul_of_pos_right (by exact_mod_cast h) hpos
  · rw [Int.compare_eq_gt.mpr h, Ordering.gt_then, compare_gt_iff_gt.mpr (hlarger hn hm h)]

theorem compare_neg_neg (p q : ℚ) : compare (-p) (-q) = (compare p q).swap := by
  rcases lt_trichotomy p q with h | rfl | h
  · rw [compare_lt_iff_lt.mpr h, compare_gt_iff_gt.mpr (neg_lt_neg h)]
    rfl
  · rw [compare_eq_iff_eq.mpr rfl, compare_eq_iff_eq.mpr rfl]
    rfl
  · rw [compare_gt_iff_gt.mpr h, compare_lt_iff_lt.mpr (neg_lt_neg h)]
    rfl

/-- Finite machine numbers are compared as the numbers that they stand for. -/
theorem compare?_eq_compare (hx : Scalar.isFinite x = true) (hy : Scalar.isFinite y = true) :
    compare? x y = some (compare (ofFloat x).toRat (ofFloat y).toRat) := by
  have hpos {m : Nat} {e : Int} (h : 0 < m) : (0 : ℚ) < m * 2 ^ e :=
    mul_pos (by exact_mod_cast h) (two_zpow_pos e)
  rw [compare?_eq]
  rcases isFinite_iff.mp hx with ⟨s, hs⟩ | ⟨s, m, e, h, hs⟩
  · rcases isFinite_iff.mp hy with ⟨t, ht⟩ | ⟨t, n, f, k, ht⟩
    · rw [hs, ht, toRat_zero hs, toRat_zero ht, compare_eq_iff_eq.mpr rfl]
      rfl
    · rw [hs, ht, toRat_zero hs]
      cases t with
      | negative =>
        rw [toRat_negative ht, compare_gt_iff_gt.mpr (neg_neg_of_pos (hpos k))]
        rfl
      | positive =>
        rw [toRat_positive ht, compare_lt_iff_lt.mpr (hpos k)]
        rfl
  · rcases isFinite_iff.mp hy with ⟨t, ht⟩ | ⟨t, n, f, k, ht⟩
    · rw [hs, ht, toRat_zero ht]
      cases s with
      | negative =>
        rw [toRat_negative hs, compare_lt_iff_lt.mpr (neg_neg_of_pos (hpos h))]
        rfl
      | positive =>
        rw [toRat_positive hs, compare_gt_iff_gt.mpr (hpos h)]
        rfl
    · rw [hs, ht]
      have hm := hpos (e := e) h
      have hn := hpos (e := f) k
      have hsizes := compare_then_eq (canonical_of_unpack hs) (canonical_of_unpack ht)
      cases s with
      | negative =>
        cases t with
        | negative =>
          rw [toRat_negative hs, toRat_negative ht, compare_neg_neg, ← hsizes]
          rfl
        | positive =>
          rw [toRat_negative hs, toRat_positive ht, compare_lt_iff_lt.mpr (by linarith)]
          rfl
      | positive =>
        cases t with
        | negative =>
          rw [toRat_positive hs, toRat_negative ht, compare_gt_iff_gt.mpr (by linarith)]
          rfl
        | positive =>
          rw [toRat_positive hs, toRat_positive ht, ← hsizes]
          rfl

/-- Of two integers one of which is a machine number, both rounded, the order is kept or lost. -/
theorem compare?_ofInt (hx : Scalar.integer? x = some i) (hj : j.natAbs < 2 ^ 64) :
    compare? (Float.ofInt i) (Float.ofInt j) = some (compare i j) ∨
      compare? (Float.ofInt i) (Float.ofInt j) = some .eq := by
  obtain ⟨hfinite, hvalue⟩ := toRat_ofInt_of_integer? hx
  obtain ⟨hbelow, habove⟩ := toRat_ofInt_le_or_ge hx hj
  rw [compare?_eq_compare hfinite (isFinite_ofInt hj), hvalue]
  rcases lt_trichotomy i j with h | rfl | h
  · rw [Int.compare_eq_lt.mpr h]
    exact (hbelow h).lt_or_eq.imp (fun hlt => congrArg some (compare_lt_iff_lt.mpr hlt))
      fun heq => congrArg some (compare_eq_iff_eq.mpr heq)
  · rw [hvalue]
    exact .inr (congrArg some (compare_eq_iff_eq.mpr rfl))
  · rw [Int.compare_eq_gt.mpr h]
    exact (habove h).lt_or_eq.imp (fun hlt => congrArg some (compare_gt_iff_gt.mpr hlt))
      fun heq => congrArg some (compare_eq_iff_eq.mpr heq.symm)

end ApproxQuery.Binary64
