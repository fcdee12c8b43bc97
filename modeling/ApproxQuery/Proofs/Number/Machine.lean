import ApproxQuery.Proofs.Number.Exact
import ApproxQuery.Proofs.Number.Rounding

/-!
# Machine numbers

A machine number is known by what it stands for. The integers below `2 ^ 53` are machine numbers, so
codes and counts of that size are exact.
-/

open Float.Model Float.Model.UnpackedFloat

namespace ApproxQuery.Binary64

/-- What 64 bits with these fields stand for. -/
def unpackFields (s : Sign) (ev : BitVec 11) (mv : BitVec 52) : UnpackedFloat :=
  if ev = -1#11 then if mv = 0#52 then .infinity s else .notANumber
  else if ev = 0#11 then
    if h : mv = 0#52 then .zero s
    else .finite s mv.toNat (-1074) (Nat.pos_of_ne_zero fun h0 => h (BitVec.eq_of_toNat_eq h0))
  else .finite s (2 ^ 52 + mv.toNat) (ev.toNat - 1075) (by omega)

theorem unpack_eq (b : BitVec Format.binary64.numBits) :
    UnpackedFloat.unpack Format.binary64 b =
      unpackFields (.ofBitVec (unpackSign b)) (unpackExponent b) (unpackMantissa b) := by
  have hvalue : (1#1 ++ unpackMantissa b).toNat = 2 ^ 52 + (unpackMantissa b).toNat := by
    rw [BitVec.toNat_append, ← Nat.shiftLeft_add_eq_or_of_lt (BitVec.isLt _)]
    rfl
  simp only [UnpackedFloat.unpack, unpackFields]
  split_ifs with _ _ hzero
  · rfl
  · rfl
  · rfl
  · congr 1
    rw [hzero]
    decide
  · congr 1

theorem unpack_packComponents (s : Sign) (ev : BitVec 11) (mv : BitVec 52) :
    UnpackedFloat.unpack Format.binary64 (packComponents Format.binary64 s ev mv) =
      unpackFields s ev mv := by
  rw [unpack_eq]
  simp only [unpackMantissa_packComponents, unpackExponent_packComponents,
    unpackSign_packComponents, Sign.ofBitVec_toBitVec]

theorem canonical_of_unpackFields {s t : Sign} {ev : BitVec 11} {mv : BitVec 52} {m : Nat} {e : Int}
    {h : 0 < m} (hx : unpackFields s ev mv = .finite t m e h) : Canonical m e := by
  have hm := mv.isLt
  have he := ev.isLt
  unfold unpackFields at hx
  split at hx
  · split at hx <;> cases hx
  · rename_i hspecial
    split at hx
    · split at hx
      · cases hx
      · cases hx
        exact ⟨h, lt_trans hm (by norm_num), by decide, by decide, .inr rfl⟩
    · rename_i hnormal
      cases hx
      have hlow : ev.toNat ≠ 0 := fun h0 => hnormal (BitVec.eq_of_toNat_eq h0)
      have hhigh : ev.toNat ≠ 2047 := fun h0 => hspecial (BitVec.eq_of_toNat_eq h0)
      exact ⟨h, by omega, by omega, by omega, .inl (by omega)⟩

theorem canonical_of_unpack {x : Float} {s : Sign} {m : Nat} {e : Int} {h : 0 < m}
    (hx : x.toModel.unpack = .finite s m e h) : Canonical m e := by
  rw [Float.Model.unpack, unpack_eq] at hx
  exact canonical_of_unpackFields hx

/-- The leading bit of a normal mantissa is not stored, its exponent is stored with a bias. -/
theorem unpackFields_normal {s : Sign} {M : Nat} {E : Int} (hc : Canonical M E) (hM : 2 ^ 52 ≤ M) :
    unpackFields s (BitVec.ofNat 11 (E + 1075).toNat) (BitVec.ofNat 52 M) =
      .finite s M E hc.pos := by
  have hlt := hc.lt
  have hlow := hc.low
  have hhigh := hc.high
  have hmv : (BitVec.ofNat 52 M).toNat = M - 2 ^ 52 := by
    rw [BitVec.toNat_ofNat]
    omega
  have hev : (BitVec.ofNat 11 (E + 1075).toNat).toNat = (E + 1075).toNat := by
    rw [BitVec.toNat_ofNat]
    omega
  have hne {n : BitVec 11} (hn : n.toNat = 0 ∨ n.toNat = 2047) :
      BitVec.ofNat 11 (E + 1075).toNat ≠ n := by
    rintro rfl
    omega
  rw [unpackFields, if_neg (hne (.inr rfl)), if_neg (hne (.inl rfl))]
  congr 1
  · omega
  · omega

theorem unpackFields_subnormal {s : Sign} {M : Nat} (hpos : 0 < M) (hM : M < 2 ^ 52) :
    unpackFields s 0#11 (BitVec.ofNat 52 M) = .finite s M (-1074) hpos := by
  have hmv : (BitVec.ofNat 52 M).toNat = M := by
    rw [BitVec.toNat_ofNat]
    omega
  have hne : BitVec.ofNat 52 M ≠ 0#52 := by
    intro h
    have hzero := congrArg BitVec.toNat h
    rw [hmv] at hzero
    exact hpos.ne' hzero
  rw [unpackFields, if_neg (by decide), if_pos rfl, dif_neg hne]
  congr 1

theorem unpack_pack_finite {s : Sign} {M : Nat} {E : Int} (hc : Canonical M E) :
    (Float.Model.pack (.finite s M E hc.pos)).unpack = .finite s M E hc.pos := by
  have hlow := hc.low
  have hhigh := hc.high
  have hbiased : (E + (Format.binary64.exponentBias : Nat) + (52 : Nat)).toNat = (E + 1075).toNat := by
    change (E + 1023 + 52).toNat = _
    omega
  unfold Float.Model.pack Float.Model.unpack
  simp only [UnpackedFloat.pack, hbiased]
  rw [if_neg (by omega)]
  split
  · rename_i hbits
    change M.log2 + 1 = 53 at hbits
    rw [unpack_packComponents]
    exact unpackFields_normal hc ((Nat.le_log2 hc.pos.ne').mp (by omega))
  · rename_i hbits
    change M.log2 + 1 ≠ 53 at hbits
    have hM : M < 2 ^ 52 := by
      by_contra hge
      have hlog := (Nat.log2_eq_iff hc.pos.ne').mpr ⟨not_lt.mp hge, hc.lt⟩
      omega
    obtain rfl : E = -1074 := hc.normal.resolve_left (by omega)
    rw [unpack_packComponents]
    exact unpackFields_subnormal hc.pos hM

theorem unpack_pack_ne_notANumber {u : UnpackedFloat} (hu : u ≠ .notANumber) :
    (Float.Model.pack u).unpack ≠ .notANumber := by
  have hfields {s : Sign} {ev : BitVec 11} {mv : BitVec 52} (h : ev ≠ -1#11 ∨ mv = 0#52) :
      UnpackedFloat.unpack Format.binary64 (packComponents Format.binary64 s ev mv) ≠
        .notANumber := by
    rw [unpack_packComponents, unpackFields]
    split_ifs <;> simp_all
  cases u with
  | notANumber => exact absurd rfl hu
  | infinity s => exact hfields (.inr rfl)
  | zero s => exact hfields (.inr rfl)
  | finite s m e h =>
    unfold Float.Model.pack Float.Model.unpack
    simp only [UnpackedFloat.pack]
    split_ifs with hlarge
    · exact hfields (.inr rfl)
    · refine hfields (.inl fun hmax => ?_)
      have hmax := congrArg BitVec.toNat hmax
      rw [BitVec.toNat_ofNat, Nat.mod_eq_of_lt (by omega)] at hmax
      simp at hmax
      omega
    · exact hfields (.inl (by decide))

theorem eq_of_unpack_eq {x y : Float} (h : x.toModel.unpack = y.toModel.unpack) : x = y := by
  have hbits := (UnpackedFloat.unpack_inj_of_valid x.toModel.valid y.toModel.valid).mp h
  exact Float.toBits_inj.mp (UInt64.toBitVec_inj.mp hbits)

/-- Comparing in the other order gives the other answer. -/
theorem compare_swap (u v : UnpackedFloat) : v.compare u = (u.compare v).map Ordering.swap := by
  have hpair (e₁ e₂ : Int) (m₁ m₂ : Nat) :
      (compare e₂ e₁).then (compare m₂ m₁) = ((compare e₁ e₂).then (compare m₁ m₂)).swap := by
    rw [Ordering.swap_then, ← Int.compare_swap, Nat.compare_swap]
  cases u with
  | notANumber => cases v <;> rfl
  | infinity s => cases v with
    | infinity t => cases s <;> cases t <;> rfl
    | _ => cases s <;> rfl
  | zero s => cases v with
    | infinity t => cases t <;> rfl
    | finite t m e h => cases t <;> rfl
    | _ => rfl
  | finite s m e h => cases v with
    | infinity t => cases t <;> rfl
    | zero t => cases s <;> rfl
    | notANumber => rfl
    | finite t n f k =>
      cases s <;> cases t
      · exact congrArg some (congrArg Ordering.swap (hpair e f m n))
      · rfl
      · rfl
      · exact congrArg some (hpair e f m n)

theorem compare?_eq (a b : Float) : compare? a b = a.toModel.unpack.compare b.toModel.unpack := by
  have hlt {x y : Float} : x < y ↔ x.toModel.unpack.compare y.toModel.unpack = some .lt :=
    decide_eq_true_iff.trans beq_iff_eq
  have heq {x y : Float} : (x == y) = true ↔ x.toModel.unpack.compare y.toModel.unpack = some .eq := by
    change (x.toModel.unpack.compare y.toModel.unpack == some .eq) = true ↔ _
    exact beq_iff_eq
  unfold compare?
  simp only [hlt, heq, compare_swap a.toModel.unpack b.toModel.unpack]
  cases a.toModel.unpack.compare b.toModel.unpack with
  | none => rfl
  | some o => cases o <;> rfl

theorem isNaN_eq_false {x : Float} : Scalar.isNaN x = false ↔ x.toModel.unpack ≠ .notANumber := by
  change (compare? x x).isNone = false ↔ _
  rw [compare?_eq]
  cases x.toModel.unpack with
  | notANumber => exact iff_of_false (by decide) fun h => h rfl
  | infinity s => cases s <;> exact iff_of_true (by decide) nofun
  | zero s => exact iff_of_true rfl nofun
  | finite s m e h => cases s <;> exact iff_of_true rfl nofun

/-- The number that mantissa and exponent stand for. -/
def toRat : Binary64 → ℚ
  | finite negative m e => signed negative m * 2 ^ e
  | _ => 0

theorem signed_eq (negative : Bool) (m : Nat) :
    (signed negative m : ℚ) = (if negative then -1 else 1) * m := by
  cases negative <;> simp [signed]

theorem signed_mul (negative : Bool) (m n : Nat) : signed negative (m * n) = signed negative m * n := by
  cases negative <;> simp [signed]

theorem zpow_of_nonneg {e : Int} (h : 0 ≤ e) : (2 : ℚ) ^ e = 2 ^ e.toNat := by
  rw [← zpow_natCast, Int.toNat_of_nonneg h]

theorem zpow_of_neg {e : Int} (h : ¬ 0 ≤ e) : (2 : ℚ) ^ e = 1 / 2 ^ (-e).toNat := by
  rw [← zpow_natCast, Int.toNat_of_nonneg (by omega), zpow_neg, one_div, inv_inv]

theorem integer?_finite {negative : Bool} {m : Nat} {e i : Int} :
    (finite negative m e).integer? = some i ↔ (finite negative m e).toRat = i := by
  unfold integer? toRat
  by_cases he : 0 ≤ e
  · simp only [if_pos he, zpow_of_nonneg he, Option.some.injEq]
    constructor
    · rintro rfl
      push_cast [Nat.pow_eq]
      rfl
    · intro h
      have h : ((signed negative m * Nat.pow 2 e.toNat : ℤ) : ℚ) = i := by
        push_cast [Nat.pow_eq]
        exact h
      exact_mod_cast h
  · have hpos : (0 : ℚ) < 2 ^ (-e).toNat := by positivity
    simp only [if_neg he, zpow_of_neg he, Nat.pow_eq]
    rw [mul_one_div, div_eq_iff hpos.ne']
    constructor
    · intro h
      split_ifs at h with hmod
      cases h
      obtain ⟨n, rfl⟩ := Nat.dvd_of_mod_eq_zero hmod
      rw [Nat.mul_div_cancel_left _ (Nat.two_pow_pos _), signed_eq, signed_eq]
      push_cast
      ring
    · intro h
      have h : signed negative m = i * 2 ^ (-e).toNat := by exact_mod_cast h
      obtain ⟨n, rfl⟩ : 2 ^ (-e).toNat ∣ m := by
        have hdvd : ((2 ^ (-e).toNat : ℕ) : ℤ) ∣ signed negative m := ⟨i, by rw [h]; push_cast; ring⟩
        cases negative
        · exact Int.natCast_dvd_natCast.mp hdvd
        · exact Int.natCast_dvd_natCast.mp (Int.dvd_neg.mp hdvd)
      rw [if_pos (Nat.mul_mod_right _ _), Nat.mul_div_cancel_left _ (Nat.two_pow_pos _)]
      rw [mul_comm, signed_mul] at h
      have hne : ((2 ^ (-e).toNat : ℕ) : ℤ) ≠ 0 := by positivity
      exact congrArg some (Int.eq_of_mul_eq_mul_right hne (by rw [h]; push_cast; rfl))

theorem floor?_finite (negative : Bool) (m : Nat) (e : Int) :
    (finite negative m e).floor? = some ⌊(finite negative m e).toRat⌋ := by
  simp only [floor?, toRat]
  by_cases he : 0 ≤ e
  · have hcast : (signed negative m : ℚ) * 2 ^ e = (signed negative m * Nat.pow 2 e.toNat : ℤ) := by
      rw [zpow_of_nonneg he]
      push_cast [Nat.pow_eq]
      rfl
    rw [if_pos he, hcast, Int.floor_intCast]
  · have hcast : (signed negative m : ℚ) * 2 ^ e = (signed negative m : ℚ) / (Nat.pow 2 (-e).toNat : ℕ) := by
      rw [zpow_of_neg he, mul_one_div]
      push_cast [Nat.pow_eq]
      rfl
    rw [if_neg he, hcast, Rat.floor_intCast_div_natCast]

def isNegative : Sign → Bool
  | .negative => true
  | .positive => false

theorem ofFloat_of_unpack {x : Float} {s : Sign} {m : Nat} {e : Int} {h : 0 < m}
    (hx : x.toModel.unpack = .finite s m e h) : ofFloat x = finite (isNegative s) m e := by
  simp only [ofFloat, hx]
  cases s <;> rfl

theorem ofFloat_of_zero {x : Float} {s : Sign} (hx : x.toModel.unpack = .zero s) :
    ofFloat x = finite (isNegative s) 0 0 := by
  simp only [ofFloat, hx]
  cases s <;> rfl

theorem Canonical.eq_of_value_eq {M N : Nat} {E F : Int} (hM : Canonical M E) (hN : Canonical N F)
    (h : (M * 2 ^ E : ℚ) = N * 2 ^ F) : M = N ∧ E = F := by
  have hround := round_eq (s := .positive) hM hM.pos (roundsTo_self M E)
  rw [round_eq hN hM.pos (h ▸ roundsTo_self N F)] at hround
  injection hround with _ hmantissa hexponent
  exact ⟨hmantissa.symm, hexponent.symm⟩

theorem eq_of_toRat_eq {x y : Float} {s t : Sign} {m n : Nat} {e f : Int} {h : 0 < m} {k : 0 < n}
    (hx : x.toModel.unpack = .finite s m e h) (hy : y.toModel.unpack = .finite t n f k)
    (heq : (ofFloat x).toRat = (ofFloat y).toRat) : x = y := by
  apply eq_of_unpack_eq
  rw [ofFloat_of_unpack hx, ofFloat_of_unpack hy] at heq
  simp only [toRat, signed_eq] at heq
  have hm : (0 : ℚ) < m * 2 ^ e := mul_pos (by exact_mod_cast h) (two_zpow_pos e)
  have hn : (0 : ℚ) < n * 2 ^ f := mul_pos (by exact_mod_cast k) (two_zpow_pos f)
  have hsame : s = t ∧ (m * 2 ^ e : ℚ) = n * 2 ^ f := by
    cases s <;> cases t <;> simp only [isNegative, Bool.false_eq_true, if_true, if_false] at heq
    · exact ⟨rfl, by linarith⟩
    · linarith
    · linarith
    · exact ⟨rfl, by linarith⟩
  obtain ⟨rfl, hvalue⟩ := hsame
  obtain ⟨rfl, rfl⟩ := (canonical_of_unpack hx).eq_of_value_eq (canonical_of_unpack hy) hvalue
  rw [hx, hy]

theorem beq_zero_iff {x : Float} : (x == 0.0) = true ↔ ∃ s, x.toModel.unpack = .zero s := by
  have hbits : (0.0 : Float).toModel.toBits = 0 := by decide +kernel
  have hzero : (0.0 : Float).toModel.unpack = .zero .positive := by
    rw [Float.Model.unpack, hbits]
    rfl
  change (x.toModel.unpack.compare (0.0 : Float).toModel.unpack == some .eq) = true ↔ _
  rw [hzero, beq_iff_eq]
  cases x.toModel.unpack with
  | notANumber => exact iff_of_false nofun nofun
  | infinity s => cases s <;> exact iff_of_false nofun nofun
  | zero s => exact iff_of_true rfl ⟨s, rfl⟩
  | finite s m e h => cases s <;> exact iff_of_false nofun nofun

theorem integer?_zero {x : Float} {s : Sign} (hx : x.toModel.unpack = .zero s) :
    Scalar.integer? x = some 0 := by
  change (ofFloat x).integer? = some 0
  rw [ofFloat_of_zero hx, integer?_finite, toRat, signed_eq]
  simp

/-- A number that is not zero is the only one that stands for its integer. -/
theorem unpack_of_integer? {x : Float} {i : Int} (h : Scalar.integer? x = some i) :
    (∃ s, x.toModel.unpack = .zero s) ∧ i = 0 ∨
      (∃ s m e k, x.toModel.unpack = .finite s m e k) ∧ (ofFloat x).toRat = i ∧ i ≠ 0 := by
  cases hx : x.toModel.unpack with
  | notANumber =>
    change (ofFloat x).integer? = some i at h
    simp [ofFloat, hx, integer?] at h
  | infinity s =>
    change (ofFloat x).integer? = some i at h
    simp [ofFloat, hx, integer?] at h
  | zero s =>
    rw [integer?_zero hx] at h
    exact .inl ⟨⟨s, rfl⟩, (Option.some.inj h).symm⟩
  | finite s m e k =>
    have hvalue : (ofFloat x).toRat = i := by
      have h : (ofFloat x).integer? = some i := h
      rw [ofFloat_of_unpack hx] at h ⊢
      exact integer?_finite.mp h
    refine .inr ⟨⟨s, m, e, k, rfl⟩, hvalue, ?_⟩
    rintro rfl
    rw [ofFloat_of_unpack hx, toRat, signed_eq] at hvalue
    have hm : (m : ℚ) ≠ 0 := by exact_mod_cast k.ne'
    have hpos := (two_zpow_pos e).ne'
    cases s <;> simp [isNegative, hm, hpos] at hvalue

theorem canonical_of_zero {x : Float} {s : Sign} (hx : x.toModel.unpack = .zero s) :
    Scalar.canonical x = (0.0 : Float) :=
  if_pos (beq_zero_iff.mpr ⟨s, hx⟩)

theorem roundWithAccuracy_ne_notANumber {s : Sign} {m : Nat} {e : Int} {a : Accuracy} :
    roundWithAccuracy Format.binary64 s m e a ≠ .notANumber := by
  rw [roundWithAccuracy]
  dsimp only
  split <;> (intro h; cases h)

/-- The machine number stands for a positive number. -/
def StandsFor (x : Float) (q : ℚ) : Prop :=
  ∃ (M : Nat) (E : Int) (hc : Canonical M E),
    x.toModel.unpack = .finite .positive M E hc.pos ∧ (M * 2 ^ E : ℚ) = q

theorem StandsFor.toRat_eq {x : Float} {q : ℚ} (h : StandsFor x q) : (ofFloat x).toRat = q := by
  obtain ⟨M, E, hc, hx, rfl⟩ := h
  rw [ofFloat_of_unpack hx, toRat, signed_eq]
  simp [isNegative]

theorem StandsFor.mul {x y : Float} {p q : ℚ} {M : Nat} {E : Int} (hx : StandsFor x p)
    (hy : StandsFor y q) (hp : 1 ≤ p) (hc : Canonical M E) (h : RoundsTo M E (p * q)) :
    (x * y).toModel.unpack = .finite .positive M E hc.pos := by
  obtain ⟨m, e, hm, hx, rfl⟩ := hx
  obtain ⟨n, f, hn, hy, rfl⟩ := hy
  have hbits : 2 ^ 52 ≤ m := by
    refine hm.normal.resolve_right ?_
    rintro rfl
    have hlt : (m : ℚ) < 2 ^ 53 := by exact_mod_cast hm.lt
    have hone : (2 ^ (53 : Int) : ℚ) * 2 ^ (-1074 : Int) ≤ 1 := by
      rw [← two_zpow_add]
      exact zpow_le_one_of_nonpos₀ (by norm_num) (by norm_num)
    have hsmall := mul_lt_mul_of_pos_right hlt (two_zpow_pos (-1074))
    exact absurd hp (not_le.mpr (hsmall.trans_le hone))
  change (Float.Model.pack
    (UnpackedFloat.mul Format.binary64 x.toModel.unpack y.toModel.unpack)).unpack = _
  rw [hx, hy, mul_finite_eq hc (hbits.trans (Nat.le_mul_of_pos_right m hn.pos)) h]
  exact unpack_pack_finite hc

theorem StandsFor.div {x y : Float} {p q : ℚ} {M : Nat} {E : Int} (hx : StandsFor x p)
    (hy : StandsFor y q) (hc : Canonical M E) (h : RoundsTo M E (p / q)) :
    (x / y).toModel.unpack = .finite .positive M E hc.pos := by
  obtain ⟨m, e, hm, hx, rfl⟩ := hx
  obtain ⟨n, f, hn, hy, rfl⟩ := hy
  change (Float.Model.pack
    (UnpackedFloat.div Format.binary64 x.toModel.unpack y.toModel.unpack)).unpack = _
  rw [hx, hy, div_finite_eq hc h]
  exact unpack_pack_finite hc

theorem exists_canonical {n : Nat} (hpos : 0 < n) (hlt : n < 2 ^ 53) :
    ∃ M E, Canonical M E ∧ (M * 2 ^ E : ℚ) = n := by
  have hlog : n.log2 ≤ 52 := by
    have hlog := (Nat.log2_lt hpos.ne').mpr hlt
    omega
  have hshift : n <<< (52 - n.log2) ≠ 0 := by
    rw [Nat.shiftLeft_eq]
    positivity
  have hbits : (n <<< (52 - n.log2)).log2 = 52 := by
    rw [log2_shiftLeft hpos.ne']
    omega
  obtain ⟨hle, hlt⟩ := (Nat.log2_eq_iff hshift).mp hbits
  refine ⟨n <<< (52 - n.log2), -((52 - n.log2 : ℕ) : ℤ), ⟨Nat.pos_of_ne_zero hshift, hlt, by omega,
    by omega, .inl hle⟩, ?_⟩
  rw [Nat.shiftLeft_eq, zpow_neg, zpow_natCast]
  push_cast
  field_simp

theorem normalize_natCast {n : Nat} (hpos : 0 < n) :
    UnpackedFloat.ofNat Format.binary64 n = UnpackedFloat.round Format.binary64 .positive n 0 := by
  have hcmp : compare (n : Int) 0 = .gt := Int.compare_eq_gt.mpr (by omega)
  simp only [UnpackedFloat.ofNat, UnpackedFloat.ofInt, UnpackedFloat.normalize, hcmp, Int.toNat_natCast]

theorem standsFor_toFloat {n : Nat} (hpos : 0 < n) (hlt : n < 2 ^ 53) :
    StandsFor n.toUInt64.toFloat n := by
  obtain ⟨M, E, hc, hvalue⟩ := exists_canonical hpos hlt
  refine ⟨M, E, hc, ?_, hvalue⟩
  have hn : n.toUInt64.toNat = n := by
    rw [UInt64.toNat_ofNat', Nat.mod_eq_of_lt (by omega)]
  change (Float.Model.pack (UnpackedFloat.ofNat Format.binary64 n.toUInt64.toNat)).unpack = _
  rw [hn, normalize_natCast hpos, round_eq hc hpos (by
    rw [zpow_zero, mul_one, ← hvalue]
    exact roundsTo_self M E)]
  exact unpack_pack_finite hc

theorem StandsFor.lt_of_lt {x y : Float} {p q : ℚ} (hx : StandsFor x p) (hy : StandsFor y q)
    (h : Scalar.lt x y = true) : p < q := by
  obtain ⟨m, e, hm, hx, rfl⟩ := hx
  obtain ⟨n, f, hn, hy, rfl⟩ := hy
  have hcmp : compare? x y = some .lt := beq_iff_eq.mp h
  rw [compare?_eq, hx, hy] at hcmp
  have hcmp : (compare e f).then (compare m n) = .lt := Option.some.inj hcmp
  rcases Ordering.then_eq_lt.mp hcmp with hlt | ⟨heq, hlt⟩
  · have hlt := Int.compare_eq_lt.mp hlt
    have hn52 : (2 ^ 52 : ℚ) ≤ n := by
      exact_mod_cast hn.normal.resolve_right (by have := hm.low; omega)
    have hm53 : (m : ℚ) < 2 ^ 53 := by exact_mod_cast hm.lt
    have hle : (2 : ℚ) ^ (e + 1) ≤ 2 ^ f := zpow_le_zpow_right₀ (by norm_num) (by omega)
    rw [two_zpow_add, zpow_one] at hle
    nlinarith [two_zpow_pos e, two_zpow_pos f]
  · rw [Int.compare_eq_eq.mp heq]
    have hlt : (m : ℚ) < n := by exact_mod_cast Nat.compare_eq_lt.mp hlt
    exact mul_lt_mul_of_pos_right hlt (two_zpow_pos f)

theorem standsFor_of_ofFloat {x : Float} {m : Nat} {e : Int} (hm : 0 < m)
    (hx : ofFloat x = finite false m e) : StandsFor x (m * 2 ^ e) := by
  cases hu : x.toModel.unpack with
  | notANumber => simp [ofFloat, hu] at hx
  | infinity s => simp [ofFloat, hu] at hx
  | zero s =>
    rw [ofFloat_of_zero hu] at hx
    injection hx with _ hzero
    exact absurd hzero.symm hm.ne'
  | finite s n f h =>
    rw [ofFloat_of_unpack hu] at hx
    cases s with
    | negative => cases hx
    | positive =>
      cases hx
      exact ⟨m, e, canonical_of_unpack hu, hu, rfl⟩

theorem ofFloat_powerOfTen (i : Fin Float.exactlyRepresentablePowersOfTen.size) :
    let l : Nat := (10 ^ i.val).log2
    let m : Nat := 10 ^ i.val * 2 ^ 52 / 2 ^ l
    ofFloat Float.exactlyRepresentablePowersOfTen[i] = finite false m (l - 52) ∧ 0 < m ∧
      m * 2 ^ l = 10 ^ i.val * 2 ^ 52 := by
  revert i
  decide +kernel

/-- The powers of ten that multiply or divide a short mantissa are exact. -/
theorem standsFor_powerOfTen (e : Nat) (he : e < Float.exactlyRepresentablePowersOfTen.size) :
    StandsFor Float.exactlyRepresentablePowersOfTen[e] (10 ^ e) := by
  obtain ⟨hfloat, hpos, hvalue⟩ := ofFloat_powerOfTen ⟨e, he⟩
  have hstands := standsFor_of_ofFloat hpos hfloat
  have hcast : ((10 ^ e * 2 ^ 52 / 2 ^ (10 ^ e).log2 : ℕ) : ℚ) * 2 ^ (10 ^ e).log2 = 10 ^ e * 2 ^ 52 := by
    exact_mod_cast hvalue
  rw [zpow_sub₀ (by norm_num), zpow_natCast, ← mul_div_assoc, hcast, mul_div_assoc] at hstands
  norm_num at hstands
  exact hstands

/-- Short integers are machine numbers. -/
theorem standsFor_ofNat {n : Nat} (hpos : 0 < n) (hlt : n < 2 ^ 53) : StandsFor (Float.ofNat n) n := by
  have hfast : Float.ofNat n = n.toUInt64.toFloat * Float.exactlyRepresentablePowersOfTen[0] := by
    change Float.ofScientific n false 0 = _
    unfold Float.ofScientific
    rw [dif_pos ⟨hlt, by norm_num⟩]
    rfl
  obtain ⟨M, E, hc, hn, hvalue⟩ := standsFor_toFloat hpos hlt
  refine ⟨M, E, hc, ?_, hvalue⟩
  rw [hfast]
  refine StandsFor.mul ⟨M, E, hc, hn, hvalue⟩ (standsFor_powerOfTen 0 (by decide))
    (by exact_mod_cast hpos) hc ?_
  rw [pow_zero, mul_one, ← hvalue]
  exact roundsTo_self M E

theorem ofScientific_ne_notANumber (n : Nat) (e : Int) :
    UnpackedFloat.ofScientific Format.binary64 n e ≠ .notANumber := by
  unfold UnpackedFloat.ofScientific
  split_ifs
  · nofun
  · nofun
  · nofun
  · exact roundWithAccuracy_ne_notANumber
  · exact roundWithAccuracy_ne_notANumber

theorem unpack_ofNat_ne_notANumber (n : Nat) : (Float.ofNat n).toModel.unpack ≠ .notANumber := by
  by_cases hlt : n < 2 ^ 53
  · rcases Nat.eq_zero_or_pos n with rfl | hpos
    · have hbits : (Float.ofNat 0).toModel.toBits = 0 := by decide +kernel
      rw [Float.Model.unpack, hbits]
      nofun
    · obtain ⟨M, E, hc, hn, -⟩ := standsFor_ofNat hpos hlt
      rw [hn]
      nofun
  · change (Float.ofScientific n false 0).toModel.unpack ≠ .notANumber
    unfold Float.ofScientific
    rw [dif_neg fun h => hlt h.1]
    exact unpack_pack_ne_notANumber (ofScientific_ne_notANumber _ _)

theorem unpack_ofInt_ne_notANumber (i : Int) : (Float.ofInt i).toModel.unpack ≠ .notANumber := by
  cases i with
  | ofNat n => exact unpack_ofNat_ne_notANumber n
  | negSucc n =>
    refine unpack_pack_ne_notANumber (u := (Float.ofNat n.succ).toModel.unpack.neg) ?_
    have hn := unpack_ofNat_ne_notANumber n.succ
    cases hu : (Float.ofNat n.succ).toModel.unpack with
    | notANumber => exact absurd hu hn
    | _ => nofun

theorem isFinite_ne_notANumber {x : Float} (h : Scalar.isFinite x = true) :
    x.toModel.unpack ≠ .notANumber := by
  change x.toModel.unpack.isFinite = true at h
  intro hx
  rw [hx] at h
  cases h

instance : LawfulScalar Float where
  isNaN_ofInt i := isNaN_eq_false.mpr (unpack_ofInt_ne_notANumber i)
  isNaN_of_isFinite x h := isNaN_eq_false.mpr (isFinite_ne_notANumber h)
  eq_comm x y := by
    change (compare? x y == some .eq) = (compare? y x == some .eq)
    rw [compare?_eq, compare?_eq, compare_swap x.toModel.unpack]
    cases x.toModel.unpack.compare y.toModel.unpack with
    | none => rfl
    | some o => cases o <;> rfl
  eq_self x h := by
    change (compare? x x == some .eq) = true
    have hx := isNaN_eq_false.mp h
    rw [compare?_eq]
    cases hu : x.toModel.unpack with
    | notANumber => exact absurd hu hx
    | infinity s => cases s <;> rfl
    | zero s => rfl
    | finite s m e k => cases s <;> simp [UnpackedFloat.compare]
  zero_lt_one := by decide +kernel
  integer?_canonical x := by
    by_cases h : (x == 0.0) = true
    · obtain ⟨s, hs⟩ := beq_zero_iff.mp h
      rw [canonical_of_zero hs, integer?_zero hs]
      decide +kernel
    · exact congrArg Scalar.integer? (if_neg h)
  canonical_eq x y i hx hy := by
    rcases unpack_of_integer? hx with ⟨⟨s, hs⟩, rfl⟩ | ⟨⟨s, m, e, k, hm⟩, hvalue, hne⟩
    · obtain ⟨⟨t, ht⟩, -⟩ := (unpack_of_integer? hy).resolve_right fun h => h.2.2 rfl
      rw [canonical_of_zero hs, canonical_of_zero ht]
    · obtain ⟨⟨t, n, f, l, hn⟩, hvalue', -⟩ := (unpack_of_integer? hy).resolve_left fun h => hne h.2
      rw [eq_of_toRat_eq hm hn (hvalue.trans hvalue'.symm)]

theorem countsTo : Scalar.CountsTo Float (2 ^ 53 - 1) := by
  intro n hpos hle
  have hn := standsFor_ofNat hpos (by omega)
  have hone := standsFor_ofNat one_pos (by norm_num)
  obtain ⟨M, E, hc, hx, -⟩ := id hn
  constructor
  · rw [← Bool.not_eq_true]
    intro hlt
    have hlt := StandsFor.lt_of_lt hn hone hlt
    rw [Nat.cast_lt] at hlt
    omega
  · have hvalue := hn.toRat_eq
    change (ofFloat (Float.ofNat n)).floor? = some (n : Int)
    rw [ofFloat_of_unpack hx] at hvalue ⊢
    rw [floor?_finite, hvalue, Int.floor_natCast]

end ApproxQuery.Binary64
