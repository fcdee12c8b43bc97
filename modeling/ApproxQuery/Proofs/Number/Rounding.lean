import ApproxQuery.Number.Binary64
import Mathlib

/-!
# Rounding to the nearest machine number

The arithmetic of machine numbers rounds once, after an exact computation on mantissas. A positive
real that lies in the interval around a machine number is rounded to that number, whatever mantissa,
exponent and inexactness it is given by.
-/

open Float.Model Float.Model.UnpackedFloat

namespace ApproxQuery.Binary64

/-- The mantissas and exponents of positive machine numbers, each number once. -/
structure Canonical (M : Nat) (E : Int) : Prop where
  pos : 0 < M
  lt : M < 2 ^ 53
  low : -1074 ≤ E
  high : E ≤ 971
  normal : 2 ^ 52 ≤ M ∨ E = -1074

/-- Four times the distance from the mantissa to the lower end of the interval. -/
def below (M : Nat) (E : Int) : Nat :=
  if M = 2 ^ 52 ∧ -1074 < E then 1 else 2

/-- The interval of numbers whose nearest machine number is `M * 2 ^ E`; its ends belong to it when
the mantissa is even. -/
structure RoundsTo (M : Nat) (E : Int) (x : ℚ) : Prop where
  lower : (4 * M - below M E : ℚ) * 2 ^ E ≤ 4 * x
  upper : 4 * x ≤ (4 * M + 2) * 2 ^ E
  odd : M % 2 = 1 → (4 * M - below M E : ℚ) * 2 ^ E < 4 * x ∧ 4 * x < (4 * M + 2) * 2 ^ E

theorem two_zpow_pos (e : Int) : (0 : ℚ) < 2 ^ e :=
  zpow_pos (by norm_num) e

theorem two_zpow_add (a b : Int) : (2 : ℚ) ^ (a + b) = 2 ^ a * 2 ^ b :=
  zpow_add₀ (by norm_num) a b

theorem lt_of_two_zpow_lt {a b : Int} (h : (2 : ℚ) ^ a < 2 ^ b) : a < b :=
  (zpow_lt_zpow_iff_right₀ (by norm_num)).mp h

theorem below_le (M : Nat) (E : Int) : below M E ≤ 2 := by
  unfold below
  split <;> omega

theorem roundsTo_self (M : Nat) (E : Int) : RoundsTo M E (M * 2 ^ E) := by
  have hpos := two_zpow_pos E
  have hbelow : (0 : ℚ) < below M E := by
    unfold below
    split <;> norm_num
  refine ⟨?_, ?_, fun _ => ⟨?_, ?_⟩⟩ <;> nlinarith

theorem log2_shiftLeft {m : Nat} (hm : m ≠ 0) (k : Nat) : (m <<< k).log2 = m.log2 + k := by
  have hpos : 0 < 2 ^ k := Nat.two_pow_pos k
  rw [Nat.shiftLeft_eq, Nat.log2_eq_iff (Nat.mul_ne_zero hm hpos.ne')]
  refine ⟨?_, ?_⟩
  · rw [pow_add]
    exact Nat.mul_le_mul_right _ (Nat.log2_self_le hm)
  · rw [add_right_comm, pow_add _ (m.log2 + 1)]
    exact Nat.mul_lt_mul_of_pos_right Nat.lt_log2_self hpos

/-- What the accuracy of a mantissa says about the part of the number that is cut off. -/
def CutOff : Accuracy → ℚ → Prop
  | .exact, f => f = 0
  | .inexact .lt, f => 0 < f ∧ f < 1 / 2
  | .inexact .eq, f => f = 1 / 2
  | .inexact .gt, f => 1 / 2 < f ∧ f < 1

/-- The extended mantissa is what is left of a number. -/
def Leaves (em : ExtendedMantissa) (y : ℚ) : Prop :=
  CutOff em.accuracy (y - em.mantissa)

theorem CutOff.bounds {a : Accuracy} {f : ℚ} (h : CutOff a f) : 0 ≤ f ∧ f < 1 := by
  rcases a with _ | o
  · have h : f = 0 := h
    norm_num [h]
  · cases o with
    | lt => exact ⟨h.1.le, h.2.trans (by norm_num)⟩
    | eq =>
      have h : f = 1 / 2 := h
      norm_num [h]
    | gt => exact ⟨(lt_trans (by norm_num) h.1).le, h.2⟩

theorem leaves_ofMantissaAndAccuracy {m : Nat} {a : Accuracy} {y : ℚ} (h : CutOff a (y - m)) :
    Leaves (.ofMantissaAndAccuracy m a) y := by
  rcases a with _ | o
  · exact h
  · cases o <;> exact h

theorem Leaves.shiftRightOne {em : ExtendedMantissa} {y : ℚ} (h : Leaves em y) :
    Leaves em.shiftRightOne (y / 2) := by
  obtain ⟨m, r, s⟩ := em
  obtain ⟨n, b, rfl⟩ : ∃ n, ∃ b : Bool, m = 2 * n + b.toNat := by
    refine ⟨m / 2, m % 2 != 0, ?_⟩
    rcases Nat.mod_two_eq_zero_or_one m with hmod | hmod <;> simp [hmod] <;> omega
  have hshift : (ExtendedMantissa.mk (2 * n + b.toNat) r s).shiftRightOne = ⟨n, b, r || s⟩ := by
    cases b <;> simp [ExtendedMantissa.shiftRightOne, Nat.add_div]
  rw [hshift]
  cases b <;> cases r <;> cases s <;>
    norm_num [Leaves, ExtendedMantissa.accuracy, CutOff] at h ⊢
  all_goals first | (constructor <;> linarith) | linarith

theorem Leaves.shift {em : ExtendedMantissa} {y : ℚ} (h : Leaves em y) (k : Nat) :
    Leaves (em >>> k) (y / 2 ^ k) := by
  induction k with
  | zero => simpa [HShiftRight.hShiftRight, Nat.repeat] using h
  | succ k ih =>
    rw [pow_succ, ← div_div]
    exact ih.shiftRightOne

/-- Rounding takes the nearest integer, and the even one of two. -/
theorem Leaves.roundedMantissa_eq {em : ExtendedMantissa} {y : ℚ} {M : Nat} (h : Leaves em y)
    (hlow : (2 * M - 1 : ℚ) ≤ 2 * y) (hhigh : 2 * y ≤ 2 * M + 1)
    (hodd : M % 2 = 1 → (2 * M - 1 : ℚ) < 2 * y ∧ 2 * y < 2 * M + 1) : em.roundedMantissa = M := by
  obtain ⟨m, r, s⟩ := em
  have hcast {a b : Nat} (hab : (a : ℚ) < b + 1) : a ≤ b := by
    have hab : a < b + 1 := by exact_mod_cast hab
    omega
  cases r <;> cases s <;>
    simp only [Leaves, ExtendedMantissa.accuracy, CutOff, ExtendedMantissa.roundedMantissa,
      Accuracy.roundToNearestEven] at h ⊢
  · have hle : m ≤ M := hcast (by linarith)
    have hge : M ≤ m := hcast (by linarith)
    omega
  · have hle : m ≤ M := hcast (by linarith)
    have hge : M ≤ m := hcast (by linarith)
    omega
  · -- the number lies in the middle of two integers, so the mantissa is the even one
    have hle : m ≤ M := hcast (by linarith)
    have hge : M ≤ m + 1 := hcast (by push_cast; linarith)
    have heven : M % 2 = 0 := by
      rcases Nat.mod_two_eq_zero_or_one M with hmod | hmod
      · exact hmod
      · obtain ⟨hlow, hhigh⟩ := hodd hmod
        have hlt : m < M := by
          have hlt : (m : ℚ) < M := by linarith
          exact_mod_cast hlt
        have hgt : M < m + 1 := by
          have hgt : (M : ℚ) < m + 1 := by linarith
          exact_mod_cast hgt
        omega
    omega
  · have hle : m + 1 ≤ M := hcast (by push_cast; linarith)
    have hge : M ≤ m + 1 := hcast (by push_cast; linarith)
    omega

/-- The exponent that a mantissa is shifted to. -/
def target (m : Nat) (e : Int) : Int :=
  Format.binary64.targetExponent (totalExponent m e)

theorem target_eq (m : Nat) (e : Int) : target m e = max ((m.log2 : Int) + e - 52) (-1074) := by
  simp only [target, Format.targetExponent, totalExponent, Format.mantissaBits, Format.minExponent]
  norm_num
  omega

theorem shiftToTargetExponent_eq (m : Nat) (e : Int) (a : Accuracy) :
    shiftToTargetExponent Format.binary64 m e a =
      (ExtendedMantissa.ofMantissaAndAccuracy m a >>> (target m e - e).toNat,
        e + (target m e - e).toNat) := rfl

theorem shiftToTargetExponent_of_lt {m : Nat} {e : Int} (hm : m < 2 ^ 53) (he : -1074 ≤ e) :
    shiftToTargetExponent Format.binary64 m e .exact = (⟨m, false, false⟩, e) := by
  have hlog : m.log2 ≤ 52 := by
    rcases Nat.eq_zero_or_pos m with rfl | hpos
    · simp
    · have hlt := (Nat.log2_lt hpos.ne').mpr hm
      omega
  have hshift : (target m e - e).toNat = 0 := by
    rw [target_eq]
    omega
  rw [shiftToTargetExponent_eq, hshift]
  simp [HShiftRight.hShiftRight, Nat.repeat, ExtendedMantissa.ofMantissaAndAccuracy]

theorem shiftToTargetExponent_two_pow {e : Int} (he : -1074 ≤ e) :
    shiftToTargetExponent Format.binary64 (2 ^ 53) e .exact = (⟨2 ^ 52, false, false⟩, e + 1) := by
  have hshift : (target (2 ^ 53) e - e).toNat = 1 := by
    rw [target_eq, Nat.log2_two_pow]
    omega
  rw [shiftToTargetExponent_eq, hshift]
  rfl

/-- The mantissa has enough bits for the shift to keep the ones that count. -/
def Detailed (m : Nat) (e : Int) : Prop :=
  52 ≤ m.log2 ∨ e ≤ -1074

section

variable {m : Nat} {e : Int} {a : Accuracy} {x : ℚ}

theorem lt_two_zpow_target (hcut : CutOff a (x / 2 ^ e - m)) : x < 2 ^ (target m e + 53) := by
  have hm : ((m + 1 : ℕ) : ℚ) ≤ 2 ^ (m.log2 + 1) := by exact_mod_cast Nat.lt_log2_self (n := m)
  have hx : x / 2 ^ e < 2 ^ (m.log2 + 1) := by
    have hlt := hcut.bounds.2
    push_cast at hm
    linarith
  rw [div_lt_iff₀ (two_zpow_pos e), ← zpow_natCast, ← two_zpow_add] at hx
  refine hx.trans_le (zpow_le_zpow_right₀ (by norm_num) ?_)
  rw [target_eq]
  push_cast
  omega

theorem two_zpow_target_le (hcut : CutOff a (x / 2 ^ e - m)) (hbits : Detailed m e)
    (ht : target m e ≠ -1074) : 2 ^ (target m e + 52) ≤ x := by
  rw [target_eq] at ht
  have hm0 : m ≠ 0 := by
    rintro rfl
    rcases hbits with hlog | he
    · simp at hlog
    · simp at ht
      omega
  have hm : ((2 ^ m.log2 : ℕ) : ℚ) ≤ m := by exact_mod_cast Nat.log2_self_le hm0
  have hx : (2 : ℚ) ^ m.log2 ≤ x / 2 ^ e := by
    have hle := hcut.bounds.1
    push_cast at hm
    linarith
  rw [le_div_iff₀ (two_zpow_pos e), ← zpow_natCast, ← two_zpow_add] at hx
  rw [target_eq]
  have hexp : max ((m.log2 : Int) + e - 52) (-1074) + 52 = m.log2 + e := by omega
  rw [hexp]
  exact hx

theorem le_target (hbits : Detailed m e) : e ≤ target m e := by
  rw [target_eq]
  rcases hbits with hlog | he
  · omega
  · omega

variable {M : Nat} {E : Int}

theorem RoundsTo.lower_two (hx : RoundsTo M E x) : (2 * M - 1 : ℚ) * 2 ^ E ≤ 2 * x := by
  have hbelow : (below M E : ℚ) ≤ 2 := by exact_mod_cast below_le M E
  have hpos := two_zpow_pos E
  nlinarith [hx.lower]

theorem RoundsTo.pos (hc : Canonical M E) (hx : RoundsTo M E x) : 0 < x := by
  have hM : (1 : ℚ) ≤ M := by exact_mod_cast hc.pos
  have hpos := two_zpow_pos E
  nlinarith [hx.lower_two]

/-- The shift goes to the exponent of the machine number, or to the one below it for numbers under a
power of two that are rounded up to it. -/
theorem RoundsTo.target_cases (hc : Canonical M E) (hx : RoundsTo M E x)
    (hcut : CutOff a (x / 2 ^ e - m)) (hbits : Detailed m e) :
    target m e = E ∨ target m e = E - 1 ∧ M = 2 ^ 52 ∧ -1074 < E ∧ x < 2 ^ (E + 52) := by
  have hpos := two_zpow_pos E
  have hlt := lt_two_zpow_target hcut
  have hlow : -1074 ≤ target m e := by
    rw [target_eq]
    omega
  have hle : target m e ≤ E := by
    by_cases ht : target m e = -1074
    · exact ht ▸ hc.low
    · have hM : (M + 1 : ℚ) ≤ 2 ^ (53 : Int) := by exact_mod_cast hc.lt
      have hx53 : x < 2 ^ (E + 53) := by
        rw [two_zpow_add]
        nlinarith [hx.upper]
      have hexp := lt_of_two_zpow_lt ((two_zpow_target_le hcut hbits ht).trans_lt hx53)
      omega
  by_cases hx52 : 2 ^ (E + 52) ≤ x
  · have hexp := lt_of_two_zpow_lt (hx52.trans_lt hlt)
    exact .inl (by omega)
  · rw [not_le] at hx52
    rcases hc.normal with hnormal | hmin
    · by_cases hE : E = -1074
      · exact .inl (by omega)
      · have hx52' := hx52
        rw [two_zpow_add] at hx52'
        have hM : M = 2 ^ 52 := by
          by_contra hne
          have hM : (2 ^ (52 : Int) + 1 : ℚ) ≤ M := by exact_mod_cast (by omega : 2 ^ 52 + 1 ≤ M)
          nlinarith [hx.lower_two]
        have hx51 : 2 ^ (E + 51) ≤ x := by
          have hfour : (2 : ℚ) ^ (52 : Int) = 2 * 2 ^ (51 : Int) := by norm_num
          have hone : (1 : ℚ) ≤ 2 ^ (51 : Int) := by norm_num
          have hlower := hx.lower_two
          rw [hM] at hlower
          push_cast at hlower
          rw [two_zpow_add]
          norm_num at hlower ⊢
          linarith
        have hexp := lt_of_two_zpow_lt (hx51.trans_lt hlt)
        by_cases ht : target m e = E
        · exact .inl ht
        · exact .inr ⟨by omega, hM, by have := hc.low; omega, hx52⟩
    · exact .inl (by omega)

theorem RoundsTo.roundedMantissa_eq {em : ExtendedMantissa} (hx : RoundsTo M E x)
    (hleaves : Leaves em (x / 2 ^ E)) : em.roundedMantissa = M := by
  have hpos := two_zpow_pos E
  refine hleaves.roundedMantissa_eq ?_ ?_ fun hodd => ?_
  · rw [← mul_div_assoc, le_div_iff₀ hpos]
    exact hx.lower_two
  · rw [← mul_div_assoc, div_le_iff₀ hpos]
    nlinarith [hx.upper]
  · obtain ⟨hlower, hupper⟩ := hx.odd hodd
    have hbelow : (below M E : ℚ) ≤ 2 := by exact_mod_cast below_le M E
    rw [← mul_div_assoc, lt_div_iff₀ hpos, div_lt_iff₀ hpos]
    constructor <;> nlinarith

/-- Under a power of two the mantissa has one bit more, and is rounded up to the next length. -/
theorem RoundsTo.roundedMantissa_eq_two_pow {em : ExtendedMantissa}
    (hx : RoundsTo (2 ^ 52) E x) (hE : -1074 < E) (hlt : x < 2 ^ (E + 52))
    (hleaves : Leaves em (x / 2 ^ (E - 1))) : em.roundedMantissa = 2 ^ 53 := by
  have hpos := two_zpow_pos (E - 1)
  have htwo : (2 : ℚ) ^ E = 2 * 2 ^ (E - 1) := by
    conv_lhs => rw [← sub_add_cancel E 1, add_comm, two_zpow_add, zpow_one]
  refine hleaves.roundedMantissa_eq ?_ ?_ fun hodd => ?_
  · have hlower := hx.lower
    rw [htwo, below, if_pos ⟨rfl, hE⟩] at hlower
    rw [← mul_div_assoc, le_div_iff₀ hpos]
    push_cast at hlower ⊢
    linarith
  · rw [two_zpow_add, htwo] at hlt
    rw [← mul_div_assoc, div_le_iff₀ hpos]
    norm_num at hlt ⊢
    linarith
  · norm_num at hodd

theorem roundWithAccuracy_eq {s : Sign} (hc : Canonical M E) (hx : RoundsTo M E x)
    (hcut : CutOff a (x / 2 ^ e - m)) (hbits : Detailed m e) :
    roundWithAccuracy Format.binary64 s m e a = .finite s M E hc.pos := by
  have hshift : e + (target m e - e).toNat = target m e := by
    have hle := le_target hbits
    omega
  have hleaves : Leaves (ExtendedMantissa.ofMantissaAndAccuracy m a >>> (target m e - e).toNat)
      (x / 2 ^ target m e) := by
    have hleaves := (leaves_ofMantissaAndAccuracy hcut).shift (target m e - e).toNat
    rwa [div_div, ← zpow_natCast, ← two_zpow_add, hshift] at hleaves
  have hround : roundWithAccuracy Format.binary64 s m e a =
      match shiftToTargetExponent Format.binary64
        (ExtendedMantissa.ofMantissaAndAccuracy m a >>> (target m e - e).toNat).roundedMantissa
        (target m e) .exact with
      | (em, e₁) => if h : em.mantissa = 0 then .zero s else
          .finite s em.mantissa e₁ (Nat.pos_of_ne_zero h) := by
    rw [roundWithAccuracy, shiftToTargetExponent_eq]
    dsimp only
    rw [hshift]
  rw [hround]
  rcases hx.target_cases hc hcut hbits with ht | ⟨ht, rfl, hE, hlt⟩
  · rw [ht] at hleaves
    rw [ht, hx.roundedMantissa_eq hleaves, shiftToTargetExponent_of_lt hc.lt hc.low]
    exact dif_neg hc.pos.ne'
  · rw [ht] at hleaves
    rw [ht, hx.roundedMantissa_eq_two_pow hE hlt hleaves,
      shiftToTargetExponent_two_pow (by omega)]
    simp only [sub_add_cancel]
    exact dif_neg (by norm_num)

theorem round_eq {s : Sign} (hc : Canonical M E) (hm : 0 < m) (hx : RoundsTo M E (m * 2 ^ e)) :
    UnpackedFloat.round Format.binary64 s m e = .finite s M E hc.pos := by
  have hround : UnpackedFloat.round Format.binary64 s m e =
      roundWithAccuracy Format.binary64 s (m <<< (e - target m e).toNat)
        (e - ((e - target m e).toNat : Nat)) .exact := rfl
  rw [hround]
  have htarget := target_eq m e
  refine roundWithAccuracy_eq hc hx ?_ ?_
  · have hscale : (m : ℚ) * 2 ^ e =
        (m <<< (e - target m e).toNat : ℕ) * 2 ^ (e - ((e - target m e).toNat : Nat)) := by
      rw [Nat.shiftLeft_eq, zpow_sub₀ (by norm_num), zpow_natCast]
      push_cast
      field_simp
    rw [hscale, mul_div_assoc, div_self (two_zpow_pos _).ne', mul_one]
    exact sub_self _
  · unfold Detailed
    rw [log2_shiftLeft hm.ne']
    omega

theorem mul_finite_eq {s₁ s₂ : Sign} {m₁ m₂ : Nat} {e₁ e₂ : Int} {h₁ : 0 < m₁} {h₂ : 0 < m₂}
    (hc : Canonical M E) (hbits : 2 ^ 52 ≤ m₁ * m₂)
    (hx : RoundsTo M E (m₁ * 2 ^ e₁ * (m₂ * 2 ^ e₂))) :
    UnpackedFloat.mul Format.binary64 (.finite s₁ m₁ e₁ h₁) (.finite s₂ m₂ e₂ h₂) =
      .finite (s₁ * s₂) M E hc.pos := by
  refine roundWithAccuracy_eq hc hx ?_ (.inl ?_)
  · have hscale : (m₁ * 2 ^ e₁ * (m₂ * 2 ^ e₂) : ℚ) = (m₁ * m₂ : ℕ) * 2 ^ (e₁ + e₂) := by
      rw [two_zpow_add]
      push_cast
      ring
    rw [hscale, mul_div_assoc, div_self (two_zpow_pos _).ne', mul_one]
    exact sub_self _
  · exact (Nat.le_log2 (Nat.mul_pos h₁ h₂).ne').mpr hbits

theorem cutOff_accuracyOfFraction {r d : Nat} (hd : r < d) :
    CutOff (accuracyOfFraction r d) (r / d : ℚ) := by
  have hpos : (0 : ℚ) < d := by exact_mod_cast Nat.zero_lt_of_lt hd
  unfold accuracyOfFraction
  split
  · rename_i hr
    rw [hr, Nat.cast_zero, zero_div]
    rfl
  · rename_i hr
    have hr : (0 : ℚ) < r := by exact_mod_cast Nat.pos_of_ne_zero hr
    have hlt : (r : ℚ) < d := by exact_mod_cast hd
    rcases lt_trichotomy (2 * r) d with hcmp | hcmp | hcmp
    · rw [Nat.compare_eq_lt.mpr hcmp]
      have hcmp : (2 * r : ℚ) < d := by exact_mod_cast hcmp
      refine ⟨div_pos hr hpos, ?_⟩
      rw [div_lt_iff₀ hpos]
      linarith
    · rw [Nat.compare_eq_eq.mpr hcmp]
      have hcmp : (2 * r : ℚ) = d := by exact_mod_cast hcmp
      change (r / d : ℚ) = 1 / 2
      rw [div_eq_iff hpos.ne']
      linarith
    · rw [Nat.compare_eq_gt.mpr hcmp]
      have hcmp : (d : ℚ) < 2 * r := by exact_mod_cast hcmp
      refine ⟨?_, (div_lt_one hpos).mpr hlt⟩
      rw [lt_div_iff₀ hpos]
      linarith

/-- The rest of an integer division is what the quotient cuts off. -/
theorem cutOff_div (n : Nat) {d : Nat} (hd : 0 < d) :
    CutOff (accuracyOfFraction (n % d) d) (n / d - (n / d : ℕ) : ℚ) := by
  have hd₀ : (d : ℚ) ≠ 0 := by exact_mod_cast hd.ne'
  have hsplit : (n : ℚ) = d * (n / d : ℕ) + (n % d : ℕ) := by
    exact_mod_cast (Nat.div_add_mod n d).symm
  have hrest : (n / d - (n / d : ℕ) : ℚ) = (n % d : ℕ) / d := by
    rw [eq_div_iff hd₀, sub_mul, div_mul_cancel₀ _ hd₀]
    linarith
  rw [hrest]
  exact cutOff_accuracyOfFraction (Nat.mod_lt n hd)

theorem le_log2_div {n d k : Nat} (hd : 0 < d) (hn : n ≠ 0) (hlog : d.log2 + (k + 1) ≤ n.log2) :
    k ≤ (n / d).log2 := by
  have hle : 2 ^ k * d ≤ n :=
    calc 2 ^ k * d ≤ 2 ^ k * 2 ^ (d.log2 + 1) := Nat.mul_le_mul_left _ Nat.lt_log2_self.le
      _ = 2 ^ (d.log2 + (k + 1)) := by ring
      _ ≤ 2 ^ n.log2 := Nat.pow_le_pow_right (by norm_num) hlog
      _ ≤ n := Nat.log2_self_le hn
  have hquotient : 2 ^ k ≤ n / d := (Nat.le_div_iff_mul_le hd).mpr hle
  have hpos : 0 < 2 ^ k := Nat.two_pow_pos k
  exact (Nat.le_log2 (by omega)).mpr hquotient

theorem div_finite_eq {s₁ s₂ : Sign} {m₁ m₂ : Nat} {e₁ e₂ : Int} {h₁ : 0 < m₁} {h₂ : 0 < m₂}
    (hc : Canonical M E) (hx : RoundsTo M E (m₁ * 2 ^ e₁ / (m₂ * 2 ^ e₂))) :
    UnpackedFloat.div Format.binary64 (.finite s₁ m₁ e₁ h₁) (.finite s₂ m₂ e₂ h₂) =
      .finite (s₁ / s₂) M E hc.pos := by
  obtain ⟨t, ht⟩ : ∃ t, t = min (e₁ - e₂)
    (Format.binary64.targetExponent (totalExponent m₁ e₁ - totalExponent m₂ e₂)) := ⟨_, rfl⟩
  obtain ⟨k, hk⟩ : ∃ k, k = (e₁ - e₂ - t).toNat := ⟨_, rfl⟩
  have hdiv : UnpackedFloat.div Format.binary64 (.finite s₁ m₁ e₁ h₁) (.finite s₂ m₂ e₂ h₂) =
      roundWithAccuracy Format.binary64 (s₁ / s₂) ((m₁ <<< k) / m₂) t
        (accuracyOfFraction ((m₁ <<< k) % m₂) m₂) := by
    subst hk ht
    rfl
  have hexp : e₁ = k + e₂ + t := by omega
  have hquotient : (m₁ * 2 ^ e₁ / (m₂ * 2 ^ e₂) : ℚ) / 2 ^ t = (m₁ <<< k : ℕ) / m₂ := by
    have hm₂ : (m₂ : ℚ) ≠ 0 := by exact_mod_cast h₂.ne'
    have hpos := (two_zpow_pos t).ne'
    have hpos₂ := (two_zpow_pos e₂).ne'
    rw [hexp, two_zpow_add, two_zpow_add, Nat.shiftLeft_eq, zpow_natCast]
    push_cast
    field_simp
  rw [hdiv]
  refine roundWithAccuracy_eq hc hx ?_ ?_
  · rw [hquotient]
    exact cutOff_div (m₁ <<< k) h₂
  · -- the quotient has at least one bit more than the difference of the lengths
    have htarget : t ≤ -1074 ∨ t ≤ (m₁.log2 : Int) + e₁ - (m₂.log2 + e₂) - 53 := by
      simp only [Format.targetExponent, totalExponent, Format.mantissaBits, Format.minExponent] at ht
      norm_num at ht
      omega
    rcases htarget with hmin | hlong
    · exact .inr hmin
    · have hshift : m₁ <<< k ≠ 0 := by
        rw [Nat.shiftLeft_eq]
        positivity
      refine .inl (le_log2_div h₂ hshift ?_)
      rw [log2_shiftLeft h₁.ne']
      omega

end

end ApproxQuery.Binary64
