import ApproxQuery.Number.Reader
import ApproxQuery.Number.Shortest
import ApproxQuery.Proofs.Number.Machine

/-!
# Shortest decimals read back

A decimal is read as the machine number that its value is rounded to, whichever way the reader takes.
The shortest decimal of a machine number lies in the interval that is rounded to it.
-/

open Float.Model Float.Model.UnpackedFloat

namespace ApproxQuery

/-- The number that the decimal stands for. -/
def Decimal.value (d : Decimal) : ℚ :=
  d.digits * 10 ^ d.exponent

namespace Binary64

theorem ten_zpow_pos (e : Int) : (0 : ℚ) < 10 ^ e :=
  zpow_pos (by norm_num) e

section

variable {M : Nat} {E : Int} {n : Nat} {e : Int}

theorem RoundsTo.lt_max {x : ℚ} (hc : Canonical M E) (hx : RoundsTo M E x) : x < 2 ^ (1025 : Int) := by
  have hM : (M : ℚ) < 2 ^ (53 : Int) := by exact_mod_cast hc.lt
  have hone : (1 : ℚ) ≤ 2 ^ (53 : Int) := by norm_num
  have hpos := two_zpow_pos E
  have hE : (2 : ℚ) ^ E ≤ 2 ^ (971 : Int) := zpow_le_zpow_right₀ (by norm_num) hc.high
  calc x ≤ (M + 1 / 2) * 2 ^ E := by linarith [hx.upper]
    _ < 2 ^ (54 : Int) * 2 ^ E := by
        refine mul_lt_mul_of_pos_right ?_ hpos
        rw [show (54 : Int) = 1 + 53 from rfl, two_zpow_add, zpow_one]
        linarith
    _ ≤ 2 ^ (54 : Int) * 2 ^ (971 : Int) := mul_le_mul_of_nonneg_left hE (two_zpow_pos 54).le
    _ = 2 ^ (1025 : Int) := (two_zpow_add 54 971).symm

theorem RoundsTo.min_le {x : ℚ} (hc : Canonical M E) (hx : RoundsTo M E x) :
    2 ^ (-1075 : Int) ≤ x := by
  have hM : (1 : ℚ) ≤ M := by exact_mod_cast hc.pos
  have hpos := two_zpow_pos E
  have hE : (2 : ℚ) ^ (-1074 : Int) ≤ 2 ^ E := zpow_le_zpow_right₀ (by norm_num) hc.low
  have htwo : (2 : ℚ) ^ (-1074 : Int) = 2 * 2 ^ (-1075 : Int) := by
    rw [show (-1074 : Int) = 1 + -1075 from rfl, two_zpow_add, zpow_one]
  nlinarith [hx.lower_two]

/-- The number is not so large that its decimal is read as infinite. -/
theorem exponent_le (hc : Canonical M E) (hn : 0 < n) (h : RoundsTo M E (n * 10 ^ e)) : e ≤ 2048 := by
  by_contra hlarge
  have hone : (1 : ℚ) ≤ n := by exact_mod_cast hn
  have hten : (2 : ℚ) ^ (1025 : Int) ≤ n * 10 ^ e :=
    calc (2 : ℚ) ^ (1025 : Int) ≤ 10 ^ (1025 : Int) :=
          zpow_le_zpow_left₀ (by norm_num) (by norm_num) (by norm_num)
      _ ≤ 10 ^ e := zpow_le_zpow_right₀ (by norm_num) (by omega)
      _ ≤ n * 10 ^ e := le_mul_of_one_le_left (ten_zpow_pos e).le hone
  exact (h.lt_max hc).not_ge hten

/-- The number is not so small that its decimal is read as zero. -/
theorem le_exponent (hc : Canonical M E) (h : RoundsTo M E (n * 10 ^ e)) :
    -(2048 + (n.log2 : Int)) ≤ e := by
  by_contra hsmall
  obtain ⟨k, rfl⟩ : ∃ k : Nat, e = -k := ⟨e.natAbs, by omega⟩
  have hn : (n : ℚ) ≤ 2 ^ ((n.log2 : Int) + 1) := by
    exact_mod_cast (Nat.lt_log2_self (n := n)).le
  have hten : (10 : ℚ) ^ (-(k : Int)) ≤ 2 ^ (-(k : Int)) := by
    rw [zpow_neg, zpow_neg]
    exact inv_anti₀ (two_zpow_pos _) (pow_le_pow_left₀ (by norm_num) (by norm_num) k)
  have hsum : (n : ℚ) * 10 ^ (-(k : Int)) < 2 ^ (-1075 : Int) :=
    calc (n : ℚ) * 10 ^ (-(k : Int)) ≤ 2 ^ ((n.log2 : Int) + 1) * 2 ^ (-(k : Int)) :=
          mul_le_mul hn hten (ten_zpow_pos _).le (two_zpow_pos _).le
      _ = 2 ^ ((n.log2 : Int) + 1 + -k) := (two_zpow_add _ _).symm
      _ < 2 ^ (-1075 : Int) := zpow_lt_zpow_right₀ (by norm_num) (by omega)
  exact (h.min_le hc).not_gt hsum

theorem ofScientific_finite_eq (hc : Canonical M E) (hn : 0 < n) (h : RoundsTo M E (n * 10 ^ e)) :
    UnpackedFloat.ofScientific Format.binary64 n e = .finite .positive M E hc.pos := by
  have hhigh := exponent_le hc hn h
  have hlow := le_exponent hc h
  unfold UnpackedFloat.ofScientific
  rw [dif_neg hn.ne', if_neg (by simp; omega), if_neg (by simp; omega)]
  split
  · rename_i he
    refine mul_finite_eq hc ?_ ?_
    · rw [Nat.shiftLeft_eq]
      calc 2 ^ 52 ≤ 2 ^ Format.binary64.mantissaBits := by decide
        _ ≤ n * 2 ^ Format.binary64.mantissaBits := Nat.le_mul_of_pos_left _ hn
        _ ≤ n * 2 ^ Format.binary64.mantissaBits * 10 ^ e.toNat :=
          Nat.le_mul_of_pos_right _ (Nat.pow_pos (by norm_num))
    · have hscale : ((n <<< Format.binary64.mantissaBits : ℕ) : ℚ) *
          2 ^ (-(Format.binary64.mantissaBits : Int)) * ((10 ^ e.toNat : ℕ) * 2 ^ (0 : Int)) =
            n * 10 ^ e := by
        rw [Nat.shiftLeft_eq, zpow_neg, zpow_natCast, zpow_zero, mul_one]
        push_cast
        rw [← zpow_natCast 10, Int.toNat_of_nonneg he]
        field_simp
      rwa [hscale]
  · rename_i he
    refine div_finite_eq hc ?_
    have hscale : (n : ℚ) * 2 ^ (0 : Int) / ((10 ^ (-e).toNat : ℕ) * 2 ^ (0 : Int)) = n * 10 ^ e := by
      rw [zpow_zero, mul_one, mul_one]
      push_cast
      rw [← zpow_natCast, Int.toNat_of_nonneg (by omega), zpow_neg, div_inv_eq_mul]
    rwa [hscale]

/-- A decimal is read as the machine number that its value is rounded to. -/
theorem ofDecimal_eq (hc : Canonical M E) (hn : 0 < n) (h : RoundsTo M E (n * 10 ^ e)) :
    (Number.ofDecimal n e).toModel.unpack = .finite .positive M E hc.pos := by
  unfold Number.ofDecimal Float.ofScientific
  split
  · rename_i hshort
    have hstands := standsFor_toFloat hn hshort.1
    have hpower := standsFor_powerOfTen e.natAbs (by have := hshort.2; simp [Float.exactlyRepresentablePowersOfTen]; omega)
    by_cases he : e < 0
    · simp only [he, decide_true, if_true]
      have hscale : (n : ℚ) / 10 ^ e.natAbs = n * 10 ^ e := by
        rw [div_eq_mul_inv, ← zpow_natCast, ← zpow_neg, Int.ofNat_natAbs_of_nonpos he.le, neg_neg]
      exact hstands.div hpower hc (hscale ▸ h)
    · simp only [he, decide_false, Bool.false_eq_true, if_false]
      have hscale : (n : ℚ) * 10 ^ e.natAbs = n * 10 ^ e := by
        rw [← zpow_natCast, Int.natAbs_of_nonneg (not_lt.mp he)]
      exact hstands.mul hpower (by exact_mod_cast hn) hc (hscale ▸ h)
  · have hexp : (if decide (e < 0) = true then Int.negOfNat e.natAbs else Int.ofNat e.natAbs) = e := by
      by_cases he : e < 0
      · rw [decide_eq_true he, if_pos rfl, Int.negOfNat_eq, Int.ofNat_eq_natCast]
        omega
      · rw [decide_eq_false he, if_neg (by decide), Int.ofNat_eq_natCast]
        omega
    change (Float.Model.pack (UnpackedFloat.ofScientific Format.binary64 n _)).unpack = _
    rw [hexp, ofScientific_finite_eq hc hn h]
    exact unpack_pack_finite hc

end
end Binary64

namespace Shortest

open Binary64

/-- A power with a negative exponent is kept as a factor on the other side. -/
theorem zpow_mul_pow_toNat {b : ℚ} (hb : b ≠ 0) (e : Int) : b ^ e * b ^ (-e).toNat = b ^ e.toNat := by
  rw [← zpow_natCast, ← zpow_natCast, ← zpow_add₀ hb]
  congr 1
  omega

section

variable {m n : Nat} {e k : Int}

/-- The comparisons of `Rounding.contains` are those of the numbers, times a positive one. -/
theorem exists_scale (e k : Int) : ∃ c : ℚ, 0 < c ∧
    (∀ a : Nat, ((a * Nat.pow 2 e.toNat * Nat.pow 10 (-k).toNat : ℕ) : ℚ) = a * 2 ^ e * c) ∧
    ∀ n : Nat, ((n * Nat.pow 10 k.toNat * (4 * Nat.pow 2 (-e).toNat) : ℕ) : ℚ) =
      4 * (n * 10 ^ k) * c := by
  refine ⟨2 ^ (-e).toNat * 10 ^ (-k).toNat, by positivity, fun a => ?_, fun n => ?_⟩
  · have htwo := zpow_mul_pow_toNat (two_ne_zero (α := ℚ)) e
    push_cast [Nat.pow_eq]
    rw [← htwo]
    ring
  · have hten := zpow_mul_pow_toNat (by norm_num : (10 : ℚ) ≠ 0) k
    push_cast [Nat.pow_eq]
    rw [← hten]
    ring

theorem roundsTo_of_contains (hm : 0 < m) (h : (rounding m e).contains n k = true) :
    RoundsTo m e (n * 10 ^ k) := by
  obtain ⟨c, hc, hend, hpoint⟩ := exists_scale e k
  have hbelow : ((4 * m - below m e : ℕ) : ℚ) = 4 * m - below m e := by
    have hle := below_le m e
    push_cast [Nat.cast_sub (by omega : below m e ≤ 4 * m)]
    rfl
  have hlow := hend (4 * m - below m e)
  have hhigh := hend (4 * m + 2)
  rw [hbelow] at hlow
  have hfour : ((4 * m + 2 : ℕ) : ℚ) = 4 * m + 2 := by push_cast; rfl
  rw [hfour] at hhigh
  have hcast {a b : Nat} {x y : ℚ} (ha : (a : ℚ) = x * c) (hb : (b : ℚ) = y * c) :
      (a ≤ b ↔ x ≤ y) ∧ (a < b ↔ x < y) := by
    rw [← Nat.cast_le (α := ℚ), ← Nat.cast_lt (α := ℚ), ha, hb]
    exact ⟨mul_le_mul_iff_of_pos_right hc, mul_lt_mul_iff_of_pos_right hc⟩
  have hlower := hcast hlow (hpoint n)
  have hupper := hcast (hpoint n) hhigh
  unfold Rounding.contains at h
  split at h
  · rename_i hclosed
    obtain ⟨hl, hu⟩ := Bool.and_eq_true_iff.mp h
    have hl := hlower.1.mp (of_decide_eq_true hl)
    have hu := hupper.1.mp (of_decide_eq_true hu)
    refine ⟨hl, hu, fun hodd => ?_⟩
    have heven : m % 2 = 0 := of_decide_eq_true hclosed
    omega
  · obtain ⟨hl, hu⟩ := Bool.and_eq_true_iff.mp h
    have hl := hlower.2.mp (of_decide_eq_true hl)
    have hu := hupper.2.mp (of_decide_eq_true hu)
    exact ⟨hl.le, hu.le, fun _ => ⟨hl, hu⟩⟩

theorem contains_of_neighbour? {r : Rounding} {tie : Tie} (h : r.neighbour? tie k = some n) :
    r.contains n k = true := by
  unfold Rounding.neighbour? at h
  dsimp only at h
  split at h
  · rename_i hboth
    obtain ⟨hbelow, habove⟩ := Bool.and_eq_true_iff.mp hboth
    have hcases : n = r.value * Nat.pow 10 (-k).toNat / (r.den * Nat.pow 10 k.toNat) ∨
        n = r.value * Nat.pow 10 (-k).toNat / (r.den * Nat.pow 10 k.toNat) + 1 := by
      split at h
      · exact .inl (Option.some.inj h).symm
      · exact .inr (Option.some.inj h).symm
      · cases tie with
        | upward => exact .inr (Option.some.inj h).symm
        | toEven =>
          dsimp only at h
          split at h
          · exact .inl (Option.some.inj h).symm
          · exact .inr (Option.some.inj h).symm
    rcases hcases with rfl | rfl
    · exact hbelow
    · exact habove
  · split at h
    · rename_i hbelow
      cases h
      exact hbelow
    · split at h
      · rename_i habove
        cases h
        exact habove
      · cases h

theorem value_strip (fuel : Nat) (d : Decimal) : (strip fuel d).value = d.value := by
  induction fuel generalizing d with
  | zero => rfl
  | succ fuel ih =>
    unfold strip
    split
    · rename_i hzero
      obtain ⟨n, hn⟩ := Nat.dvd_of_mod_eq_zero hzero.2
      rw [ih, Decimal.value, Decimal.value, hn, Nat.mul_div_cancel_left _ (by norm_num),
        zpow_add₀ (by norm_num), zpow_one]
      push_cast
      ring
    · rfl

/-- With enough digits the decimal is the number itself. -/
theorem roundsTo_exact {places : Nat} {k : Int} (hk : k = -(places : Int))
    (he : (-e).toNat ≤ places) : RoundsTo m e
      (Decimal.mk ((rounding m e).value * Nat.pow 10 places / (rounding m e).den) k).value := by
  obtain ⟨j, hj⟩ : 2 ^ (-e).toNat ∣ 10 ^ places :=
    (pow_dvd_pow 2 he).trans (pow_dvd_pow_of_dvd (by norm_num) places)
  have hdigits : (rounding m e).value * 10 ^ places / (rounding m e).den = m * 2 ^ e.toNat * j := by
    have hproduct : (rounding m e).value * 10 ^ places =
        (rounding m e).den * (m * 2 ^ e.toNat * j) := by
      simp only [rounding, hj, Nat.pow_eq]
      ring
    rw [hproduct]
    exact Nat.mul_div_cancel_left _ (by simp [rounding])
  have hunit : (2 : ℚ) ^ (-e).toNat * j * 10 ^ (-(places : Int)) = 1 := by
    have hj : (10 : ℚ) ^ places = 2 ^ (-e).toNat * j := by exact_mod_cast hj
    rw [← hj, zpow_neg, zpow_natCast]
    exact mul_inv_cancel₀ (by positivity)
  have hvalue : ((m * 2 ^ e.toNat * j : ℕ) : ℚ) * 10 ^ (-(places : Int)) = m * 2 ^ e := by
    push_cast
    rw [← zpow_mul_pow_toNat two_ne_zero e]
    calc (m : ℚ) * (2 ^ e * 2 ^ (-e).toNat) * j * 10 ^ (-(places : Int))
        = m * 2 ^ e * (2 ^ (-e).toNat * j * 10 ^ (-(places : Int))) := by ring
      _ = m * 2 ^ e := by rw [hunit, mul_one]
  rw [Nat.pow_eq, hdigits, hk, Decimal.value, hvalue]
  exact roundsTo_self m e

theorem roundsTo_decimal (hc : Canonical m e) (tie : Tie) : RoundsTo m e (decimal tie m e).value := by
  unfold decimal
  rw [value_strip]
  cases hhit : (List.range 17).findSome? fun (p : Nat) =>
      ((rounding m e).neighbour? tie ((rounding m e).leading - p)).map fun n =>
        Decimal.mk n ((rounding m e).leading - p) with
  | none =>
    have hlow := hc.low
    rw [Option.getD_none]
    -- the power of ten is not to be evaluated
    generalize hplaces : 1100 = places
    exact roundsTo_exact (by omega) (by omega)
  | some d =>
    obtain ⟨p, -, hp⟩ := List.exists_of_findSome?_eq_some hhit
    obtain ⟨n, hn, rfl⟩ := Option.map_eq_some_iff.mp hp
    exact roundsTo_of_contains hc.pos (contains_of_neighbour? hn)

theorem digits_pos (hc : Canonical m e) (tie : Tie) : 0 < (decimal tie m e).digits := by
  have hpos := (roundsTo_decimal hc tie).pos hc
  refine Nat.pos_of_ne_zero fun hzero => hpos.ne' ?_
  rw [Decimal.value, hzero, Nat.cast_zero, zero_mul]

end

end Shortest
end ApproxQuery
