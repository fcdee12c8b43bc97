import ApproxQuery.Number.Layout
import ApproxQuery.Proofs.Number.Shortest

/-!
# Numerals

A numeral is an unsigned number as it is written: digits without a leading zero, digits after a point,
and an exponent. The forms that numbers are written in are numerals, and a numeral is read as the
decimal that it stands for.
-/

namespace ApproxQuery

theorem Number.ofDigits_eq (cs : List Char) : Number.ofDigits cs = Nat.ofDigitChars 10 cs 0 :=
  Nat.ofDigitChars_eq_foldl.symm

theorem Number.ofDigits_append (cs ds : List Char) :
    Number.ofDigits (cs ++ ds) = Number.ofDigits cs * 10 ^ ds.length + Number.ofDigits ds := by
  simp only [Number.ofDigits_eq]
  rw [Nat.ofDigitChars_append, Nat.ofDigitChars_eq_ofDigitChars_zero, Nat.mul_comm]

theorem Number.ofDigits_toDigits (n : Nat) : Number.ofDigits (Nat.toDigits 10 n) = n := by
  rw [Number.ofDigits_eq, Nat.ofDigitChars_ten_toDigits]

theorem isDigit_of_mem_toDigits {n : Nat} {c : Char} (h : c ∈ Nat.toDigits 10 n) :
    c.isDigit = true :=
  Nat.isDigit_of_mem_toDigits (by decide) (by decide) h

/-- No digit stands in front. -/
def NoDigit (cs : List Char) : Prop :=
  ∀ c ∈ cs.head?, c.isDigit = false

theorem takeWhile_digits {ds rest : List Char} (hds : ∀ c ∈ ds, c.isDigit = true)
    (hrest : NoDigit rest) : (ds ++ rest).takeWhile Char.isDigit = ds := by
  rw [List.takeWhile_append_of_pos hds]
  cases rest with
  | nil => simp
  | cons c rest => simp [hrest c rfl]

theorem dropWhile_digits {ds rest : List Char} (hds : ∀ c ∈ ds, c.isDigit = true)
    (hrest : NoDigit rest) : (ds ++ rest).dropWhile Char.isDigit = rest := by
  rw [List.dropWhile_append_of_pos hds]
  cases rest with
  | nil => rfl
  | cons c rest => simp [hrest c rfl]

/-- An exponent is written with its sign. -/
structure Numeral where
  whole : List Char
  fraction : List Char
  exponent? : Option (Bool × Nat)
  digit : ∀ c ∈ whole ++ fraction, c.isDigit = true
  leading : whole = ['0'] ∨ ∃ c ∈ whole.head?, c ≠ '0'

namespace Numeral

/-- The fraction after its point, if there is one. -/
def point (n : Numeral) : List Char :=
  if n.fraction = [] then [] else '.' :: n.fraction

def power : Option (Bool × Nat) → List Char
  | none => []
  | some (negative, e) => 'e' :: (if negative then '-' else '+') :: Nat.toDigits 10 e

def text (n : Numeral) : List Char :=
  n.whole ++ n.point ++ power n.exponent?

def exponent : Option (Bool × Nat) → Int
  | none => 0
  | some (negative, e) => if negative then -(e : Int) else e

/-- The decimal that the numeral stands for. -/
def decimal (n : Numeral) : Decimal :=
  ⟨Number.ofDigits (n.whole ++ n.fraction), exponent n.exponent? - n.fraction.length⟩

variable (n : Numeral)

theorem whole_ne_nil : n.whole ≠ [] := by
  rcases n.leading with h | ⟨c, hc, -⟩
  · rw [h]
    nofun
  · rintro h
    rw [h] at hc
    cases hc

theorem isDigit_whole : ∀ c ∈ n.whole, c.isDigit = true :=
  fun c hc => n.digit c (List.mem_append_left _ hc)

theorem isDigit_fraction : ∀ c ∈ n.fraction, c.isDigit = true :=
  fun c hc => n.digit c (List.mem_append_right _ hc)

theorem noDigit_power (e? : Option (Bool × Nat)) : NoDigit (power e?) := by
  rcases e? with _ | ⟨negative, e⟩
  · nofun
  · rintro c hc
    cases hc
    decide

theorem noDigit_point_append {rest : List Char} (h : NoDigit rest) : NoDigit (n.point ++ rest) := by
  unfold point
  split
  · exact h
  · rintro c hc
    cases hc
    decide

theorem exists_text : ∃ c r, n.text = c :: r ∧ c.isDigit = true := by
  obtain ⟨c, r, hr⟩ := List.exists_cons_of_ne_nil n.whole_ne_nil
  refine ⟨c, r ++ n.point ++ power n.exponent?, ?_, n.isDigit_whole c (hr ▸ List.mem_cons_self)⟩
  rw [text, hr]
  rfl

theorem digits?_toDigits (m : Nat) : Number.digits? (Nat.toDigits 10 m) = some m := by
  unfold Number.digits?
  rw [if_pos ⟨Nat.toDigits_ne_nil, List.all_eq_true.mpr fun c hc => isDigit_of_mem_toDigits hc⟩,
    Number.ofDigits_toDigits]

theorem exponent?_power (e? : Option (Bool × Nat)) :
    Number.exponent? (power e?) = some (exponent e?) := by
  rcases e? with _ | ⟨negative, e⟩
  · rfl
  · cases negative <;>
      simp [power, Number.exponent?, Number.signedInt?, Number.splitSign, digits?_toDigits, exponent]

/-- A numeral is read as its decimal. -/
theorem decimal?_text :
    Number.decimal? n.text = some (n.decimal.digits, n.decimal.exponent) := by
  have hpower := noDigit_power n.exponent?
  have hrest := n.noDigit_point_append hpower
  have htake := takeWhile_digits n.isDigit_whole hrest
  have hdrop := dropWhile_digits n.isDigit_whole hrest
  have hne : n.whole ++ n.fraction ≠ [] := fun h => n.whole_ne_nil (List.append_eq_nil_iff.mp h).1
  have hread : (if n.whole ++ n.fraction = [] then none
      else (Number.exponent? (power n.exponent?)).map fun e =>
        (Number.ofDigits (n.whole ++ n.fraction), e - (n.fraction.length : Int))) =
      some (n.decimal.digits, n.decimal.exponent) := by
    rw [if_neg hne, exponent?_power]
    rfl
  unfold Number.decimal?
  rw [text, List.append_assoc, htake, hdrop]
  by_cases hfraction : n.fraction = []
  · rw [point, if_pos hfraction, List.nil_append]
    rw [hfraction] at hread
    rcases hexponent : n.exponent? with _ | ⟨negative, e⟩ <;> rw [hexponent] at hread <;> exact hread
  · rw [point, if_neg hfraction]
    change (if n.whole ++ (n.fraction ++ power n.exponent?).takeWhile Char.isDigit = [] then none
      else (Number.exponent? ((n.fraction ++ power n.exponent?).dropWhile Char.isDigit)).map fun e =>
        (Number.ofDigits (n.whole ++ (n.fraction ++ power n.exponent?).takeWhile Char.isDigit),
          e - (((n.fraction ++ power n.exponent?).takeWhile Char.isDigit).length : Int))) = _
    rw [takeWhile_digits n.isDigit_fraction hpower, dropWhile_digits n.isDigit_fraction hpower]
    exact hread

/-- The digits of a positive number start with one that is not zero. -/
theorem exists_toDigits {m : Nat} (hm : 0 < m) :
    ∃ c r, Nat.toDigits 10 m = c :: r ∧ c ≠ '0' := by
  induction m using Nat.strongRecOn with
  | ind m ih =>
    by_cases hlt : m < 10
    · refine ⟨m.digitChar, [], Nat.toDigits_of_lt_base hlt, ?_⟩
      interval_cases m <;> decide
    · obtain ⟨c, r, hr, hc⟩ := ih (m / 10) (by omega) (by omega)
      refine ⟨c, r ++ [(m % 10).digitChar], ?_, hc⟩
      rw [Nat.toDigits_of_base_le (by decide) (not_lt.mp hlt), hr]
      rfl

def ofNat (m : Nat) : Numeral where
  whole := Nat.toDigits 10 m
  fraction := []
  exponent? := none
  digit := by
    rw [List.append_nil]
    exact fun c hc => isDigit_of_mem_toDigits hc
  leading := by
    rcases Nat.eq_zero_or_pos m with rfl | hm
    · exact .inl (Nat.toDigits_zero 10)
    · obtain ⟨c, r, hr, hc⟩ := exists_toDigits hm
      exact .inr ⟨c, by rw [hr]; rfl, hc⟩

theorem text_ofNat (m : Nat) : (ofNat m).text = Nat.toDigits 10 m := by
  simp [text, ofNat, point, power]

end Numeral

namespace Layout

/-- The document form of a number without its sign. -/
def magnitude (d : Decimal) : List Char :=
  if isPlainRange d then
    if 0 ≤ d.exponent then positional d ++ ['.', '0'] else positional d
  else scientific d

theorem mem_zeros {n : Nat} {c : Char} (h : c ∈ zeros n) : c = '0' :=
  List.eq_of_mem_replicate h

theorem ofDigits_zeros (n : Nat) : Number.ofDigits (zeros n) = 0 := by
  rw [Number.ofDigits_eq, zeros, Nat.ofDigitChars_replicate_zero, Nat.mul_zero]

theorem isDigit_zeros {n : Nat} : ∀ c ∈ zeros n, c.isDigit = true := by
  intro c hc
  rw [mem_zeros hc]
  decide

section

variable {d : Decimal} (hd : 0 < d.digits)
include hd

/-- A whole number is written with any number of zeros after a point. -/
theorem exists_numeral_whole (he : 0 ≤ d.exponent) (k : Nat) :
    ∃ n : Numeral, positional d ++ (if k = 0 then [] else '.' :: zeros k) = n.text ∧
      n.decimal.value = d.value := by
  obtain ⟨c, r, hr, hc⟩ := Numeral.exists_toDigits hd
  refine ⟨⟨Nat.toDigits 10 d.digits ++ zeros d.exponent.toNat, zeros k, none, fun x hx => ?_,
    .inr ⟨c, by rw [hr]; rfl, hc⟩⟩, ?_, ?_⟩
  · rcases List.mem_append.mp hx with hx | hx
    · rcases List.mem_append.mp hx with hx | hx
      · exact isDigit_of_mem_toDigits hx
      · exact isDigit_zeros x hx
    · exact isDigit_zeros x hx
  · simp [positional, he, Numeral.text, Numeral.point, Numeral.power, zeros]
  · have hdigits : Number.ofDigits (Nat.toDigits 10 d.digits ++ zeros d.exponent.toNat ++ zeros k) =
        d.digits * 10 ^ d.exponent.toNat * 10 ^ k := by
      rw [Number.ofDigits_append, Number.ofDigits_append, Number.ofDigits_toDigits, ofDigits_zeros,
        ofDigits_zeros, zeros, zeros, List.length_replicate, List.length_replicate, Nat.add_zero,
        Nat.add_zero]
    have hlen : (zeros k).length = k := List.length_replicate
    simp only [Numeral.decimal, Decimal.value, hdigits, hlen, Numeral.exponent]
    push_cast
    rw [zero_sub, zpow_neg, zpow_natCast, mul_inv_cancel_right₀ (by positivity), ← zpow_natCast,
      Int.toNat_of_nonneg he]

/-- A point between two digits. -/
theorem exists_numeral_inner (he : d.exponent < 0)
    (hplaces : (-d.exponent).toNat < (Nat.toDigits 10 d.digits).length) :
    ∃ n : Numeral, positional d = n.text ∧ n.decimal.value = d.value := by
  obtain ⟨c, r, hr, hc⟩ := Numeral.exists_toDigits hd
  obtain ⟨k, hk⟩ : ∃ k, (Nat.toDigits 10 d.digits).length - (-d.exponent).toNat = k + 1 :=
    ⟨_, (Nat.sub_add_cancel (by omega)).symm⟩
  refine ⟨⟨(Nat.toDigits 10 d.digits).take (k + 1), (Nat.toDigits 10 d.digits).drop (k + 1), none,
    fun x hx => ?_, .inr ⟨c, by rw [hr]; rfl, hc⟩⟩, ?_, ?_⟩
  · rw [List.take_append_drop] at hx
    exact isDigit_of_mem_toDigits hx
  · have hne : (Nat.toDigits 10 d.digits).drop (k + 1) ≠ [] := by
      rw [ne_eq, List.drop_eq_nil_iff]
      omega
    simp [positional, he, hplaces, hk, Numeral.text, Numeral.point, hne, Numeral.power]
  · have hlen : ((Nat.toDigits 10 d.digits).drop (k + 1)).length = (-d.exponent).toNat := by
      rw [List.length_drop]
      omega
    simp only [Numeral.decimal, Decimal.value, List.take_append_drop, Number.ofDigits_toDigits, hlen,
      Numeral.exponent]
    congr 2
    omega

omit hd in
/-- A number below one starts with a zero. -/
theorem exists_numeral_small (he : d.exponent < 0)
    (hplaces : ¬ (-d.exponent).toNat < (Nat.toDigits 10 d.digits).length) :
    ∃ n : Numeral, positional d = n.text ∧ n.decimal.value = d.value := by
  obtain ⟨k, hk⟩ : ∃ k, k = (-d.exponent).toNat - (Nat.toDigits 10 d.digits).length := ⟨_, rfl⟩
  refine ⟨⟨['0'], zeros k ++ Nat.toDigits 10 d.digits, none, fun x hx => ?_, .inl rfl⟩, ?_, ?_⟩
  · rcases List.mem_append.mp hx with hx | hx
    · rw [List.mem_singleton.mp hx]
      decide
    · rcases List.mem_append.mp hx with hx | hx
      · exact isDigit_zeros x hx
      · exact isDigit_of_mem_toDigits hx
  · simp [positional, he, hplaces, hk, Numeral.text, Numeral.point, Numeral.power]
  · have hdigits : Number.ofDigits (['0'] ++ (zeros k ++ Nat.toDigits 10 d.digits)) = d.digits := by
      rw [Number.ofDigits_append, Number.ofDigits_append, Number.ofDigits_toDigits, ofDigits_zeros]
      simp [Number.ofDigits]
    have hlen : (zeros k ++ Nat.toDigits 10 d.digits).length = (-d.exponent).toNat := by
      rw [List.length_append, zeros, List.length_replicate]
      omega
    simp only [Numeral.decimal, Decimal.value, hdigits, hlen, Numeral.exponent]
    congr 2
    omega

theorem exists_numeral_scientific :
    ∃ n : Numeral, scientific d = n.text ∧ n.decimal.value = d.value := by
  obtain ⟨c, r, hr, hc⟩ := Numeral.exists_toDigits hd
  obtain ⟨e, he⟩ : ∃ e, e = d.exponent + (r.length : Nat) := ⟨_, rfl⟩
  have hpower : (if 0 ≤ e then '+' else '-') = if decide (e < 0) then '-' else '+' := by
    by_cases hneg : e < 0
    · simp [hneg]
    · simp [hneg, not_lt.mp hneg]
  have htext : scientific d = [c] ++ (if r = [] then [] else '.' :: r) ++
      Numeral.power (some (decide (e < 0), e.natAbs)) := by
    unfold scientific
    dsimp only
    rw [hr, List.length_cons, Nat.add_sub_cancel, ← he, hpower]
    cases r with
    | nil => rfl
    | cons c' r => rfl
  refine ⟨⟨[c], r, some (decide (e < 0), e.natAbs), fun x hx => ?_, .inr ⟨c, rfl, hc⟩⟩, htext, ?_⟩
  · exact isDigit_of_mem_toDigits (n := d.digits) (hr ▸ hx)
  · have hdigits : Number.ofDigits ([c] ++ r) = d.digits := by
      rw [List.singleton_append, ← hr, Number.ofDigits_toDigits]
    have hexponent : Numeral.exponent (some (decide (e < 0), e.natAbs)) = e := by
      by_cases hneg : e < 0
      · simp only [Numeral.exponent, hneg, decide_true, if_true]
        omega
      · simp only [Numeral.exponent, hneg, decide_false, Bool.false_eq_true, if_false]
        omega
    simp only [Numeral.decimal, Decimal.value, hdigits, hexponent]
    congr 2
    omega

theorem exists_numeral_positional :
    ∃ n : Numeral, positional d = n.text ∧ n.decimal.value = d.value := by
  by_cases he : 0 ≤ d.exponent
  · obtain ⟨n, htext, hvalue⟩ := exists_numeral_whole hd he 0
    exact ⟨n, (List.append_nil _).symm.trans htext, hvalue⟩
  · by_cases hplaces : (-d.exponent).toNat < (Nat.toDigits 10 d.digits).length
    · exact exists_numeral_inner hd (not_le.mp he) hplaces
    · exact exists_numeral_small (not_le.mp he) hplaces

theorem exists_numeral : ∃ n : Numeral, magnitude d = n.text ∧ n.decimal.value = d.value := by
  unfold magnitude
  split
  · split
    · rename_i he
      exact exists_numeral_whole hd he 1
    · exact exists_numeral_positional hd
  · exact exists_numeral_scientific hd

end

end Layout

namespace Number

/-- The number with this sign. -/
def withSign (negative : Bool) (x : Float) : Float :=
  if negative then -x else x

theorem toLower_of_isDigit {c : Char} (h : c.isDigit = true) : c.toLower = c := by
  have hle : c.val ≤ 57 := by
    simp only [Char.isDigit, Bool.and_eq_true, decide_eq_true_eq] at h
    exact h.2
  unfold Char.toLower
  rw [dif_neg]
  intro hupper
  have h65 := hupper.1
  rw [UInt32.le_iff_toNat_le] at hle
  change (65 : UInt32) ≤ c.val at h65
  rw [UInt32.le_iff_toNat_le] at h65
  simp at hle h65
  omega

theorem splitSign_numeral (negative : Bool) (n : Numeral) :
    splitSign (Layout.sign negative ++ n.text) = (negative, n.text) := by
  cases negative with
  | true => rfl
  | false =>
    obtain ⟨c, r, hr, hc⟩ := n.exists_text
    rw [hr]
    unfold splitSign
    split
    · rename_i heq
      cases heq
      cases hc
    · rename_i heq
      cases heq
      cases hc
    · rfl

/-- A numeral with a sign is read as its decimal with that sign. -/
theorem readFloat?_numeral (negative : Bool) (n : Numeral) :
    readFloat? (Layout.sign negative ++ n.text) =
      some (withSign negative (ofDecimal n.decimal.digits n.decimal.exponent)) := by
  obtain ⟨c, r, hr, hc⟩ := n.exists_text
  have hlower {s : String} {d : Char} (hs : s.toList.head? = some d) (hd : d.isDigit = false) :
      lower n.text ≠ s := by
    rintro rfl
    rw [hr, lower, String.toList_ofList, List.map_cons, toLower_of_isDigit hc] at hs
    cases hs
    rw [hc] at hd
    cases hd
  have hsigned {magnitude : Option Float} {x : Float} (h : magnitude = some x) :
      magnitude.map (fun x => if negative then -x else x) = some (withSign negative x) := by
    rw [h]
    rfl
  unfold readFloat?
  rw [splitSign_numeral]
  dsimp only
  refine hsigned ?_
  split
  · rename_i heq
    exact absurd heq (hlower (d := 'i') rfl rfl)
  · rename_i heq
    exact absurd heq (hlower (d := 'i') rfl rfl)
  · rename_i heq
    exact absurd heq (hlower (d := 'n') rfl rfl)
  · rw [n.decimal?_text]
    rfl

end Number

namespace Layout

open Float.Model Float.Model.UnpackedFloat Binary64

theorem unpack_neg {x : Float} {M : Nat} {E : Int} (hc : Canonical M E)
    (hx : x.toModel.unpack = .finite .positive M E hc.pos) :
    (-x).toModel.unpack = .finite .negative M E hc.pos := by
  change (Float.Model.pack (UnpackedFloat.neg x.toModel.unpack)).unpack = _
  rw [hx]
  exact unpack_pack_finite hc

theorem withSign_ofDecimal_zero {x : Float} {s : Sign} (hu : x.toModel.unpack = .zero s) {e : Int}
    (he : e = 0 ∨ e = -1) : Number.withSign (isNegative s) (Number.ofDecimal 0 e) = x := by
  apply eq_of_unpack_eq
  rw [hu]
  rcases he with rfl | rfl <;> cases s <;> rfl

/-- A decimal is read as the number that it is rounded to, with the sign in front. -/
theorem withSign_ofDecimal {x : Float} {s : Sign} {M : Nat} {E : Int} {h : 0 < M}
    (hu : x.toModel.unpack = .finite s M E h) {d : Decimal} (hround : RoundsTo M E d.value) :
    Number.withSign (isNegative s) (Number.ofDecimal d.digits d.exponent) = x := by
  have hc := canonical_of_unpack hu
  have hpos : 0 < d.digits := by
    refine Nat.pos_of_ne_zero fun hzero => (hround.pos hc).ne' ?_
    rw [Decimal.value, hzero, Nat.cast_zero, zero_mul]
  have hread := ofDecimal_eq hc hpos hround
  apply eq_of_unpack_eq
  rw [hu]
  cases s with
  | positive => exact hread
  | negative => exact unpack_neg hc hread

/-- A finite number stands for what its sign and its shortest digits, laid out as a numeral, are
read as. -/
theorem exists_numeral_layout {x : Float} (hx : x.isFinite = true) {layout : Decimal → List Char}
    (hlayout : ∀ d : Decimal, 0 < d.digits →
      ∃ n : Numeral, layout d = n.text ∧ n.decimal.value = d.value)
    (zero : Numeral) (hdigits : zero.decimal.digits = 0)
    (hexponent : zero.decimal.exponent = 0 ∨ zero.decimal.exponent = -1) (tie : Shortest.Tie) :
    ∃ negative m e n, ofFloat x = .finite negative m e ∧
      (if m = 0 then zero.text else layout (Shortest.decimal tie m e)) = Numeral.text n ∧
      Number.withSign negative (Number.ofDecimal n.decimal.digits n.decimal.exponent) = x := by
  have hx : x.toModel.unpack.isFinite = true := hx
  cases hu : x.toModel.unpack with
  | notANumber =>
    rw [hu] at hx
    cases hx
  | infinity s =>
    rw [hu] at hx
    cases hx
  | zero s =>
    refine ⟨_, _, _, zero, ofFloat_of_zero hu, if_pos rfl, ?_⟩
    rw [hdigits]
    exact withSign_ofDecimal_zero hu hexponent
  | finite s M E h =>
    have hc := canonical_of_unpack hu
    obtain ⟨n, htext, hvalue⟩ := hlayout _ (Shortest.digits_pos hc tie)
    have hround := Shortest.roundsTo_decimal hc tie
    rw [← hvalue] at hround
    exact ⟨_, _, _, n, ofFloat_of_unpack hu, (if_neg hc.pos.ne').trans htext,
      withSign_ofDecimal hu hround⟩

/-- The document form of a finite number is a numeral with a sign, and stands for the number. -/
theorem exists_numeral_document {x : Float} (hx : x.isFinite = true) :
    ∃ negative n, document x = String.ofList (sign negative ++ Numeral.text n) ∧
      Number.withSign negative (Number.ofDecimal n.decimal.digits n.decimal.exponent) = x := by
  obtain ⟨negative, m, e, n, hfloat, htext, hvalue⟩ :=
    exists_numeral_layout hx (fun _ => exists_numeral) ⟨['0'], ['0'], none, by simp, .inl rfl⟩
      rfl (.inr rfl) .toEven
  refine ⟨negative, n, ?_, hvalue⟩
  unfold document
  rw [hfloat, ← htext]
  dsimp only
  split <;> rfl

/-- The plain form of a finite number is a numeral with a sign, and stands for the number. -/
theorem exists_numeral_plain {x : Float} (hx : x.isFinite = true) :
    ∃ negative n, plain x = String.ofList (sign negative ++ Numeral.text n) ∧
      Number.withSign negative (Number.ofDecimal n.decimal.digits n.decimal.exponent) = x := by
  obtain ⟨negative, m, e, n, hfloat, htext, hvalue⟩ :=
    exists_numeral_layout hx (fun _ => exists_numeral_positional) (.ofNat 0) rfl (.inl rfl)
      .upward
  refine ⟨negative, n, ?_, hvalue⟩
  unfold plain
  rw [hfloat, ← htext]
  rfl

end Layout

end ApproxQuery
