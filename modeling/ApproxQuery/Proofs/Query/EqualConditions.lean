import ApproxQuery.Proofs.Number.Integers
import ApproxQuery.Proofs.Value.Equality
import ApproxQuery.Query.Condition

/-!
# Equal conditions on equal values

Equal conditions hold of equal values alike, unless one of the two comparisons is of two integers and
the other is not: integers are compared exactly, and all else after rounding to machine numbers, which
can make two integers one.
-/

namespace ApproxQuery

namespace Binary64

theorem compare?_swap (x y : Float) : compare? y x = (compare? x y).map Ordering.swap := by
  rw [compare?_eq, compare?_eq, compare_swap]

theorem compare?_congr_left {x x' : Float} (h : Scalar.canonical x = Scalar.canonical x') (y : Float) :
    compare? x y = compare? x' y := by
  have hcases : x = x' ∨ (x == 0.0) = true ∧ (x' == 0.0) = true := by
    change (if x == 0.0 then 0.0 else x) = if x' == 0.0 then 0.0 else x' at h
    have hzero : ((0.0 : Float) == 0.0) = true := by decide +kernel
    split_ifs at h with hx hx' hx'
    · exact .inr ⟨hx, hx'⟩
    · exact absurd (h ▸ hzero) hx'
    · exact absurd (h ▸ hzero) hx
    · exact .inl h
  rcases hcases with rfl | ⟨hx, hx'⟩
  · rfl
  · obtain ⟨s, hs⟩ := beq_zero_iff.mp hx
    obtain ⟨t, ht⟩ := beq_zero_iff.mp hx'
    rw [compare?_eq, compare?_eq, hs, ht]
    cases y.toModel.unpack with
    | infinity u => cases u <;> rfl
    | finite u m e h => cases u <;> rfl
    | _ => rfl

theorem compare?_congr {x x' y y' : Float} (hx : Scalar.canonical x = Scalar.canonical x')
    (hy : Scalar.canonical y = Scalar.canonical y') : compare? x y = compare? x' y' := by
  rw [compare?_congr_left hx, compare?_swap, compare?_congr_left hy, ← compare?_swap]

end Binary64

namespace Value

/-- The order of two texts or of two numbers, which integers are rounded to. -/
def roundedOrder? (v w : Value Float) : Option Ordering :=
  match v.toText?, w.toText? with
  | some s, some t => some (compare s t)
  | none, none => v.toScalar?.bind fun x => w.toScalar?.bind (Scalar.compare? x)
  | _, _ => none

def BothIntegers (v w : Value Float) : Prop :=
  ∃ i j, v = int i ∧ w = int j

variable {v w a b : Value Float} {i j : Int64}

theorem compare?_eq_roundedOrder? (h : ¬ BothIntegers v a) : v.compare? a = v.roundedOrder? a := by
  cases v with
  | int i =>
    cases a with
    | int j => exact absurd ⟨i, j, rfl, rfl⟩ h
    | _ => rfl
  | _ => cases a <;> rfl

theorem toText?_congr (h : (v == w) = true) : v.toText? = w.toText? := by
  change v.eq w = true at h
  cases v <;> cases w <;> simp_all [eq, toText?]

theorem integer?_of_word? {x : Float} (h : word? x = some i) : Scalar.integer? x = some i.toInt := by
  obtain ⟨n, hn, hi⟩ := Option.bind_eq_some_iff.mp h
  rw [hn, toInt_of_int64? hi]

/-- A number that is equal to an integer is what the integer is rounded to. -/
theorem canonical_of_word? {x : Float} (h : word? x = some i) :
    Scalar.canonical (Scalar.ofInt i.toInt : Float) = Scalar.canonical x := by
  have hx := integer?_of_word? h
  obtain ⟨hfinite, hvalue⟩ := Binary64.toRat_ofInt_of_integer? hx
  exact LawfulScalar.canonical_eq _ _ _ (Binary64.integer?_of_toRat hfinite hvalue) hx

theorem toScalar?_congr (h : (v == w) = true) : v.toScalar? = none ∧ w.toScalar? = none ∨
    ∃ x y, v.toScalar? = some x ∧ w.toScalar? = some y ∧ Scalar.canonical x = Scalar.canonical y := by
  change v.eq w = true at h
  cases v with
  | null => cases w <;> simp_all [eq, toScalar?]
  | text s => cases w <;> simp_all [eq, toScalar?]
  | int i =>
    cases w with
    | null => cases h
    | text s => cases h
    | int j =>
      cases beq_iff_eq.mp h
      exact .inr ⟨_, _, rfl, rfl, rfl⟩
    | num y => exact .inr ⟨_, _, rfl, rfl, canonical_of_word? (beq_iff_eq.mp h)⟩
  | num x =>
    cases w with
    | null => cases h
    | text s => cases h
    | int j => exact .inr ⟨_, _, rfl, rfl, (canonical_of_word? (beq_iff_eq.mp h)).symm⟩
    | num y => exact .inr ⟨_, _, rfl, rfl, key_num_eq_num.mp (beq_iff_key.mp h)⟩

theorem roundedOrder?_congr (hv : (v == w) = true) (ha : (a == b) = true) :
    v.roundedOrder? a = w.roundedOrder? b := by
  unfold roundedOrder?
  rw [toText?_congr hv, toText?_congr ha]
  have hnumbers : (v.toScalar?.bind fun x => a.toScalar?.bind (Scalar.compare? x)) =
      w.toScalar?.bind fun x => b.toScalar?.bind (Scalar.compare? x) := by
    rcases toScalar?_congr hv with ⟨hv, hw⟩ | ⟨x, y, hv, hw, hxy⟩
    · rw [hv, hw]
      rfl
    · rcases toScalar?_congr ha with ⟨ha, hb⟩ | ⟨p, q, ha, hb, hpq⟩
      · rw [hv, hw, ha, hb]
        rfl
      · rw [hv, hw, ha, hb]
        exact Binary64.compare?_congr hxy hpq
  rw [hnumbers]

theorem compare_toInt (i j : Int64) : compare i.toInt j.toInt = compare i j := by
  change compareOfLessAndEq i.toInt j.toInt = compareOfLessAndEq i j
  unfold compareOfLessAndEq
  simp only [Int64.lt_iff_toInt_lt, Int64.toInt_inj]

theorem natAbs_toInt_lt (i : Int64) : i.toInt.natAbs < 2 ^ 64 := by
  have hle := i.le_toInt
  have hlt := i.toInt_lt
  omega

theorem compare?_eq_rounded (hw : (int i == w) = true) (hb : (int j == b) = true)
    (h : ¬ BothIntegers w b) :
    w.compare? b = Scalar.compare? (Scalar.ofInt i.toInt : Float) (Scalar.ofInt j.toInt) := by
  rw [compare?_eq_roundedOrder? h, ← roundedOrder?_congr hw hb]
  rfl

/-- Integers that are compared after rounding are ordered as they are, or not told apart. -/
theorem compare?_eq_or (hw : (int i == w) = true) (hb : (int j == b) = true)
    (h : ¬ BothIntegers w b) : w.compare? b = some (compare i j) ∨ w.compare? b = some .eq := by
  rw [compare?_eq_rounded hw hb h, ← compare_toInt]
  cases w with
  | null => cases hw
  | text s => cases hw
  | num x =>
    exact Binary64.compare?_ofInt (integer?_of_word? (beq_iff_eq.mp hw)) (natAbs_toInt_lt j)
  | int k =>
    cases b with
    | null => cases hb
    | text s => cases hb
    | int l => exact absurd ⟨k, l, rfl, rfl⟩ h
    | num y =>
      change Binary64.compare? (Float.ofInt i.toInt) (Float.ofInt j.toInt) = _ ∨
        Binary64.compare? (Float.ofInt i.toInt) (Float.ofInt j.toInt) = _
      rw [Binary64.compare?_swap, ← Int.compare_swap]
      exact (Binary64.compare?_ofInt (integer?_of_word? (beq_iff_eq.mp hb)) (natAbs_toInt_lt i)).imp
        (congrArg (Option.map Ordering.swap)) (congrArg (Option.map Ordering.swap))

/-- One comparison is of these integers, the other one is not of integers, and both integers are
rounded to one machine number. -/
def Torn (v a w b : Value Float) (i j : Int64) : Prop :=
  ((v = int i ∧ a = int j ∧ ¬ BothIntegers w b) ∨ (w = int i ∧ b = int j ∧ ¬ BothIntegers v a)) ∧
    Scalar.eq (Scalar.ofInt i.toInt : Float) (Scalar.ofInt j.toInt) = true

theorem Torn.symm (h : Torn v a w b i j) : Torn w b v a i j :=
  ⟨h.1.symm, h.2⟩

theorem Torn.eq_of_not_bothIntegers {k l : Int64} (h : Torn (int i) (int j) w b k l)
    (hwb : ¬ BothIntegers w b) : k = i ∧ l = j := by
  rcases h.1 with ⟨hv, ha, -⟩ | ⟨rfl, rfl, -⟩
  · cases hv
    cases ha
    exact ⟨rfl, rfl⟩
  · exact absurd ⟨k, l, rfl, rfl⟩ hwb

end Value

namespace Condition

open Value

variable {c d : Condition Float} {v w a b : Value Float} {i j : Int64}

theorem eq_of_beq (h : (c == d) = true) :
    c.column = d.column ∧ c.operator = d.operator ∧ (c.literal == d.literal) = true := by
  change c.eq d = true at h
  simp only [eq, Bool.and_eq_true, beq_iff_eq] at h
  exact ⟨h.1.1, h.1.2, h.2⟩

theorem contains_congr {vs ws : List (Value Float)} (h : (vs == ws) = true) (hv : (v == w) = true) :
    vs.contains v = ws.contains w := by
  induction vs generalizing ws with
  | nil =>
    cases ws with
    | nil => rfl
    | cons b ws => cases h
  | cons a vs ih =>
    cases ws with
    | nil => cases h
    | cons b ws =>
      obtain ⟨ha, hvs⟩ := Bool.and_eq_true_iff.mp h
      rw [List.contains_cons, List.contains_cons, ih hvs, beq_congr hv ha]

/-- Whether the order of a value and a literal, if they have one, satisfies the operator. -/
def Admits (op : Operator) (v a : Value Float) : Bool :=
  (v.compare? a).any op.admits

/-- Null has no order, so the order alone decides. -/
theorem holds_single (c : Condition Float) (hc : c.literal = .single a)
    (hnull : c.operator ≠ .isNull) (hnotNull : c.operator ≠ .isNotNull) (v : Value Float) :
    c.holds v = Admits c.operator v a := by
  have horder : c.holds v = (!v.isNull && Admits c.operator v a) := by
    obtain ⟨column, operator, literal⟩ := c
    cases hc
    cases operator with
    | isNull => exact absurd rfl hnull
    | isNotNull => exact absurd rfl hnotNull
    | _ => rfl
  rw [horder]
  cases v with
  | null => cases a <;> rfl
  | _ => rfl

theorem admits_congr_iff_of_integers (op : Operator) (hw : (int i == w) = true)
    (hb : (int j == b) = true) (h : ¬ BothIntegers w b) :
    Admits op (int i) (int j) = Admits op w b ↔
      ∀ k l, Torn (int i) (int j) w b k l → op.admits (compare k l) = op.admits .eq := by
  have hlost : Scalar.eq (Scalar.ofInt i.toInt : Float) (Scalar.ofInt j.toInt) = true ↔
      w.compare? b = some .eq := by
    rw [compare?_eq_rounded hw hb h]
    exact beq_iff_eq
  have hexact : Admits op (int i) (int j) = op.admits (compare i j) := rfl
  have htorn : (∀ k l, Torn (int i) (int j) w b k l → op.admits (compare k l) = op.admits .eq) ↔
      (w.compare? b = some .eq → op.admits (compare i j) = op.admits .eq) := by
    constructor
    · exact fun hall heq => hall i j ⟨.inl ⟨rfl, rfl, h⟩, hlost.mpr heq⟩
    · intro himp k l htorn
      obtain ⟨rfl, rfl⟩ := htorn.eq_of_not_bothIntegers h
      exact himp (hlost.mp htorn.2)
  rw [htorn, hexact]
  unfold Admits
  rcases compare?_eq_or hw hb h with heq | heq
  · rw [heq]
    exact iff_of_true rfl fun h => by rw [Option.some.inj h]
  · rw [heq]
    exact ⟨fun h _ => h, fun h => h rfl⟩

theorem admits_congr_iff (op : Operator) (hv : (v == w) = true) (ha : (a == b) = true) :
    Admits op v a = Admits op w b ↔
      ∀ i j, Torn v a w b i j → op.admits (compare i j) = op.admits .eq := by
  by_cases hva : BothIntegers v a
  · obtain ⟨i, j, rfl, rfl⟩ := hva
    by_cases hwb : BothIntegers w b
    · obtain ⟨k, l, rfl, rfl⟩ := hwb
      have hik : i = k := beq_iff_eq.mp hv
      have hjl : j = l := beq_iff_eq.mp ha
      subst hik hjl
      refine iff_of_true rfl fun k l htorn => ?_
      rcases htorn.1 with ⟨-, -, h⟩ | ⟨-, -, h⟩
      · exact absurd ⟨i, j, rfl, rfl⟩ h
      · exact absurd ⟨i, j, rfl, rfl⟩ h
    · exact admits_congr_iff_of_integers op hv ha hwb
  · by_cases hwb : BothIntegers w b
    · obtain ⟨i, j, rfl, rfl⟩ := hwb
      have hswapped := admits_congr_iff_of_integers op (beq_comm v (int i) ▸ hv)
        (beq_comm a (int j) ▸ ha) hva
      rw [eq_comm, hswapped]
      exact forall₂_congr fun k l => ⟨fun h htorn => h htorn.symm, fun h htorn => h htorn.symm⟩
    · unfold Admits
      rw [compare?_eq_roundedOrder? hva, compare?_eq_roundedOrder? hwb, roundedOrder?_congr hv ha]
      refine iff_of_true rfl fun k l htorn => ?_
      rcases htorn.1 with ⟨rfl, rfl, -⟩ | ⟨rfl, rfl, -⟩
      · exact absurd ⟨k, l, rfl, rfl⟩ hva
      · exact absurd ⟨k, l, rfl, rfl⟩ hwb

/-- Equal conditions hold of equal values alike exactly if rounding does not change the answer on
integers that only one of the two comparisons rounds. -/
theorem holds_congr_iff (hc : (c == d) = true) (hv : (v == w) = true) :
    c.holds v = d.holds w ↔ ∀ a b i j, c.literal = .single a → d.literal = .single b →
      Torn v a w b i j → c.operator.admits (compare i j) = c.operator.admits .eq := by
  obtain ⟨-, hoperator, hliteral⟩ := eq_of_beq hc
  have hisNull := isNull_eq_of_beq hv
  obtain ⟨column, op, literal⟩ := c
  obtain ⟨column', op', literal'⟩ := d
  cases hoperator
  cases literal with
  | absent =>
    cases literal' with
    | absent =>
      refine iff_of_true ?_ nofun
      cases op <;> simp [holds, hisNull]
    | single b => cases hliteral
    | list ws => cases hliteral
  | list vs =>
    cases literal' with
    | absent => cases hliteral
    | single b => cases hliteral
    | list ws =>
      refine iff_of_true ?_ nofun
      have hcontains : vs.contains v = ws.contains w := contains_congr hliteral hv
      cases op <;> simp [holds, hisNull, hcontains]
  | single a =>
    cases literal' with
    | absent => cases hliteral
    | list ws => cases hliteral
    | single b =>
      have ha : (a == b) = true := hliteral
      by_cases hnull : op = .isNull
      · subst hnull
        exact iff_of_true hisNull fun _ _ _ _ _ _ _ => rfl
      by_cases hnotNull : op = .isNotNull
      · subst hnotNull
        exact iff_of_true (congrArg (!·) hisNull) fun _ _ _ _ _ _ _ => rfl
      rw [holds_single _ rfl hnull hnotNull, holds_single _ rfl hnull hnotNull,
        admits_congr_iff op hv ha]
      constructor
      · rintro h _ _ i j ⟨⟩ ⟨⟩ htorn
        exact h i j htorn
      · exact fun h i j htorn => h a b i j rfl rfl htorn

end Condition

/-! Keys up to `2 ^ 53` are machine numbers, the next one is not. -/

namespace LargeKeys

/-- The key is the value. -/
def isKey (v : Value Float) : Condition Float :=
  .equals ⟨"t", "id"⟩ v

theorem holds_congr_iff_seven : (isKey (.int 7) == isKey (.num 7.0)) = true ∧
    (Value.int 7 == Value.num (7.0 : Float)) = true ∧
    (isKey (.int 7)).holds (.int 7) = (isKey (.num 7.0)).holds (.num 7.0) := by
  have hcondition : (isKey (.int 7) == isKey (.num 7.0)) = true := by decide +kernel
  have hvalue : (Value.int 7 == Value.num (7.0 : Float)) = true := by decide +kernel
  refine ⟨hcondition, hvalue, (Condition.holds_congr_iff hcondition hvalue).mpr ?_⟩
  rintro _ _ i j ⟨⟩ ⟨⟩ htorn
  rcases htorn.1 with ⟨hi, hj, -⟩ | ⟨hi, -, -⟩
  · cases hi
    cases hj
    rfl
  · cases hi

/-- One condition on two equal values: as a number the key is rounded, as an integer it is not. -/
theorem holds_of_equal_value_only :
    (isKey (.int 9007199254740993) == isKey (.int 9007199254740993)) = true ∧
    (Value.num (9007199254740992.0 : Float) == Value.int 9007199254740992) = true ∧
    (isKey (.int 9007199254740993)).holds (.num 9007199254740992.0) = true ∧
    (isKey (.int 9007199254740993)).holds (.int 9007199254740992) = false := by
  decide +kernel

end LargeKeys

end ApproxQuery
