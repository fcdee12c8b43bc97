import ApproxQuery.Proofs.Query.EqualConditions

/-!
# Membership as a disjunction of equalities

A value is in a list if it is equal to one of the members, and so it satisfies the equality with that
member. The two part ways where the equality of values and the order differ: all that are not numbers
are equal, but have no order, and an integer is ordered as what it is rounded to, which may be another
number.
-/

open Float.Model Float.Model.UnpackedFloat

namespace ApproxQuery

namespace Binary64

variable {x y : Float}

/-- Only the two zeros are equal and not the same. -/
theorem eq_or_zero_of_compare {u v : UnpackedFloat} (h : u.compare v = some .eq) :
    u = v ∨ (∃ s, u = .zero s) ∧ ∃ t, v = .zero t := by
  cases u with
  | notANumber => cases v <;> cases h
  | infinity s =>
    cases v with
    | infinity t => cases s <;> cases t <;> first | exact .inl rfl | cases h
    | _ => cases s <;> cases h
  | zero s =>
    cases v with
    | zero t => exact .inr ⟨⟨s, rfl⟩, t, rfl⟩
    | notANumber => cases h
    | infinity t => cases t <;> cases h
    | finite t n f k => cases t <;> cases h
  | finite s m e k =>
    cases v with
    | notANumber => cases h
    | infinity t => cases t <;> cases h
    | zero t => cases s <;> cases h
    | finite t n f l =>
      have hparts : s = t ∧ (compare e f).then (compare m n) = .eq := by
        cases s <;> cases t
        · exact ⟨rfl, Ordering.swap_inj.mp (Option.some.inj h)⟩
        · cases h
        · cases h
        · exact ⟨rfl, Option.some.inj h⟩
      obtain ⟨rfl, hparts⟩ := hparts
      obtain ⟨hexponent, hmantissa⟩ := Ordering.then_eq_eq.mp hparts
      cases Int.compare_eq_eq.mp hexponent
      cases Nat.compare_eq_eq.mp hmantissa
      exact .inl rfl

theorem unpack_of_isNaN (h : Scalar.isNaN x = true) : x.toModel.unpack = .notANumber := by
  by_contra hne
  rw [isNaN_eq_false.mpr hne] at h
  cases h

theorem compare?_eq_none (h : Scalar.isNaN x = true) (y : Float) : compare? x y = none := by
  rw [compare?_eq, unpack_of_isNaN h]
  cases y.toModel.unpack <;> rfl

/-- The order takes for equal what stands for one number. -/
theorem eq_iff : Scalar.eq x y = true ↔
    Scalar.canonical x = Scalar.canonical y ∧ Scalar.isNaN x = false := by
  have heq {y : Float} : Scalar.eq x y = true ↔ compare? x y = some .eq := beq_iff_eq
  constructor
  · intro h
    have hcompare := heq.mp h
    refine ⟨?_, Bool.eq_false_iff.mpr fun hnan => ?_⟩
    · rw [compare?_eq] at hcompare
      rcases eq_or_zero_of_compare hcompare with hunpack | ⟨⟨s, hx⟩, t, hy⟩
      · rw [eq_of_unpack_eq hunpack]
      · rw [canonical_of_zero hx, canonical_of_zero hy]
    · rw [compare?_eq_none hnan] at hcompare
      cases hcompare
  · rintro ⟨hcanonical, hnan⟩
    rw [heq, ← compare?_congr rfl hcanonical]
    exact heq.mp (LawfulScalar.eq_self x hnan)

theorem isNaN_congr (h : Scalar.canonical x = Scalar.canonical y) :
    Scalar.isNaN x = Scalar.isNaN y :=
  congrArg Option.isNone (compare?_congr h h)

theorem isNaN_of_integer? {i : Int} (h : Scalar.integer? x = some i) : Scalar.isNaN x = false := by
  refine isNaN_eq_false.mpr fun hx => ?_
  rcases unpack_of_integer? h with ⟨⟨s, hs⟩, -⟩ | ⟨⟨s, m, e, k, hs⟩, -⟩
  · cases hx.symm.trans hs
  · cases hx.symm.trans hs

end Binary64

namespace Value

/-- The value is of the kind of numbers, but not a number. -/
def isNaN {N : Type} [Scalar N] : Value N → Bool
  | num x => Scalar.isNaN x
  | _ => false

/-- The value is compared with others: it is not null and, in the kind of numbers, it is one. -/
def Ordered {N : Type} [Scalar N] (v : Value N) : Prop :=
  v.isNull = false ∧ v.isNaN = false

/-- An integer and a number that differ, but are one when the integer is rounded. -/
def Blurred : Value Float → Value Float → Prop
  | int i, num x | num x, int i =>
    (int i == num x) = false ∧ Scalar.eq (Scalar.ofInt i.toInt) x = true
  | _, _ => False

/-- The values are equal and ordered, or rounding makes them one. -/
def Alike (v w : Value Float) : Prop :=
  (v == w) = true ∧ v.Ordered ∨ Blurred v w

variable {v w : Value Float} {i j : Int64} {x y : Float}

theorem num_beq_num : (num x == num y) = true ↔ Scalar.canonical x = Scalar.canonical y :=
  beq_iff_key.trans key_num_eq_num

theorem isNaN_eq_of_beq (h : (v == w) = true) : v.isNaN = w.isNaN := by
  cases v with
  | num x =>
    cases w with
    | null => cases h
    | text s => cases h
    | int j => exact Binary64.isNaN_of_integer? (integer?_of_word? (beq_iff_eq.mp h))
    | num y => exact Binary64.isNaN_congr (num_beq_num.mp h)
  | null => cases w <;> first | rfl | cases h
  | text s => cases w <;> first | rfl | cases h
  | int i =>
    cases w with
    | num y => exact (Binary64.isNaN_of_integer? (integer?_of_word? (beq_iff_eq.mp h))).symm
    | _ => rfl

/-- All that are not numbers are equal. -/
theorem beq_of_isNaN (hv : v.isNaN = true) (hw : w.isNaN = true) : (v == w) = true := by
  cases v with
  | num x =>
    cases w with
    | num y =>
      have hunpack := (Binary64.unpack_of_isNaN hv).trans (Binary64.unpack_of_isNaN hw).symm
      rw [Binary64.eq_of_unpack_eq hunpack]
      exact beq_refl _
    | _ => cases hw
  | _ => cases hv

theorem Blurred.ordered (h : Blurred v w) : v.Ordered := by
  cases v with
  | int i => exact ⟨rfl, rfl⟩
  | num x =>
    cases w with
    | int i =>
      obtain ⟨hcanonical, hi⟩ := Binary64.eq_iff.mp h.2
      exact ⟨rfl, (Binary64.isNaN_congr hcanonical).symm.trans hi⟩
    | _ => cases h
  | _ => cases h

theorem Alike.ordered (h : Alike v w) : v.Ordered :=
  h.elim And.right Blurred.ordered

theorem eq_ofInt_iff : Scalar.eq (Scalar.ofInt i.toInt) x = true ↔
    (int i == num x) = true ∨ Blurred (int i) (num x) := by
  constructor
  · intro h
    cases hbeq : (int i == num x) with
    | true => exact .inl rfl
    | false => exact .inr ⟨hbeq, h⟩
  · rintro (hbeq | hblurred)
    · exact Binary64.eq_iff.mpr ⟨canonical_of_word? (beq_iff_eq.mp hbeq), NumericScalar.isNaN_ofInt _⟩
    · exact hblurred.2

theorem compare?_eq_some_eq : v.compare? w = some .eq ↔ Alike v w := by
  unfold Alike
  cases v with
  | null =>
    refine iff_of_false (fun h => ?_) fun h => ?_
    · cases w <;> cases h
    · cases (Alike.ordered h).1
  | text s =>
    cases w with
    | text t =>
      change some (compare s t) = some .eq ↔ (s == t) = true ∧ _ ∨ False
      simp [Ordered, isNull, isNaN]
    | _ => exact iff_of_false (by rintro ⟨⟩) (by rintro (⟨h, -⟩ | h) <;> cases h)
  | int i =>
    cases w with
    | int j =>
      change some (compare i j) = some .eq ↔ (i == j) = true ∧ _ ∨ False
      rw [← compare_toInt]
      simp [Ordered, isNull, isNaN, Int64.toInt_inj]
    | num x =>
      have horder : (int i).compare? (num x) = some .eq ↔ Scalar.eq (Scalar.ofInt i.toInt) x = true :=
        beq_iff_eq.symm
      rw [horder, eq_ofInt_iff]
      simp [Ordered, isNull, isNaN]
    | _ => exact iff_of_false (by rintro ⟨⟩) (by rintro (⟨h, -⟩ | h) <;> cases h)
  | num x =>
    cases w with
    | num y =>
      have horder : (num x).compare? (num y) = some .eq ↔ Scalar.eq x y = true := beq_iff_eq.symm
      rw [horder, Binary64.eq_iff, num_beq_num]
      simp [Ordered, isNull, isNaN, Blurred]
    | int j =>
      have horder : (num x).compare? (int j) = some .eq ↔ Scalar.eq x (Scalar.ofInt j.toInt) = true :=
        beq_iff_eq.symm
      rw [horder, LawfulScalar.eq_comm, eq_ofInt_iff, beq_comm (num x)]
      have hnan (h : (int j == num x) = true) : (num x).isNaN = false := (isNaN_eq_of_beq h).symm
      exact or_congr ⟨fun h => ⟨h, rfl, hnan h⟩, And.left⟩ Iff.rfl
    | _ => exact iff_of_false (by rintro ⟨⟩) (by rintro (⟨h, -⟩ | h) <;> cases h)

end Value

namespace Condition

open Value

variable {a : AttributeRef} {v w : Value Float} {vs : List (Value Float)}

theorem equals_holds_iff : (equals a w).holds v = true ↔ Alike v w := by
  rw [holds_single (equals a w) rfl nofun nofun, ← compare?_eq_some_eq]
  change (v.compare? w).any (· == .eq) = true ↔ _
  simp [Option.any_eq_true]

/-- The value of the column is in the list. -/
def memberOf (column : AttributeRef) (vs : List (Value Float)) : Condition Float :=
  ⟨column, .isIn, .list vs⟩

theorem memberOf_holds_iff : (memberOf a vs).holds v = true ↔
    v.isNull = false ∧ ∃ w ∈ vs, (v == w) = true := by
  change (!v.isNull && vs.contains v) = true ↔ _
  rw [Bool.and_eq_true, Bool.not_eq_true', List.contains_iff_exists_mem_beq]

/-- Membership in a list agrees with the equalities with its members exactly if the value and a member
are not both no numbers, and the value is in the list whenever rounding makes it one with a member. -/
theorem memberOf_holds_iff_exists_iff (column : AttributeRef) (vs : List (Value Float))
    (v : Value Float) :
    ((memberOf column vs).holds v = true ↔ ∃ w ∈ vs, (equals column w).holds v = true) ↔
      (v.isNaN = true → ∀ w ∈ vs, w.isNaN = false) ∧
        ∀ w ∈ vs, Blurred v w → ∃ u ∈ vs, (v == u) = true := by
  simp only [memberOf_holds_iff, equals_holds_iff]
  by_cases hnan : v.isNaN = true
  · have hnull : v.isNull = false := by cases v <;> first | rfl | cases hnan
    have hordered : ¬ v.Ordered := by
      rintro ⟨-, hfalse⟩
      rw [hfalse] at hnan
      cases hnan
    have hequals : ¬ ∃ w ∈ vs, Alike v w := by
      rintro ⟨w, -, h⟩
      exact hordered h.ordered
    constructor
    · refine fun hiff => ⟨fun _ w hw => ?_, fun w _ h => absurd h.ordered hordered⟩
      rw [← Bool.not_eq_true]
      exact fun hwnan => hequals (hiff.mp ⟨hnull, w, hw, beq_of_isNaN hnan hwnan⟩)
    · rintro ⟨hnumbers, -⟩
      refine iff_of_false ?_ hequals
      rintro ⟨-, w, hw, hvw⟩
      have hwnan := hnumbers hnan w hw
      rw [← isNaN_eq_of_beq hvw, hnan] at hwnan
      cases hwnan
  · constructor
    · exact fun hiff => ⟨fun h => absurd h hnan, fun w hw h => (hiff.mpr ⟨w, hw, .inr h⟩).2⟩
    · rintro ⟨-, hmember⟩
      constructor
      · rintro ⟨hnull, w, hw, hvw⟩
        exact ⟨w, hw, .inl ⟨hvw, hnull, Bool.eq_false_iff.mpr hnan⟩⟩
      · rintro ⟨w, hw, ⟨hvw, hordered⟩ | h⟩
        · exact ⟨hordered.1, w, hw, hvw⟩
        · exact ⟨h.ordered.1, hmember w hw h⟩

end Condition

namespace LargeKeys

/-- The key is equal to the number before it, but not in the list of that number; what is no number is
in the list of itself, but not equal to itself. -/
theorem memberOf_holds_not_equals :
    ((Condition.memberOf ⟨"t", "id"⟩ [.num 9007199254740992.0]).holds (.int 9007199254740993) = false ∧
      ∃ w ∈ [Value.num (9007199254740992.0 : Float)],
        (Condition.equals ⟨"t", "id"⟩ w).holds (.int 9007199254740993) = true) ∧
    (Condition.memberOf ⟨"t", "id"⟩ [.num (0.0 / 0.0)]).holds (.num (0.0 / 0.0 : Float)) = true ∧
      ¬ ∃ w ∈ [Value.num (0.0 / 0.0 : Float)],
        (Condition.equals ⟨"t", "id"⟩ w).holds (.num (0.0 / 0.0)) = true := by
  decide +kernel

end LargeKeys

end ApproxQuery
