import ApproxQuery.Proofs.Sample.Blocks
import ApproxQuery.Proofs.Value.Equality

/-!
# Decoding of encoded columns

Every stored number is the code of the value it was made from, and is decoded to that value: to an
equal one in a column that holds texts, and to its machine number in any other column.
-/

namespace ApproxQuery

variable {N : Type} [Scalar N]

omit [Scalar N] in
theorem Column.hasText_or_isText_eq_false (c : Column N) {v : Value N} (hv : v ∈ c.values) :
    c.hasText = true ∨ v.isText = false := by
  cases htext : v.isText with
  | true => exact .inl (List.any_eq_true.mpr ⟨v, hv, htext⟩)
  | false => exact .inr rfl

theorem Column.length_distinct_le {c : Column N} {max : Nat} (fit : c.isUnfit max = false)
    (text : c.hasText = true) : (Value.distinct c.present).length ≤ max := by
  simp only [isUnfit, text, Bool.true_and, Bool.or_eq_false_iff, decide_eq_false_iff_not, not_lt] at fit
  exact fit.2

/-- The code of a value of the dictionary is the place of an equal one. -/
theorem Dictionary.exists_code? {d : Dictionary N} {v : Value N} (hnull : v.isNull = false)
    (h : ∃ w ∈ d, (w == v) = true) :
    ∃ i, ∃ hlt : i < d.length, d.code? v = some (Scalar.ofNat (i + 1)) ∧ (d[i] == v) = true := by
  obtain ⟨i, hi⟩ : ∃ i, d.findIdx? (· == v) = some i :=
    Option.isSome_iff_exists.mp (List.findIdx?_isSome.trans (List.any_eq_true.mpr h))
  obtain ⟨hlt, hfound, _⟩ := List.findIdx?_eq_some_iff_getElem.mp hi
  exact ⟨i, hlt, by simp [code?, hnull, hi], hfound⟩

/-- The number stands for the value in a column, which holds texts or does not. -/
structure TableMetadata.Represents (m : TableMetadata N) (column : String) (hasText : Bool)
    (v : Value N) (x : N) : Prop where
  encode : m.encode? column v = some x
  decode : ∃ w, m.decode column x = .ok w ∧ w.isNull = v.isNull ∧
    (hasText = true → (w == v) = true) ∧
    (hasText = false → ∀ y, v.toScalar? = some y → w = .num y)

variable [LawfulScalar N]

theorem Dictionary.value?_code? {d : Dictionary N} {v : Value N} (hcount : Scalar.CountsTo N d.length)
    (h : v.isNull = false → ∃ w ∈ d, (w == v) = true) :
    ∃ x w, d.code? v = some x ∧ d.value? x = some w ∧ (w == v) = true := by
  cases hnull : v.isNull with
  | true =>
    have hzero : Scalar.isNaN (0 : N) = false := NumericScalar.isNaN_ofInt 0
    refine ⟨0, .null, if_pos hnull, ?_, ?_⟩
    · simp [value?, hzero, LawfulScalar.zero_lt_one]
    · cases v with
      | null => rfl
      | _ => cases hnull
  | false =>
    obtain ⟨i, hlt, hcode, hfound⟩ := exists_code? hnull (h hnull)
    obtain ⟨hone, hfloor⟩ := hcount (i + 1) (Nat.succ_pos i) hlt
    have hnumber : Scalar.isNaN (Scalar.ofNat (i + 1) : N) = false := NumericScalar.isNaN_ofInt _
    refine ⟨Scalar.ofNat (i + 1), d[i], hcode, ?_, hfound⟩
    unfold value?
    rw [hnumber, hone, hfloor]
    simp [List.getD_eq_getElem?_getD, List.getElem?_eq_getElem hlt]

namespace TableMetadata

variable {m : TableMetadata N} {column : String} {v : Value N}

/-- The code of a value stands for it in a column with a dictionary. -/
theorem represents_code {d : Dictionary N} (hm : m.categoricals.get? column = some d)
    (hcount : Scalar.CountsTo N d.length) (h : v.isNull = false → ∃ w ∈ d, (w == v) = true) :
    m.Represents column true v ((d.code? v).getD 0) := by
  obtain ⟨x, w, hcode, hvalue, heq⟩ := Dictionary.value?_code? hcount h
  rw [hcode, Option.getD_some]
  refine ⟨?_, w, ?_, Value.isNull_eq_of_beq heq, fun _ => heq, fun hfalse => by cases hfalse⟩
  · rw [encode?, hm]
    exact hcode
  · simp only [decode, hm, hvalue]

/-- A number, or the null marker if there is none, stands for a value in a column without texts. -/
theorem represents_number {sentinel : N} (hm : m.categoricals.get? column = none)
    (hmarker : m.nullValues.get? column = some sentinel) (hnumber : Scalar.isNaN sentinel = false)
    (hfree : ∀ x, v.toScalar? = some x → Scalar.eq x sentinel = false) (htext : v.isText = false) :
    m.Represents column false v (v.toScalar?.getD sentinel) := by
  have hdecode (x : N) : m.decode column x = .ok (if Scalar.eq sentinel x then .null else .num x) := by
    simp only [decode, hm, hmarker]
  have hencode : m.encode? column v = if v.isNull then some sentinel else v.toScalar? := by
    simp only [encode?, hm, hmarker]
  have hscalar {x : N} (hx : v.toScalar? = some x) (hnull : v.isNull = false) :
      m.Represents column false v (v.toScalar?.getD sentinel) := by
    rw [hx, Option.getD_some]
    refine ⟨by rw [hencode, hnull, hx]; rfl, .num x, ?_, by rw [hnull]; rfl,
      fun htrue => absurd htrue Bool.false_ne_true, ?_⟩
    · rw [hdecode, LawfulScalar.eq_comm, hfree x hx]
      rfl
    · rintro _ y hy
      rw [Option.some.inj (hx.symm.trans hy)]
  cases v with
  | null =>
    refine ⟨hencode, .null, ?_, rfl, fun htrue => absurd htrue Bool.false_ne_true,
      fun _ y hy => by cases hy⟩
    exact (hdecode sentinel).trans (by rw [LawfulScalar.eq_self _ hnumber]; rfl)
  | int i => exact hscalar rfl rfl
  | num x => exact hscalar rfl rfl
  | text s => cases htext

end TableMetadata

namespace EncodedColumn

/-- The metadata tells how the column is encoded. -/
def DescribedBy {N : Type} (m : TableMetadata N) (name : String) : EncodedColumn N → Prop
  | dropped => True
  | categorical d _ => m.categoricals.get? name = some d
  | numeric s _ => m.categoricals.get? name = none ∧ m.nullValues.get? name = some s

/-- The stored numbers stand for the values of the column. -/
theorem represents_of_ofColumn {table : String} {config : PreparationConfig N} {c : Column N}
    {e : EncodedColumn N} {numbers : List N} {m : TableMetadata N}
    (hcount : c.hasText = true → Scalar.CountsTo N (min config.maxUnique c.values.length))
    (h : ofColumn table config c = .ok e) (hn : e.numbers? = some numbers)
    (hm : e.DescribedBy m c.name) :
    List.Forall₂ (fun x v => m.Represents c.name c.hasText v x) numbers c.values := by
  cases encodedBy_of_ofColumn h with
  | dropped unfit => cases hn
  | categorical fit text =>
    cases hn
    have hlen : (Value.distinct c.present).length ≤ min config.maxUnique c.values.length := by
      refine le_min (Column.length_distinct_le fit text) ?_
      exact (Value.distinct_sublist _).length_le.trans List.filter_sublist.length_le
    rw [List.forall₂_map_left_iff, text]
    refine List.forall₂_same.mpr fun v hv => ?_
    refine TableMetadata.represents_code hm (fun n hpos hle => hcount text n hpos (hle.trans hlen)) ?_
    intro hnull
    exact Value.exists_mem_distinct (List.mem_filter.mpr ⟨hv, by simp [hnull]⟩)
  | @numeric sentinel fit text finite chosen =>
    cases hn
    rw [List.forall₂_map_left_iff, text]
    refine List.forall₂_same.mpr fun v hv => ?_
    have hnumber : Scalar.isNaN sentinel = false :=
      NumericScalar.isNaN_of_isFinite _ (Sentinel.isFinite_of_choose chosen)
    refine TableMetadata.represents_number hm.1 hm.2 hnumber (fun x hx => ?_) ?_
    · exact Sentinel.eq_false_of_choose chosen x (List.mem_filterMap.mpr ⟨v, hv, hx⟩)
    · exact (c.hasText_or_isText_eq_false hv).resolve_left (by simp [text])

end EncodedColumn

namespace TableMetadata.Represents

variable {m : TableMetadata N} {column : String} {hasText : Bool} {v : Value N} {x : N}

omit [LawfulScalar N] in
theorem decoded_eq_num {y : N} (h : m.Represents column false (.num y) x) :
    m.decoded column x = .num y := by
  obtain ⟨w, hw, -, -, hnumber⟩ := h.decode
  rw [decoded, hw]
  exact hnumber rfl y rfl

omit [LawfulScalar N] in
/-- A value that is its own machine number is decoded to itself. -/
theorem decoded_beq (h : m.Represents column hasText v x)
    (hv : hasText = true ∨ ∀ y, v.toScalar? = some y → (Value.num y == v) = true)
    (htext : hasText = true ∨ v.isText = false) : (m.decoded column x == v) = true := by
  obtain ⟨w, hw, hnull, hsame, hnumber⟩ := h.decode
  have hdecoded : m.decoded column x = w := by simp [decoded, hw, Except.toOption]
  rw [hdecoded]
  cases hasText with
  | true => exact hsame rfl
  | false =>
    have hv := hv.resolve_left Bool.false_ne_true
    have htext := htext.resolve_left Bool.false_ne_true
    cases v with
    | null =>
      cases w with
      | null => rfl
      | _ => cases hnull
    | int i => exact hnumber rfl _ rfl ▸ hv _ rfl
    | num y => exact hnumber rfl _ rfl ▸ hv _ rfl
    | text s => cases htext

end TableMetadata.Represents

/-- On exact numbers every stored number is decoded to a value equal to the one it was made from. -/
theorem EncodedColumn.decoded_of_ofColumn {table : String} {config : PreparationConfig ℚ} {c : Column ℚ}
    {e : EncodedColumn ℚ} {numbers : List ℚ} {m : TableMetadata ℚ}
    (h : ofColumn table config c = .ok e) (hn : e.numbers? = some numbers)
    (hm : e.DescribedBy m c.name) :
    List.Forall₂ (fun x v => (m.decoded c.name x == v) = true) numbers c.values := by
  have hrepresents := represents_of_ofColumn (fun _ => Exact.countsTo _) h hn hm
  refine (List.forall₂_iff_get.mpr ⟨hrepresents.length_eq, fun i hx hv => ?_⟩)
  have hrep := hrepresents.get hx hv
  refine hrep.decoded_beq (.inr fun y hy => Value.num_toScalar?_beq hy) ?_
  exact c.hasText_or_isText_eq_false (List.get_mem _ _)

end ApproxQuery
