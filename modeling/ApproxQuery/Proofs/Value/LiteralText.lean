import ApproxQuery.Proofs.Document.Parts
import ApproxQuery.Proofs.Number.PlainText
import ApproxQuery.Proofs.Text.Blank
import ApproxQuery.Value.Literal

/-!
# Values read back from their literals

A literal is read as a value that is equal to the one written, except that the literal of a number may
be read as an integer: the value is then equal if that integer is the number. No literal has blanks
at its ends.
-/

namespace ApproxQuery

namespace Text

/-- The character is not blank, and has no meaning in a list of literals. -/
def isBare (c : Char) : Bool :=
  c != ',' && c != '\'' && !isBlank c

theorem isBare_of_isDigit {c : Char} (h : c.isDigit = true) : isBare c = true := by
  have hne {d : Char} (hd : d.isDigit = false) : c ≠ d := by
    rintro rfl
    rw [h] at hd
    cases hd
  simp [isBare, hne (d := ',') rfl, hne (d := '\'') rfl, isBlank_of_isDigit h]

theorem isBare_sign {negative : Bool} : ∀ c ∈ Layout.sign negative, isBare c = true := by
  cases negative <;> simp [isBare, isBlank, Layout.sign]

theorem isBare_numeral {negative : Bool} {n : Numeral} :
    ∀ c ∈ Layout.sign negative ++ n.text, isBare c = true := by
  have hpoint : ∀ c ∈ n.point, isBare c = true := by
    unfold Numeral.point
    split
    · exact fun c hc => absurd hc List.not_mem_nil
    · exact List.forall_mem_cons.mpr
        ⟨by simp [isBare, isBlank], fun c hc => isBare_of_isDigit (n.isDigit_fraction c hc)⟩
  have hpower : ∀ c ∈ Numeral.power n.exponent?, isBare c = true := by
    rcases n.exponent? with _ | ⟨negative, e⟩
    · exact fun c hc => absurd hc List.not_mem_nil
    · refine List.forall_mem_cons.mpr
        ⟨by simp [isBare, isBlank], List.forall_mem_cons.mpr ⟨?_, fun c hc => ?_⟩⟩
      · cases negative <;> simp [isBare, isBlank]
      · exact isBare_of_isDigit (isDigit_of_mem_toDigits hc)
  rw [Numeral.text]
  simp only [List.forall_mem_append]
  exact ⟨isBare_sign, ⟨fun c hc => isBare_of_isDigit (n.isDigit_whole c hc), hpoint⟩, hpower⟩

end Text

namespace Value

/-- An integer that is read from the text of a number is that number. -/
def Rereads (v : Value Float) : Prop :=
  ∀ x i, v = num x → Number.readInt64? (Scalar.text x).toList = some i → word? x = some i

theorem rereads_of_lt {v : Value Float}
    (h : ∀ x, v = num x → |(Binary64.ofFloat x).toRat| < 2 ^ 53) : v.Rereads := by
  intro x i heq hread
  unfold word?
  rw [Number.integer?_of_readInt64?_plain hread (h x heq), Option.bind_some, int64?_toInt]

/-- A text that is neither null nor quoted is read as an integer, or else as a number. -/
theorem ofTrimmed_of_readFloat? {cs : List Char} {x : Float} (hread : Number.readFloat? cs = some x)
    (hnull : Number.lower cs ≠ "null") (hbare : ∀ c ∈ cs, Text.isBare c = true) :
    ofTrimmed cs = (Number.readInt64? cs).elim (num x) int := by
  have hne : cs ≠ [] := by
    rintro rfl
    cases hread
  have hunquoted : unquoted? cs = none := by
    unfold unquoted?
    split
    · exact absurd (hbare _ List.mem_cons_self) (by decide)
    · rfl
  unfold ofTrimmed
  rw [if_neg (not_or_intro hne hnull), hunquoted, hread]
  cases Number.readInt64? cs <;> rfl

theorem lower_cons_ne_null {c : Char} (h : c.toLower ≠ 'n') (cs : List Char) :
    Number.lower (c :: cs) ≠ "null" := by
  intro heq
  have hchars := congrArg String.toList heq
  rw [Number.lower, String.toList_ofList, List.map_cons] at hchars
  exact h (List.cons.inj hchars).1

theorem lower_numeral_ne_null (negative : Bool) (n : Numeral) :
    Number.lower (Layout.sign negative ++ n.text) ≠ "null" := by
  cases negative with
  | true => exact lower_cons_ne_null (by decide) n.text
  | false =>
    obtain ⟨c, r, hr, hc⟩ := n.exists_text
    rw [hr]
    refine lower_cons_ne_null ?_ r
    rw [Number.toLower_of_isDigit hc]
    rintro rfl
    cases hc

theorem isBare_plain (x : Float) : ∀ c ∈ (Layout.plain x).toList, Text.isBare c = true := by
  rcases Layout.plain_cases x with ⟨htext, -⟩ | ⟨negative, htext, -⟩ | ⟨negative, n, htext, -⟩
  · rw [htext]
    simp [Text.isBare, Text.isBlank]
  · rw [htext, String.toList_ofList]
    cases negative <;> simp [Text.isBare, Text.isBlank, Layout.sign]
  · rw [htext, String.toList_ofList]
    exact Text.isBare_numeral

theorem lower_plain_ne_null (x : Float) : Number.lower (Layout.plain x).toList ≠ "null" := by
  rcases Layout.plain_cases x with ⟨htext, -⟩ | ⟨negative, htext, -⟩ | ⟨negative, n, htext, -⟩
  · rw [htext]
    decide
  · rw [htext, String.toList_ofList]
    cases negative <;> decide
  · rw [htext, String.toList_ofList]
    exact lower_numeral_ne_null negative n

theorem exists_numeral_toString (i : Int) :
    ∃ negative n, (toString i).toList = Layout.sign negative ++ Numeral.text n := by
  refine ⟨decide (i < 0), .ofNat i.natAbs, ?_⟩
  rw [Document.toString_eq, String.toList_ofList, Numeral.text_ofNat]

theorem isBare_literal {v : Value Float} (hv : v.isText = false) :
    ∀ c ∈ v.literal.toList, Text.isBare c = true := by
  cases v with
  | null => simp [literal, display, Text.isBare, Text.isBlank]
  | int i =>
    obtain ⟨negative, n, htext⟩ := exists_numeral_toString i.toInt
    change ∀ c ∈ (toString i.toInt).toList, _
    rw [htext]
    exact Text.isBare_numeral
  | num x => exact isBare_plain x
  | text s => cases hv

theorem eq_text_of_isText {v : Value Float} (hv : v.isText = true) : ∃ s, v = text s := by
  cases v with
  | text s => exact ⟨s, rfl⟩
  | null => cases hv
  | int i => cases hv
  | num x => cases hv

theorem literal_text (s : String) :
    (text s : Value Float).literal.toList = '\'' :: Text.double s.toList ++ ['\''] :=
  String.toList_ofList

theorem trimmed_literal (v : Value Float) : Text.Trimmed v.literal.toList := by
  cases hv : v.isText with
  | false =>
    refine Text.trimmed_of_forall fun c hc => ?_
    have hbare := isBare_literal hv c hc
    simp only [Text.isBare, Bool.and_eq_true, Bool.not_eq_true'] at hbare
    exact hbare.2
  | true =>
    obtain ⟨s, rfl⟩ := eq_text_of_isText hv
    have hquote : Text.Trimmed ['\''] := Text.trimmed_of_forall (by simp [Text.isBlank])
    rw [literal_text]
    exact hquote.append hquote (List.cons_ne_nil _ _) (List.cons_ne_nil _ _) _

theorem ofTrimmed_literal_num (x : Float) : ofTrimmed (num x : Value Float).literal.toList =
    (Number.readInt64? (Scalar.text x).toList).elim (num x) int :=
  ofTrimmed_of_readFloat? (Number.readFloat?_plain x) (lower_plain_ne_null x) (isBare_plain x)

theorem ofTrimmed_literal_int (i : Int64) : ofTrimmed (int i : Value Float).literal.toList = int i := by
  obtain ⟨negative, n, htext⟩ := exists_numeral_toString i.toInt
  have hread : Number.readInt64? (toString i.toInt).toList = some i := by
    rw [Number.readInt64?, Document.signedInt?_toString, Option.bind_some, int64?_toInt]
  change ofTrimmed (toString i.toInt).toList = _
  rw [htext] at hread ⊢
  rw [ofTrimmed_of_readFloat? (Number.readFloat?_numeral negative n)
    (lower_numeral_ne_null negative n) Text.isBare_numeral, hread, Option.elim_some]

theorem ofTrimmed_literal_text (s : String) :
    ofTrimmed (text s : Value Float).literal.toList = text s := by
  rw [literal_text]
  have hnull : Number.lower ('\'' :: Text.double s.toList ++ ['\'']) ≠ "null" :=
    lower_cons_ne_null (by decide) _
  have hunquoted : unquoted? ('\'' :: Text.double s.toList ++ ['\'']) =
      some (Text.double s.toList) := by
    simp [unquoted?]
  unfold ofTrimmed
  rw [if_neg (not_or_intro (by simp) hnull), hunquoted]
  dsimp only
  rw [Text.undouble_double, String.ofList_toList]

theorem literal_ne_nil (v : Value Float) : v.literal.toList ≠ [] := by
  intro h
  cases v with
  | null => cases h
  | int i =>
    have hread := ofTrimmed_literal_int i
    rw [h] at hread
    cases hread
  | num x =>
    have hread := Number.readFloat?_plain x
    rw [show (Layout.plain x).toList = [] from h] at hread
    cases hread
  | text s =>
    rw [literal_text] at h
    cases h

/-- A literal is read as an equal value unless it is that of a number and is read as an integer that
is not that number. -/
theorem ofTrimmed_literal_beq (v : Value Float) :
    (ofTrimmed v.literal.toList == v) = true ↔ v.Rereads := by
  have hequal {v : Value Float} (hv : ∀ x, v ≠ num x) (h : ofTrimmed v.literal.toList = v) :
      (ofTrimmed v.literal.toList == v) = true ↔ v.Rereads := by
    rw [h]
    exact iff_of_true (beq_refl v) fun x _ heq => absurd heq (hv x)
  cases v with
  | null => exact hequal (fun x h => by cases h) rfl
  | int i => exact hequal (fun x h => by cases h) (ofTrimmed_literal_int i)
  | text s => exact hequal (fun x h => by cases h) (ofTrimmed_literal_text s)
  | num x =>
    rw [ofTrimmed_literal_num, Rereads]
    cases hi : Number.readInt64? (Scalar.text x).toList with
    | none =>
      refine iff_of_true (beq_refl _) ?_
      rintro y j heq hj
      cases heq
      cases hi.symm.trans hj
    | some i =>
      change (word? x == some i) = true ↔ _
      rw [beq_iff_eq]
      constructor
      · intro hword y j heq hj
        cases heq
        cases hi.symm.trans hj
        exact hword
      · exact fun h => h x i rfl hi

theorem parse_literal_beq (v : Value Float) : (parse v.literal == v) = true ↔ v.Rereads := by
  rw [← ofTrimmed_literal_beq, parse, (trimmed_literal v).trim_eq]

end Value

end ApproxQuery
