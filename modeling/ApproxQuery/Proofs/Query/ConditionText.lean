import ApproxQuery.Proofs.Value.LiteralText
import ApproxQuery.Query.ConditionReader

/-!
# Conditions read back from their texts

A condition is read from what its text has after the table. The names, the operator and the number of
values are those that were written; the values are read back from their literals. An empty list is
read as a list of null, which no value is in either.
-/

namespace ApproxQuery

namespace Operator

/-- The operators that compare with one value. -/
def comparing : List Operator :=
  [eq, notEq, lt, le, gt, ge]

/-- The literals that an operator is written with. -/
inductive Takes {α : Type} : Operator → Literal α → Prop
  | isNull : Takes .isNull .absent
  | isNotNull : Takes .isNotNull .absent
  | isIn (vs : List α) : Takes .isIn (.list vs)
  | comparison {op : Operator} (h : op ∈ comparing) (v : α) : Takes op (.single v)

end Operator

namespace Literal

def values {α : Type} : Literal α → List α
  | absent => []
  | single v => [v]
  | list vs => vs

/-- The values are read back from their literals. -/
def reread : Literal (Value Float) → Literal (Value Float)
  | list [] => list [.null]
  | l => l.map fun v => Value.parse v.literal

theorem reread_eq_map {l : Literal (Value Float)} (h : l ≠ .list []) :
    l.reread = l.map fun v => Value.parse v.literal := by
  cases l with
  | absent => rfl
  | single v => rfl
  | list vs => cases vs with
    | nil => exact absurd rfl h
    | cons v vs => rfl

theorem map_beq_self {f : Value Float → Value Float} {l : Literal (Value Float)} :
    (l.map f == l) = true ↔ ∀ v ∈ l.values, (f v == v) = true := by
  change instBEqLiteral.beq (l.map f) l = true ↔ _
  cases l with
  | absent => simp [instBEqLiteral.beq, map, values]
  | single v => simp [instBEqLiteral.beq, map, values]
  | list vs =>
    have hlist : (vs.map f == vs) = true ↔ ∀ v ∈ vs, (f v == v) = true := by
      induction vs with
      | nil => simp
      | cons v vs ih => simp [ih]
    simpa [instBEqLiteral.beq, map, values] using hlist

end Literal

namespace Condition

/-- The attribute has a name that can be read, and the literal is of the operator's kind. -/
structure WellFormed (c : Condition Float) : Prop where
  name_ne : c.column.name ≠ ""
  isNameChar_name : ∀ x ∈ c.column.name.toList, isNameChar x = true
  takes : c.operator.Takes c.literal

theorem splitItems_ne_nil (quoted : Bool) (cs : List Char) : splitItems quoted cs ≠ [] := by
  induction cs generalizing quoted with
  | nil => exact List.cons_ne_nil _ _
  | cons c cs ih =>
    unfold splitItems
    split
    · exact List.cons_ne_nil _ _
    · split <;> exact List.cons_ne_nil _ _

/-- A character that is no comma between items belongs to the first item. -/
theorem splitItems_cons {quoted : Bool} {c : Char} (h : c = ',' → quoted = true) (cs : List Char) :
    splitItems quoted (c :: cs) =
      (splitItems (if c = '\'' then !quoted else quoted) cs).modifyHead (c :: ·) := by
  have hcomma : ¬ (c = ',' ∧ quoted = false) := fun hc => by
    rw [h hc.1] at hc
    cases hc.2
  rw [splitItems, if_neg hcomma]
  split
  · rename_i heq
    rw [heq]
    rfl
  · rename_i heq
    exact absurd heq (splitItems_ne_nil _ _)

theorem splitItems_bare {cs : List Char} (h : ∀ c ∈ cs, Text.isBare c = true) (rest : List Char) :
    splitItems false (cs ++ rest) = (splitItems false rest).modifyHead (cs ++ ·) := by
  induction cs with
  | nil => exact (congrFun List.modifyHead_id _).symm
  | cons c cs ih =>
    obtain ⟨hc, hcs⟩ := List.forall_mem_cons.mp h
    simp only [Text.isBare, Bool.and_eq_true, bne_iff_ne] at hc
    rw [List.cons_append, splitItems_cons fun hcomma => absurd hcomma hc.1.1, if_neg hc.1.2, ih hcs,
      List.modifyHead_modifyHead]
    rfl

/-- Quotes inside a quoted text are doubled, so no item ends there. -/
theorem splitItems_double (cs rest : List Char) : splitItems true (Text.double cs ++ rest) =
    (splitItems true rest).modifyHead (Text.double cs ++ ·) := by
  induction cs with
  | nil => exact (congrFun List.modifyHead_id _).symm
  | cons c cs ih =>
    unfold Text.double
    split
    · rw [List.cons_append, List.cons_append, splitItems_cons fun _ => rfl, if_pos rfl,
        splitItems_cons (by decide), if_pos rfl, Bool.not_not, ih, List.modifyHead_modifyHead,
        List.modifyHead_modifyHead]
      rfl
    · rename_i hquote
      rw [List.cons_append, splitItems_cons fun _ => rfl, if_neg hquote, ih,
        List.modifyHead_modifyHead]
      rfl

/-- A literal is not split, and leaves no quote open. -/
theorem splitItems_literal (v : Value Float) (rest : List Char) :
    splitItems false (v.literal.toList ++ rest) =
      (splitItems false rest).modifyHead (v.literal.toList ++ ·) := by
  cases hv : v.isText with
  | false => exact splitItems_bare (Value.isBare_literal hv) rest
  | true =>
    obtain ⟨s, rfl⟩ := Value.eq_text_of_isText hv
    have happend (cs : List Char) : '\'' :: Text.double s.toList ++ ['\''] ++ cs =
        '\'' :: (Text.double s.toList ++ '\'' :: cs) := by simp
    simp only [Value.literal_text, happend]
    rw [splitItems_cons (by decide), if_pos rfl, Bool.not_false, splitItems_double,
      splitItems_cons fun _ => rfl, if_pos rfl, Bool.not_true, List.modifyHead_modifyHead,
      List.modifyHead_modifyHead]
    rfl

/-- The items of a written list are the literals, each after the first with a blank in front. -/
theorem splitItems_literals (v : Value Float) (vs : List (Value Float)) :
    splitItems false (String.intercalate ", " ((v :: vs).map Value.literal)).toList =
      v.literal.toList :: vs.map fun w => ' ' :: w.literal.toList := by
  rw [String.toList_intercalate]
  induction vs generalizing v with
  | nil =>
    have hlast := splitItems_literal v []
    rw [List.append_nil] at hlast
    simpa [splitItems] using hlast
  | cons w vs ih =>
    have hitems := ih w
    simp only [List.map_cons, List.intercalate_cons_cons, List.append_assoc] at hitems ⊢
    obtain ⟨items, hrest⟩ : ∃ cs, cs = ", ".toList.intercalate
      (w.literal.toList :: (vs.map Value.literal).map String.toList) := ⟨_, rfl⟩
    rw [← hrest] at hitems ⊢
    have hcomma : splitItems false (", ".toList ++ items) =
        [] :: splitItems false (' ' :: items) := by
      change splitItems false (',' :: ' ' :: items) = _
      rw [splitItems, if_pos ⟨rfl, rfl⟩]
    rw [splitItems_literal, hcomma, splitItems_cons (by decide), if_neg (by decide), hitems]
    simp

theorem readValue_literal (v : Value Float) :
    readValue v.literal.toList = Value.parse v.literal := rfl

theorem readValue_cons_literal (v : Value Float) :
    readValue (' ' :: v.literal.toList) = Value.parse v.literal := by
  rw [← readValue_literal, readValue, readValue, Text.trim_cons_of_isBlank (by decide)]

/-- The items of a written list are read as its values, and an empty list as null. -/
theorem map_readValue_splitItems (vs : List (Value Float)) :
    Literal.list ((splitItems false (String.intercalate ", " (vs.map Value.literal)).toList).map
      readValue) = (Literal.list vs).reread := by
  cases vs with
  | nil => rfl
  | cons v vs =>
    have hvalues : vs.map (readValue ∘ fun w => ' ' :: w.literal.toList) =
        vs.map fun w => Value.parse w.literal :=
      List.map_congr_left fun w _ => by rw [Function.comp_apply, readValue_cons_literal]
    rw [splitItems_literals, List.map_cons, List.map_map, readValue_literal, hvalues,
      Literal.reread_eq_map (fun h => by cases h), Literal.map, List.map_cons]

theorem upper_ne {cs : List Char} {s : String} (h : cs.map Char.toUpper ≠ s.toList) :
    String.ofList (cs.map Char.toUpper) ≠ s := by
  rintro rfl
  exact h String.toList_ofList.symm

theorem readComparison_list (vs : List (Value Float)) :
    readComparison (Operator.isIn.symbol ++ literalText (.list vs)).toList =
      .ok (.isIn, (Literal.list vs).reread) := by
  obtain ⟨inner, hinner⟩ : ∃ s, s = String.intercalate ", " (vs.map Value.literal) := ⟨_, rfl⟩
  have htext : (Operator.isIn.symbol ++ literalText (.list vs)).toList =
      'I' :: 'N' :: ' ' :: '(' :: (inner.toList ++ [')']) := by
    rw [literalText, ← hinner]
    simp [Operator.symbol]
  have hword {s : String} (hs : s.toList[1]? = some 'S') :
      String.ofList (('I' :: 'N' :: ' ' :: '(' :: (inner.toList ++ [')'])).map Char.toUpper) ≠ s :=
    upper_ne fun heq => by
      rw [← heq] at hs
      cases hs
  have hpart : listPart? ('I' :: 'N' :: ' ' :: '(' :: (inner.toList ++ [')'])) =
      some ('(' :: (inner.toList ++ [')'])) := rfl
  have hbracketed : bracketed? ('(' :: (inner.toList ++ [')'])) = some inner.toList := by
    simp [bracketed?]
  unfold readComparison
  simp only [htext, hpart, hbracketed, if_neg (hword (s := Operator.isNull.symbol) rfl),
    if_neg (hword (s := Operator.isNotNull.symbol) rfl)]
  rw [hinner, map_readValue_splitItems]

theorem literalText_single (op : Operator) (v : Value Float) :
    (op.symbol ++ literalText (.single v)).toList = op.symbol.toList ++ ' ' :: v.literal.toList := by
  simp [literalText]

section

variable {op : Operator} (h : op ∈ Operator.comparing)
include h

/-- The blank after a symbol keeps it apart from the longer symbols. -/
theorem splitComparison?_symbol (cs : List Char) :
    splitComparison? (op.symbol.toList ++ ' ' :: cs) = some (op, ' ' :: cs) := by
  simp only [Operator.comparing, List.mem_cons, List.not_mem_nil, or_false] at h
  rcases h with rfl | rfl | rfl | rfl | rfl | rfl <;> rfl

/-- A symbol starts neither a word nor a list. -/
theorem exists_symbol : ∃ c r, op.symbol.toList = c :: r ∧ c.toUpper ≠ 'I' ∧
    Text.Trimmed op.symbol.toList := by
  simp only [Operator.comparing, List.mem_cons, List.not_mem_nil, or_false] at h
  rcases h with rfl | rfl | rfl | rfl | rfl | rfl <;>
    exact ⟨_, _, rfl, by decide, Text.trimmed_of_forall (by simp [Operator.symbol, Text.isBlank])⟩

theorem readComparison_single (v : Value Float) :
    readComparison (op.symbol ++ literalText (.single v)).toList =
      .ok (op, (Literal.single v).reread) := by
  obtain ⟨c, r, hc, hupper, -⟩ := exists_symbol h
  have hword {s : String} (hs : s.toList.head? = some 'I') :
      String.ofList ((op.symbol.toList ++ ' ' :: v.literal.toList).map Char.toUpper) ≠ s :=
    upper_ne fun heq => by
      rw [← heq, hc] at hs
      exact hupper (Option.some.inj hs)
  have hpart : listPart? (op.symbol.toList ++ ' ' :: v.literal.toList) = none := by
    obtain ⟨d, r', hr⟩ := List.exists_cons_of_ne_nil (l := r ++ ' ' :: v.literal.toList) (by simp)
    rw [hc, List.cons_append, hr]
    exact if_neg fun hin => hupper hin.1
  have htrim : Text.trim (' ' :: v.literal.toList) ≠ [] := by
    rw [Text.trim_cons_of_isBlank (by decide), (Value.trimmed_literal v).trim_eq]
    exact Value.literal_ne_nil v
  unfold readComparison
  simp only [literalText_single, hpart, splitComparison?_symbol h, if_neg htrim,
    if_neg (hword (s := Operator.isNull.symbol) rfl),
    if_neg (hword (s := Operator.isNotNull.symbol) rfl)]
  rw [readValue_cons_literal, Literal.reread_eq_map (fun h => by cases h), Literal.map]

end

/-- The operator and the literal are read from what is written after the attribute. -/
theorem readComparison_text {op : Operator} {l : Literal (Value Float)} (h : op.Takes l) :
    readComparison (op.symbol ++ literalText l).toList = .ok (op, l.reread) := by
  cases h with
  | isNull => rfl
  | isNotNull => rfl
  | isIn vs => exact readComparison_list vs
  | comparison h v => exact readComparison_single h v

theorem isBlank_of_isNameChar {c : Char} (h : isNameChar c = true) : Text.isBlank c = false :=
  Text.isBlank_eq_false (by decide +kernel) h

theorem trimmed_operand {op : Operator} {l : Literal (Value Float)} (h : op.Takes l) :
    Text.Trimmed (op.symbol ++ literalText l).toList := by
  have hnull : Text.Trimmed "NULL".toList := Text.trimmed_of_forall (by simp [Text.isBlank])
  have his : Text.Trimmed "IS".toList := Text.trimmed_of_forall (by simp [Text.isBlank])
  cases h with
  | isNull => exact his.append hnull (by decide) (by decide) " ".toList
  | isNotNull => exact his.append hnull (by decide) (by decide) " NOT ".toList
  | isIn vs =>
    have hin : Text.Trimmed "IN".toList := Text.trimmed_of_forall (by simp [Text.isBlank])
    have hclose : Text.Trimmed ")".toList := Text.trimmed_of_forall (by simp [Text.isBlank])
    have hlist := hin.append hclose (by decide) (by decide)
      (" (" ++ String.intercalate ", " (vs.map Value.literal)).toList
    simpa [Operator.symbol, literalText] using hlist
  | comparison h v =>
    obtain ⟨c, r, hc, -, hsymbol⟩ := exists_symbol h
    have hne : op.symbol.toList ≠ [] := by
      rw [hc]
      exact List.cons_ne_nil c r
    have hliteral := hsymbol.append (Value.trimmed_literal v) hne (Value.literal_ne_nil v) [' ']
    rwa [literalText_single, List.append_cons]

/-- A name is read up to the blank after it. -/
theorem parse_eq {table name : String} {cs : List Char} (hne : name ≠ "")
    (hname : ∀ c ∈ name.toList, isNameChar c = true) (hcs : Text.Trimmed cs) (hcs' : cs ≠ [])
    {op : Operator} {l : Literal (Value Float)} (hread : readComparison cs = .ok (op, l)) :
    parse table (String.ofList (name.toList ++ ' ' :: cs)) = .ok ⟨⟨table, name⟩, op, l⟩ := by
  have hnil : name.toList ≠ [] := fun h => hne (String.toList_eq_nil_iff.mp h)
  have hnamed : Text.Trimmed name.toList :=
    Text.trimmed_of_forall fun c hc => isBlank_of_isNameChar (hname c hc)
  have htrim : Text.trim (name.toList ++ ' ' :: cs) = name.toList ++ ' ' :: cs := by
    rw [List.append_cons]
    exact (hnamed.append hcs hnil hcs' [' ']).trim_eq
  have htake : (name.toList ++ ' ' :: cs).takeWhile isNameChar = name.toList := by
    rw [List.takeWhile_append_of_pos hname, List.takeWhile_cons_of_neg (by decide), List.append_nil]
  have hdrop : Text.trimStart ((name.toList ++ ' ' :: cs).dropWhile isNameChar) = cs := by
    rw [List.dropWhile_append_of_pos hname, List.dropWhile_cons_of_neg (by decide), Text.trimStart,
      List.dropWhile_cons_of_pos (by decide), Text.dropWhile_isBlank hcs.head]
  unfold parse
  simp only [String.toList_ofList, htrim, htake, hdrop, if_neg hnil, hread, String.ofList_toList]

/-- What a condition's text has after the table is read as the condition with its values reread. -/
theorem parse_text {c : Condition Float} (h : c.WellFormed) :
    ∃ rest, c.text = c.column.table ++ "." ++ rest ∧
      parse c.column.table rest = .ok ⟨c.column, c.operator, c.literal.reread⟩ := by
  refine ⟨String.ofList (c.column.name.toList ++ ' ' :: (c.operator.symbol ++
    literalText c.literal).toList), ?_, ?_⟩
  · rw [text, AttributeRef.qualified, qualify]
    apply String.toList_injective
    simp
  · refine parse_eq h.name_ne h.isNameChar_name (trimmed_operand h.takes) ?_
      (readComparison_text h.takes)
    cases c.operator <;> simp [Operator.symbol]

theorem mem_of_splitComparison? {op : Operator} {cs rest : List Char}
    (h : splitComparison? cs = some (op, rest)) : op ∈ Operator.comparing := by
  obtain ⟨⟨symbol, op'⟩, hmem, hop⟩ := List.exists_of_findSome?_eq_some h
  dsimp only at hop
  split at hop
  · cases hop
    simp only [comparisons, List.mem_cons, Prod.mk.injEq, List.not_mem_nil, or_false] at hmem
    rcases hmem with h | h | h | h | h | h | h <;> rw [h.2] <;> decide
  · cases hop

theorem takes_of_readComparison {cs : List Char} {op : Operator} {l : Literal (Value Float)}
    (h : readComparison cs = .ok (op, l)) : op.Takes l := by
  unfold readComparison at h
  dsimp only at h
  split at h
  · cases h
    exact .isNull
  split at h
  · cases h
    exact .isNotNull
  split at h
  · split at h
    · cases h
      exact .isIn _
    · cases h
  · split at h
    · cases h
    · rename_i hsplit
      split at h
      · cases h
      · cases h
        exact .comparison (mem_of_splitComparison? hsplit) _

/-- Every condition that is read can be written. -/
theorem wellFormed_of_parse {table text : String} {d : Condition Float}
    (h : parse table text = .ok d) : d.WellFormed ∧ d.column.table = table := by
  unfold parse at h
  dsimp only at h
  split at h
  · cases h
  · rename_i hread
    cases h
    split at hread
    · cases hread
    · rename_i hne
      refine ⟨⟨?_, ?_, takes_of_readComparison hread⟩, rfl⟩
      · exact fun hname => hne (String.ofList_eq_empty_iff.mp hname)
      · intro c hc
        rw [String.toList_ofList] at hc
        exact List.mem_takeWhile_imp hc

theorem eq_of_literal {c d : Condition Float} (hcolumn : d.column = c.column)
    (hoperator : d.operator = c.operator) : (d == c) = (d.literal == c.literal) := by
  change d.eq c = _
  rw [eq, hcolumn, hoperator, beq_self_eq_true, beq_self_eq_true, Bool.true_and, Bool.true_and]

/-- A list of null holds of no value, like an empty list. -/
theorem holds_list_null (column : AttributeRef) (v : Value Float) :
    (⟨column, .isIn, .list [.null]⟩ : Condition Float).holds v =
      (⟨column, .isIn, .list []⟩ : Condition Float).holds v := by
  change (!v.isNull && [Value.null].contains v) = (!v.isNull && [].contains v)
  cases v <;> rfl

/-- Reading what a condition's text has after its table gives an equal condition exactly if no number
is read as another integer; an empty list is read as one that holds of the same values. Whatever is
read can be written. Numbers below `2 ^ 53` in size, and those that are not finite, are read back. -/
theorem parse_undoes_text (c : Condition Float) :
    (c.WellFormed → ∃ rest d, c.text = c.column.table ++ "." ++ rest ∧
      parse c.column.table rest = .ok d ∧ d.column = c.column ∧ d.operator = c.operator ∧
      (c.literal = .list [] → ∀ v, d.holds v = c.holds v) ∧
      (c.literal ≠ .list [] → ((d == c) = true ↔ ∀ v ∈ c.literal.values, v.Rereads))) ∧
    (∀ table text, parse table text = .ok c → c.WellFormed ∧ c.column.table = table) ∧
    ∀ v ∈ c.literal.values,
      (∀ x, v = .num x → |(Binary64.ofFloat x).toRat| < 2 ^ 53) → v.Rereads := by
  refine ⟨fun hc => ?_, fun _ _ => wellFormed_of_parse, fun _ _ => Value.rereads_of_lt⟩
  obtain ⟨rest, htext, hparse⟩ := parse_text hc
  refine ⟨rest, _, htext, hparse, rfl, rfl, fun hempty v => ?_, fun hne => ?_⟩
  · obtain ⟨column, operator, literal⟩ := c
    cases hempty
    cases hc.takes
    exact holds_list_null column v
  · rw [eq_of_literal (c := c) (d := ⟨c.column, c.operator, c.literal.reread⟩) rfl rfl,
      Literal.reread_eq_map hne, Literal.map_beq_self]
    exact forall₂_congr fun v _ => Value.parse_literal_beq v

namespace Reading

/-- `t.note IN ('O''Hare, IL (x)', NULL, 5, 2, 'NULL')` -/
def quotedList : Condition Float :=
  ⟨⟨"t", "note"⟩, .isIn, .list [.text "O'Hare, IL (x)", .null, .int 5, .num 2, .text "NULL"]⟩

theorem quotedList_reads_back : quotedList.WellFormed ∧ ∃ rest d,
    quotedList.text = "t" ++ "." ++ rest ∧ parse "t" rest = .ok d ∧ (d == quotedList) = true ∧
      d.WellFormed := by
  have hwell : quotedList.WellFormed := ⟨by decide, List.all_eq_true.mp (by decide +kernel), .isIn _⟩
  obtain ⟨rest, d, htext, hparse, -, -, -, hequal⟩ := (parse_undoes_text quotedList).1 hwell
  refine ⟨hwell, rest, d, htext, hparse, (hequal fun h => by cases h).mpr fun v hv => ?_,
    ((parse_undoes_text d).2.1 _ _ hparse).1⟩
  refine (parse_undoes_text quotedList).2.2 v hv ?_
  rintro x rfl
  simp only [quotedList, Literal.values, List.mem_cons, reduceCtorEq, Value.num.injEq,
    List.not_mem_nil, or_false, false_or] at hv
  rw [hv]
  change |(Binary64.ofFloat (Scalar.ofNat 2)).toRat| < 2 ^ 53
  rw [(Binary64.toRat_ofNat (n := 2) (by norm_num)).2]
  norm_num

/-- The number `2 ^ 60`, which is written `1152921504606847000`. -/
def longNumber : Condition Float :=
  ⟨⟨"t", "x"⟩, .eq, .single (.num (Float.ofNat (2 ^ 60)))⟩

theorem longNumber_reads_otherwise : longNumber.WellFormed ∧ ∃ rest d,
    longNumber.text = "t" ++ "." ++ rest ∧ parse "t" rest = .ok d ∧ (d == longNumber) = false := by
  refine ⟨⟨by decide, List.all_eq_true.mp (by decide +kernel), .comparison (by decide) _⟩,
    "x = 1152921504606847000", ⟨⟨"t", "x"⟩, .eq, .single (.int 1152921504606847000)⟩, ?_, ?_, ?_⟩
  · decide +kernel
  · rfl
  · decide +kernel

end Reading

end Condition

end ApproxQuery
