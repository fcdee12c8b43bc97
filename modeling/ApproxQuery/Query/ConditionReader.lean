import ApproxQuery.Query.Condition
import ApproxQuery.Query.Error
import ApproxQuery.Text.Alphanumeric

/-!
# Reading conditions

A condition is written as an attribute, an operator and a literal: `age >= 30`, `region IN ('EU')`,
`name IS NOT NULL`. The words are read in any case of letters, and blanks around every part are
ignored.
-/

namespace ApproxQuery.Condition

def isNameChar (c : Char) : Bool :=
  Text.isAlphanumeric c || c == '_' || c == '.'

/-- The comparisons in the order in which they are tried, a longer symbol before its beginning. -/
def comparisons : List (String × Operator) :=
  [("<=", .le), (">=", .ge), ("!=", .notEq), ("<>", .notEq), ("=", .eq), ("<", .lt), (">", .gt)]

/-- The comparison in front of a text, and the rest of the text. -/
def splitComparison? (cs : List Char) : Option (Operator × List Char) :=
  comparisons.findSome? fun (symbol, operator) =>
    if symbol.toList.isPrefixOf cs then some (operator, cs.drop symbol.length) else none

/-- The text from the opening bracket on, when a bracketed list follows the word `IN`. -/
def listPart? : List Char → Option (List Char)
  | i :: n :: r =>
    let r := Text.trimStart r
    if i.toUpper = 'I' ∧ n.toUpper = 'N' ∧ r.head? = some '(' then some r else none
  | _ => none

/-- The items of a list, split at the commas that are not inside single quotes. -/
def splitItems : Bool → List Char → List (List Char)
  | _, [] => [[]]
  | quoted, c :: r =>
    if c = ',' ∧ quoted = false then [] :: splitItems quoted r
    else match splitItems (if c = '\'' then !quoted else quoted) r with
      | item :: items => (c :: item) :: items
      | [] => [[c]]

/-- The text between the brackets of a list. -/
def bracketed? : List Char → Option (List Char)
  | '(' :: r => if r.getLast? = some ')' then some r.dropLast else none
  | _ => none

def readValue (cs : List Char) : Value Float :=
  Value.ofTrimmed (Text.trim cs)

/-- The operator and the literal that follow an attribute. -/
def readComparison (cs : List Char) : Except ConditionFault (Operator × Literal (Value Float)) :=
  let word := String.ofList (cs.map Char.toUpper)
  if word = Operator.isNull.symbol then .ok (.isNull, .absent)
  else if word = Operator.isNotNull.symbol then .ok (.isNotNull, .absent)
  else match listPart? cs with
    | some part => match bracketed? part with
      | some inner => .ok (.isIn, .list ((splitItems false inner).map readValue))
      | none => .error .unterminatedList
    | none => match splitComparison? cs with
      | none => .error .unknownOperator
      | some (operator, operand) =>
        if Text.trim operand = [] then .error .missingValue
        else .ok (operator, .single (readValue operand))

/-- The condition on a table that a text stands for. -/
def parse (table text : String) : Except QueryError (Condition Float) :=
  let cs := Text.trim text.toList
  let name := cs.takeWhile isNameChar
  let read := if name = [] then .error .missingAttribute
    else readComparison (Text.trimStart (cs.dropWhile isNameChar))
  match read with
  | .error fault => .error (.invalidCondition text fault)
  | .ok (operator, literal) => .ok ⟨⟨table, String.ofList name⟩, operator, literal⟩

end ApproxQuery.Condition
