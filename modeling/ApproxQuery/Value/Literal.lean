import ApproxQuery.Number.Reader
import ApproxQuery.Text.Blank
import ApproxQuery.Text.Quoted
import ApproxQuery.Value.Basic

/-!
# Literals

The written form of values in conditions and query statements, and its reader. Whatever is not
blank, `null`, quoted or a number is read as a text.
-/

namespace ApproxQuery.Value

def literal {N : Type} [Scalar N] : Value N → String
  | text s => Text.singleQuoted s
  | v => v.display

/-- The text between the quotes of a quoted literal. -/
def unquoted? : List Char → Option (List Char)
  | '\'' :: rest => if rest.getLast? = some '\'' then some rest.dropLast else none
  | _ => none

/-- The value that a text without blanks at its ends stands for. -/
def ofTrimmed (cs : List Char) : Value Float :=
  if cs = [] ∨ Number.lower cs = "null" then null
  else match unquoted? cs with
    | some inner => text (String.ofList (Text.undouble inner))
    | none => match Number.readInt64? cs with
      | some i => int i
      | none => match Number.readFloat? cs with
        | some x => num x
        | none => text (String.ofList cs)

def parse (raw : String) : Value Float :=
  ofTrimmed (Text.trim raw.toList)

end ApproxQuery.Value
