import ApproxQuery.Text.Unprintable

/-!
# Quoted text

Two quotations. A text literal stands between single quotes, with every quote inside it written
twice; `undouble` undoes `double`. A name in a message stands between double quotes, with
backslash escapes and code points for what cannot be shown.
-/

namespace ApproxQuery.Text

/-- Writes every single quote twice. -/
def double : List Char → List Char
  | [] => []
  | c :: r => if c = '\'' then '\'' :: '\'' :: double r else c :: double r

/-- Reads two single quotes in a row, from the left, as one. -/
def undouble : List Char → List Char
  | [] => []
  | '\'' :: '\'' :: r => '\'' :: undouble r
  | c :: r => c :: undouble r

theorem undouble_double (cs : List Char) : undouble (double cs) = cs := by
  induction cs with
  | nil => rfl
  | cons c r ih =>
    by_cases h : c = '\''
    · simp [double, undouble, h, ih]
    · unfold double
      rw [if_neg h]
      unfold undouble
      split
      · simp_all
      · simp_all
      · simp_all

def singleQuoted (s : String) : String :=
  String.ofList ('\'' :: double s.toList ++ ['\''])

/-- How a character of a name is shown in a message. -/
def shown (c : Char) : List Char :=
  if c = '\x00' then ['\\', '0']
  else if c = '\t' then ['\\', 't']
  else if c = '\n' then ['\\', 'n']
  else if c = '\r' then ['\\', 'r']
  else if c = '"' then ['\\', '"']
  else if c = '\\' then ['\\', '\\']
  else if isUnprintable c then
    '\\' :: 'u' :: '\x7b' :: Nat.toDigits 16 c.toNat ++ ['\x7d']
  else [c]

def quotedName (s : String) : String :=
  String.ofList ('"' :: s.toList.flatMap shown ++ ['"'])

/-- A list of names in a message, as in `["a", "b"]`. -/
def quotedNames (names : List String) : String :=
  "[" ++ String.intercalate ", " (names.map quotedName) ++ "]"

end ApproxQuery.Text
