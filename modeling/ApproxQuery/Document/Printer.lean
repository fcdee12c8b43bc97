import ApproxQuery.Document.Basic

/-!
# Printing documents

Every item and every field stands on a line of its own, indented by two spaces for each level; an
empty list or record is closed at once.
-/

namespace ApproxQuery.Document

def hexDigit (n : Nat) : Char :=
  (Nat.toDigits 16 n).headD '0'

def escaped (c : Char) : List Char :=
  if c = '"' then ['\\', '"']
  else if c = '\\' then ['\\', '\\']
  else if c = '\n' then ['\\', 'n']
  else if c = '\r' then ['\\', 'r']
  else if c = '\t' then ['\\', 't']
  else if c = '\x08' then ['\\', 'b']
  else if c = '\x0c' then ['\\', 'f']
  else if c.toNat < 32 then
    ['\\', 'u', '0', '0', hexDigit (c.toNat / 16), hexDigit (c.toNat % 16)]
  else [c]

def quoted (s : String) : List Char :=
  '"' :: s.toList.flatMap escaped ++ ['"']

def newline (level : Nat) : List Char :=
  '\n' :: List.replicate (2 * level) ' '

mutual

def print (level : Nat) : Document → List Char
  | null => "null".toList
  | bool b => (if b then "true" else "false").toList
  | number written => written.toList
  | text s? => quoted (s?.getD "")
  | list [] => "[]".toList
  | list (d :: ds) =>
    '[' :: newline (level + 1) ++ print (level + 1) d ++ printItems level ds
  | record [] => "{}".toList
  | record ((k, d) :: fs) =>
    '{' :: newline (level + 1) ++ quoted (k.getD "") ++ ": ".toList ++ print (level + 1) d ++
      printFields level fs

/-- The items after the first one, and the end of the list. -/
def printItems (level : Nat) : List Document → List Char
  | [] => newline level ++ [']']
  | d :: ds => ',' :: newline (level + 1) ++ print (level + 1) d ++ printItems level ds

/-- The fields after the first one, and the end of the record. -/
def printFields (level : Nat) : List (Option String × Document) → List Char
  | [] => newline level ++ ['}']
  | (k, d) :: fs =>
    ',' :: newline (level + 1) ++ quoted (k.getD "") ++ ": ".toList ++ print (level + 1) d ++
      printFields level fs

end

def render (d : Document) : String :=
  String.ofList (print 0 d)

end ApproxQuery.Document
