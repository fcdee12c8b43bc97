/-!
# Qualified names

A column is named `table.attribute`. Attributes may hold points themselves, so a qualified name is
split at its first point.
-/

namespace ApproxQuery

def qualify (table name : String) : String :=
  table ++ "." ++ name

/-- The parts before and after the first point. -/
def splitQualified (name : String) : Option (String × String) :=
  match name.toList.dropWhile (· ≠ '.') with
  | [] => none
  | _ :: rest => some (String.ofList (name.toList.takeWhile (· ≠ '.')), String.ofList rest)

/-- An attribute of a table. -/
structure AttributeRef where
  table : String
  name : String
deriving DecidableEq, Repr

namespace AttributeRef

def qualified (a : AttributeRef) : String :=
  qualify a.table a.name

/-- References are ordered by their table, then by their name. -/
instance : Ord AttributeRef :=
  ⟨compareLex (compareOn table) (compareOn name)⟩

instance : Std.TransOrd AttributeRef :=
  inferInstanceAs (Std.TransCmp (compareLex (compareOn table) (compareOn name)))

end AttributeRef

end ApproxQuery
