import ApproxQuery.Prepare.Error
import ApproxQuery.Value.Basic

/-!
# Raw tables

A raw table lists its rows as they were read. All rows that are added have one value for each
column. A source gives the raw table of a name.
-/

namespace ApproxQuery

structure RawTable (N : Type) where
  columns : List String
  rows : List (List (Value N))

namespace RawTable

variable {N : Type}

def push (t : RawTable N) (row : List (Value N)) : Except PreparationError (RawTable N) :=
  if row.length = t.columns.length then .ok { t with rows := t.rows ++ [row] }
  else .error (.rowWidth t.columns.length row.length)

def ofRows (columns : List String) (rows : List (List (Value N))) :
    Except PreparationError (RawTable N) :=
  rows.foldlM push ⟨columns, []⟩

def size (t : RawTable N) : Nat := t.rows.length

def columnIndex? (t : RawTable N) (name : String) : Option Nat :=
  t.columns.findIdx? (· == name)

/-- The values at one place of every row. -/
def valuesAt (t : RawTable N) (place : Nat) : List (Value N) :=
  t.rows.map fun row => row.getD place .null

def column? (t : RawTable N) (name : String) : Option (List (Value N)) :=
  (t.columnIndex? name).map t.valuesAt

end RawTable

/-- Where raw tables are read from. -/
abbrev RawSource (N : Type) := String → Except PreparationError (RawTable N)

def RawSource.ofTables {N : Type} (tables : List (String × RawTable N)) : RawSource N := fun name =>
  match tables.lookup name with
  | some t => .ok t
  | none => .error (.missingTable name)

end ApproxQuery
