import ApproxQuery.Prepare.EncodedTable
import ApproxQuery.Prepare.Error
import ApproxQuery.Sorted.Map
import ApproxQuery.Value.Basic

/-!
# What is known about a prepared table

The metadata of a table tells how its columns are encoded: a categorical column holds the places of
its values in a dictionary, every other column holds the numbers themselves, and both have a number
that stands for null. Columns that another one determines are not stored but rebuilt from it.
-/

namespace ApproxQuery

/-- The values of a categorical column; the code of a value is its place, counted from one, and the
code of null is zero. -/
abbrev Dictionary (N : Type) := List (Value N)

/-- The value of the dependent for each value of the determinant, in the order of first
appearance. -/
abbrev DependencyMap (N : Type) := List (Value N × Value N)

variable {N : Type} [Scalar N]

def Dictionary.code? (d : Dictionary N) (v : Value N) : Option N :=
  if v.isNull then some 0 else (d.findIdx? (· == v)).map fun i => Scalar.ofNat (i + 1)

/-- The value of a code; a code outside the dictionary stands for null, and a scalar that is no
number is no code. -/
def Dictionary.value? (d : Dictionary N) (code : N) : Option (Value N) :=
  if Scalar.isNaN code then none
  else if Scalar.lt code 1 then some .null
  else match Scalar.floor? code with
    | none => some .null
    | some n => some (d.getD (n.toNat - 1) .null)

/-- The value of the dependent for a value of the determinant; a later entry wins. -/
def DependencyMap.value (m : DependencyMap N) (determinant : Value N) : Value N :=
  ((m.reverse.find? (·.1 == determinant)).map Prod.snd).getD .null

structure TableMetadata (N : Type) where
  table : String
  /-- The number of raw rows. -/
  length : Nat
  /-- The number of stored rows. -/
  storedLength : Nat
  sampleRate : N
  columns : List String
  categoricals : SortedMap String (Dictionary N)
  nullValues : SortedMap String N
  /-- The maps that rebuild the dependents of each determinant. -/
  dependencies : SortedMap String (SortedMap String (DependencyMap N))
  /-- The mean number of rows that reference a row, for each relationship. -/
  incomingMeans : SortedMap String N
  dropped : List String

namespace TableMetadata

/-- The metadata of a table before anything is known about its columns. -/
def blank (table : String) (sampleRate : N) : TableMetadata N where
  table := table
  length := 0
  storedLength := 0
  sampleRate := sampleRate
  columns := []
  categoricals := ∅
  nullValues := ∅
  dependencies := ∅
  incomingMeans := ∅
  dropped := []

def isTruncated (m : TableMetadata N) : Bool :=
  m.storedLength < m.length

/-- The share of the raw rows that are stored. -/
def storedFraction (m : TableMetadata N) : N :=
  if m.length = 0 then 1 else Scalar.ofNat m.storedLength / Scalar.ofNat m.length

/-- The number of rows of the full table, of which the raw rows are a sample. -/
def fullSize (m : TableMetadata N) : N :=
  Scalar.ofNat m.length / m.sampleRate

/-- The value that an encoded number of a column stands for. -/
def decode (m : TableMetadata N) (column : String) (x : N) : Except PreparationError (Value N) :=
  match m.categoricals.get? column with
  | some dictionary =>
    match dictionary.value? x with
    | some v => .ok v
    | none => .error (.outOfRange m.table)
  | none =>
    match m.nullValues.get? column with
    | some sentinel => .ok (if Scalar.eq sentinel x then .null else .num x)
    | none => .ok (.num x)

/-- The number that stands for a value in a column, if there is one. -/
def encode? (m : TableMetadata N) (column : String) (v : Value N) : Option N :=
  match m.categoricals.get? column with
  | some dictionary => dictionary.code? v
  | none => if v.isNull then m.nullValues.get? column else v.toScalar?

/-- The first determinant that has a map for the column. -/
def determinant? (m : TableMetadata N) (dependent : String) :
    Option (String × DependencyMap N) :=
  m.dependencies.toList.findSome? fun (determinant, maps) =>
    (maps.get? dependent).map fun map => (determinant, map)

/-- The columns that have a map. -/
def dependents (m : TableMetadata N) : List String :=
  m.dependencies.toList.flatMap fun (_, maps) => maps.keys

end TableMetadata

structure PreparedTable (N : Type) where
  table : EncodedTable N
  metadata : TableMetadata N

namespace PreparedTable

/-- The values of a stored column. -/
def decodeColumn (p : PreparedTable N) (column : String) :
    Except PreparationError (List (Value N)) :=
  match p.table.columnIndex? column with
  | none => .error (.columnNotFound p.table.name column)
  | some place =>
    match p.table.data[place]? with
    | none => .error (.outOfRange p.table.name)
    | some numbers => numbers.mapM (p.metadata.decode column)

/-- Rebuilds a column from its determinant, along at most `depth` determinants. -/
def rebuild (p : PreparedTable N) : Nat → String → Except PreparationError (List (Value N))
  | 0, dependent => .error (.endless p.table.name dependent)
  | depth + 1, dependent =>
    match p.metadata.determinant? dependent with
    | none => .error (.columnNotFound p.table.name dependent)
    | some (determinant, map) => do
      let values ← match p.table.columnIndex? determinant with
        | some _ => p.decodeColumn determinant
        | none => p.rebuild depth determinant
      return values.map map.value

/-- The values of a column that is not stored because another one determines it. A determinant that
is not stored either is rebuilt first. -/
def reconstruct (p : PreparedTable N) (dependent : String) :
    Except PreparationError (List (Value N)) :=
  p.rebuild (p.metadata.dependents.length + 1) dependent

end PreparedTable

end ApproxQuery
