/-!
# Encoded tables

An encoded table holds numbers only, column by column. The columns of a prepared table all have the
same length; a table read from a file may be ragged, and then has no row at some places.
-/

namespace ApproxQuery

structure EncodedTable (N : Type) where
  name : String
  columns : List String
  data : List (List N)
deriving DecidableEq, Repr

namespace EncodedTable

variable {N : Type}

/-- The table with every number replaced by its image. -/
def map {M : Type} (f : N → M) (t : EncodedTable N) : EncodedTable M :=
  ⟨t.name, t.columns, t.data.map (·.map f)⟩

/-- The number of rows, which is the length of the first column. -/
def size (t : EncodedTable N) : Nat :=
  (t.data.head?.map List.length).getD 0

def isEmpty (t : EncodedTable N) : Bool :=
  t.size == 0

def columnIndex? (t : EncodedTable N) (name : String) : Option Nat :=
  t.columns.findIdx? (· == name)

def column? (t : EncodedTable N) (name : String) : Option (List N) :=
  (t.columnIndex? name).bind (t.data[·]?)

/-- The numbers of a row, if every column has one there. -/
def row? (t : EncodedTable N) (place : Nat) : Option (List N) :=
  t.data.mapM (·[place]?)

def dropColumns (t : EncodedTable N) (names : List String) : EncodedTable N :=
  let kept := t.columns.zipIdx.filter fun (c, _) => !names.contains c
  let dropped := t.columns.zipIdx.filter fun (c, _) => names.contains c
  { t with
    columns := kept.map Prod.fst
    data := (t.data.zipIdx.filter fun (_, i) => dropped.all (·.2 != i)).map Prod.fst }

/-- The rows at the given places, in the given order. -/
def select (t : EncodedTable N) (places : List Nat) : EncodedTable N :=
  { t with data := t.data.map fun column => places.filterMap (column[·]?) }

/-- The rows at the given places, if every column has all of them. -/
def select? (t : EncodedTable N) (places : List Nat) : Option (EncodedTable N) :=
  if t.data.all fun column => places.all (· < column.length) then some (t.select places) else none

end EncodedTable

end ApproxQuery
