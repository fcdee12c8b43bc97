import ApproxQuery.Prepare.Metadata
import ApproxQuery.Sample.Error
import ApproxQuery.Schema.Basic

/-!
# What a table adds to a sample

A block holds the stored columns of a table that are not irrelevant, then one defined multiplier for
each kept multiplier, then, in a join, the null indicator. `columns`, `nullValues` and `cells` list
the same columns in the same order.
-/

namespace ApproxQuery

structure TableBlock (N : Type) where
  name : String
  table : EncodedTable N
  metadata : TableMetadata N
  /-- The places of the columns that are kept. -/
  kept : List Nat
  /-- The places of the multipliers, with the names of their defined multipliers. -/
  multipliers : List (Nat × String)
  indicator? : Option String

namespace TableBlock

variable {N : Type} [Scalar N]

/-- The block of a table, with an indicator if the table is joined with others. -/
def ofTable (g : Schema N) (t : Table N) (data : EncodedTable N) (metadata : TableMetadata N)
    (joined : Bool) : Except SchemaError (TableBlock N) := do
  let irrelevant := t.irrelevant.map (qualify t.name)
  let kept := (data.columns.zipIdx.filter fun (c, _) => !irrelevant.contains c).map Prod.snd
  let incoming ← g.incoming t.name
  let multipliers := incoming.filterMap fun r =>
    (data.columnIndex? r.multiplier.qualified).bind fun place =>
      if kept.contains place then some (place, r.definedMultiplier.qualified) else none
  return {
    name := t.name
    table := data
    metadata := metadata
    kept := kept
    multipliers := multipliers
    indicator? := if joined then some t.qualifiedNullIndicator else none }

/-- The places of the columns that the cells are taken from, the indicator apart. -/
def places (b : TableBlock N) : List Nat :=
  b.kept ++ b.multipliers.map Prod.fst

def columnName (b : TableBlock N) (place : Nat) : String :=
  b.table.columns.getD place ""

def columns (b : TableBlock N) : List String :=
  b.kept.map b.columnName ++ b.multipliers.map Prod.snd ++ b.indicator?.toList

/-- The null marker of each column; the indicator has none. -/
def nullValues (b : TableBlock N) : List (Option N) :=
  (b.places.map fun place => b.metadata.nullValues.get? (b.columnName place)) ++
    b.indicator?.toList.map fun _ => none

def cell (b : TableBlock N) (row place : Nat) : Except SampleError N :=
  match (b.table.data[place]?).bind (·[row]?) with
  | some x => .ok x
  | none => .error .outOfRange

/-- A multiplier with zero replaced by one. -/
def defined (x : N) : N :=
  if Scalar.eq x 0 then 1 else x

/-- The cells of a row of the table, or those that stand for a missing row. -/
def cells (b : TableBlock N) : Option Nat → Except SampleError (List N)
  | some row => do
    let kept ← b.kept.mapM (b.cell row)
    let multipliers ← b.multipliers.mapM fun m => return defined (← b.cell row m.1)
    return kept ++ multipliers ++ b.indicator?.toList.map fun _ => 0
  | none =>
    .ok <| (b.places.map fun place => (b.metadata.nullValues.get? (b.columnName place)).getD 0) ++
      b.indicator?.toList.map fun _ => 1

/-- The values of a key attribute in all stored rows. -/
def keys (b : TableBlock N) (key : String) : Except SampleError (List (Value N)) :=
  let column := qualify b.name key
  match b.table.column? column with
  | none => .error (.missingKeyColumn b.name column)
  | some numbers => (numbers.mapM (b.metadata.decode column)).mapError fun _ => .outOfRange

end TableBlock

end ApproxQuery
