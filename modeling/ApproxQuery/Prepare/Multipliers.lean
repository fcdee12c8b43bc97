import ApproxQuery.Prepare.Frame
import ApproxQuery.Schema.Basic

/-!
# Multipliers

The multiplier of a relationship is a column of the referenced table: for each row, the number of
rows that reference its key, scaled up from the sampled rows to the full referencing table.
-/

namespace ApproxQuery

variable {N : Type} [Scalar N]

/-- How often each of some values occurs; equal values are counted together. -/
abbrev Tally (N : Type) := List (Value N × Nat)

namespace Tally

/-- Counts a value once more. -/
def add : Tally N → Value N → Tally N
  | [], v => [(v, 1)]
  | (w, n) :: tally, v => if w == v then (w, n + 1) :: tally else (w, n) :: add tally v

/-- The count of a value, zero unless it occurs. -/
def get (tally : Tally N) (v : Value N) : Nat :=
  ((tally.find? (·.1 == v)).map Prod.snd).getD 0

/-- Counts the values that are not null. -/
def ofValues (vs : List (Value N)) : Tally N :=
  (vs.filter (!·.isNull)).foldl add []

end Tally

/-- A multiplier column and the mean of its numbers. -/
structure Multiplier (N : Type) where
  relationship : Relationship
  counts : List N
  mean : N

namespace Multiplier

def column (m : Multiplier N) : Column N :=
  ⟨m.relationship.multiplier.qualified, m.counts.map .num⟩

/-- The key column of the table that the relationship references; it has to be the only primary
key. -/
def key (t : Table N) (f : Frame N) (r : Relationship) : Except PreparationError (Column N) :=
  match t.singlePrimaryKey? with
  | none => .error (.unsupportedRelationship r.identifier .notSinglePrimaryKey)
  | some name =>
    if r.targetAttribute != name then
      .error (.unsupportedRelationship r.identifier .notPrimaryKeyReference)
    else match f.column? (qualify t.name name) with
      | none => .error (.columnNotFound t.name (qualify t.name name))
      | some c => .ok c

def compute (g : Schema N) (source : RawSource N) (t : Table N) (f : Frame N) (r : Relationship) :
    Except PreparationError (Multiplier N) := do
  let key ← key t f r
  let referencing ← (g.table r.source).mapError .schema
  let raw ← source referencing.name
  match raw.column? r.sourceAttribute with
  | none => .error (.columnNotFound referencing.name r.sourceAttribute)
  | some references =>
    let tally := Tally.ofValues references
    let counts := key.values.map fun v => Scalar.ofNat (tally.get v) / referencing.sampleRate
    return ⟨r, counts, if counts.isEmpty then 0 else Scalar.mean counts⟩

/-- The multipliers of all relationships that reference the table, each added to the frame. -/
def addAll (g : Schema N) (source : RawSource N) (t : Table N) (f : Frame N) :
    Except PreparationError (Frame N × List (Multiplier N)) := do
  let incoming ← (g.incoming t.name).mapError .schema
  incoming.foldlM (fun (f, ms) r => do
    let m ← compute g source t f r
    return (f ++ [m.column], ms ++ [m])) (f, [])

end Multiplier

end ApproxQuery
