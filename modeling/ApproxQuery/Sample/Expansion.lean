import ApproxQuery.Random.Draw
import ApproxQuery.Sample.Block
import ApproxQuery.Schema.JoinPath

/-!
# Expansion of start rows along a join path

A tuple holds one row for each table joined so far, or none where the table has no partner. A step
that adds a table extends each tuple by every row with an equal key, or by no row if there is none;
a step that closes a cycle keeps the tuples whose keys agree or one of whose rows is missing.
-/

namespace ApproxQuery

/-- The row of each joined table, in the order of the path. -/
abbrev JoinTuple := List (Option Nat)

namespace Expansion

variable {N : Type} [Scalar N]

/-- The place of a table among the blocks, and the values of its key. -/
def side (blocks : List (TableBlock N)) (table key : String) :
    Except SampleError (Nat × List (Value N)) := do
  match blocks.findIdx? (·.name == table) with
  | none => .error .outOfRange
  | some place =>
    match blocks[place]? with
    | none => .error .outOfRange
    | some b => return (place, ← b.keys key)

/-- The row of a tuple at a place, if there is one. -/
def rowOf (side : Nat × List (Value N)) (t : JoinTuple) : Except SampleError (Option Nat) :=
  match t[side.1]? with
  | none => .error .outOfRange
  | some row => .ok row

/-- The key of a row. -/
def keyOf (side : Nat × List (Value N)) (row : Nat) : Except SampleError (Value N) :=
  match side.2[row]? with
  | none => .error .outOfRange
  | some v => .ok v

/-- The rows whose key is equal to the value; null is equal to no key. -/
def partners (keys : List (Value N)) (v : Value N) : List Nat :=
  (keys.zipIdx.filter fun (k, _) => !k.isNull && k == v).map Prod.snd

/-- The tuple with each partner of its key, or without one. -/
def extend (joined : Nat × List (Value N)) (keys : List (Value N)) (t : JoinTuple) :
    Except SampleError (List JoinTuple) := do
  match ← rowOf joined t with
  | none => return [t ++ [none]]
  | some row =>
    match partners keys (← keyOf joined row) with
    | [] => return [t ++ [none]]
    | rows => return rows.map fun row => t ++ [some row]

/-- The keys agree, or one of the rows is missing; null agrees with no key. -/
def agrees (source target : Nat × List (Value N)) (t : JoinTuple) : Except SampleError Bool := do
  match ← rowOf source t, ← rowOf target t with
  | some i, some j =>
    let v ← keyOf source i
    if v.isNull then return false else return v == (← keyOf target j)
  | _, _ => return true

def step (g : Schema N) (blocks : List (TableBlock N)) (tuples : List JoinTuple) (s : JoinStep) :
    Except SampleError (List JoinTuple) := do
  let r ← (g.relationship s.relationship).mapError .schema
  let source ← side blocks r.source r.sourceAttribute
  let target ← side blocks r.target r.targetAttribute
  match s with
  | .cycle _ => tuples.filterM (agrees source target)
  | .fanOut _ _ => return (← tuples.mapM (extend target source.2)).flatten
  | .lookup _ _ => return (← tuples.mapM (extend source target.2)).flatten

/-- All tuples that the start rows expand to. -/
def run (g : Schema N) (blocks : List (TableBlock N)) (steps : List JoinStep) (start : List Nat) :
    Except SampleError (List JoinTuple) :=
  steps.foldlM (step g blocks) (start.map fun row => [some row])

/-- Keeps a random set of `size` tuples if there are more, in their order. -/
def thin {G : Type} [Generator G] (size : Nat) (tuples : List JoinTuple) :
    StateM G (List JoinTuple) := do
  if size < tuples.length then
    let places := tuples.toArray
    return (← Draw.sortedIndices tuples.length size).filterMap (places[·]?)
  else return tuples

end Expansion

end ApproxQuery
