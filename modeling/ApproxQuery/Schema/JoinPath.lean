import ApproxQuery.Schema.Basic
import ApproxQuery.Sorted.Set

/-!
# Join paths

A join path starts at one table and joins the listed relationships one after another, each time the
first one that has an end among the tables joined so far.
-/

namespace ApproxQuery

/-- How a relationship extends the joined tables. -/
inductive JoinStep where
  /-- The referenced table is joined; each of its rows meets all rows that reference it. -/
  | fanOut (relationship newTable : String)
  /-- The referencing table is joined; each of its rows meets the row that it references. -/
  | lookup (relationship newTable : String)
  /-- Both tables are joined; the relationship only filters. -/
  | cycle (relationship : String)
deriving DecidableEq, Repr

namespace JoinStep

def relationship : JoinStep → String
  | fanOut r _ | lookup r _ | cycle r => r

def newTable? : JoinStep → Option String
  | fanOut _ t | lookup _ t => some t
  | cycle _ => none

/-- The step that a relationship makes from the joined tables, if it has an end among them. -/
def ofJoined? (joined : List String) (r : Relationship) : Option JoinStep :=
  match joined.contains r.source, joined.contains r.target with
  | true, true => some (cycle r.identifier)
  | false, true => some (fanOut r.identifier r.source)
  | true, false => some (lookup r.identifier r.target)
  | false, false => none

end JoinStep

structure JoinPath where
  start : String
  steps : List JoinStep
deriving DecidableEq, Repr

namespace JoinPath

/-- The tables in the order in which they are joined. -/
def tables (p : JoinPath) : List String :=
  p.start :: p.steps.filterMap (·.newTable?)

variable {N : Type} [Scalar N]

/-- The first relationship that can be joined, and the others in their order. -/
def takeStep (g : Schema N) (joined : List String) :
    List String → Except SchemaError (Option (JoinStep × List String))
  | [] => .ok none
  | id :: rest => do
    let r ← g.relationship id
    match JoinStep.ofJoined? joined r with
    | some step => .ok (some (step, rest))
    | none => return (← takeStep g joined rest).map fun (step, left) => (step, id :: left)

/-- Joins the remaining relationships, in as many rounds as there are of them. -/
def chain (g : Schema N) :
    Nat → List String → List String → Except SchemaError (List JoinStep)
  | 0, _, _ => .ok []
  | rounds + 1, joined, remaining => do
    match ← takeStep g joined remaining with
    | none => .error (.noJoinPath (SortedSet.ofList joined).toList remaining)
    | some (step, left) =>
      return step :: (← chain g rounds (joined ++ step.newTable?.toList) left)

/-- The path from a table through all listed relationships. -/
def assemble (g : Schema N) (start : String) (identifiers : List String) :
    Except SchemaError JoinPath := do
  let _ ← g.table start
  return ⟨start, ← chain g identifiers.length [start] identifiers⟩

end JoinPath

end ApproxQuery
