import ApproxQuery.Schema.Error
import ApproxQuery.Schema.Relationship
import ApproxQuery.Schema.Table

/-!
# Schemas

A schema is built from the empty one by adding tables and relationships. An addition that is
refused leaves the schema as it was. Tables and relationships are looked up by name.
-/

namespace ApproxQuery

structure Schema (N : Type) where
  tables : List (Table N)
  relationships : List Relationship
deriving DecidableEq, Repr

namespace Schema

variable {N : Type} [Scalar N]

def empty : Schema N := ⟨[], []⟩

def table? (g : Schema N) (name : String) : Option (Table N) :=
  g.tables.find? (·.name == name)

def relationship? (g : Schema N) (identifier : String) : Option Relationship :=
  g.relationships.find? (·.identifier == identifier)

/-- The place of a table in the order of addition. -/
def tableIndex? (g : Schema N) (name : String) : Option Nat :=
  g.tables.findIdx? (·.name == name)

/-- The place of a relationship in the order of addition. -/
def relationshipIndex? (g : Schema N) (identifier : String) : Option Nat :=
  g.relationships.findIdx? (·.identifier == identifier)

def containsTable (g : Schema N) (name : String) : Bool :=
  (g.table? name).isSome

def table (g : Schema N) (name : String) : Except SchemaError (Table N) :=
  match g.table? name with
  | some t => .ok t
  | none => .error (.unknownTable name)

def relationship (g : Schema N) (identifier : String) : Except SchemaError Relationship :=
  match g.relationship? identifier with
  | some r => .ok r
  | none => .error (.unknownRelationship identifier)

/-- The share lies above zero and is at most one. -/
def isRate (rate : N) : Bool :=
  Scalar.lt 0 rate && Scalar.le rate 1

def addTable (g : Schema N) (t : Table N) : Except SchemaError (Schema N) :=
  if g.containsTable t.name then .error (.duplicateTable t.name)
  else if !isRate t.sampleRate then .error (.rateOutside t.name (Scalar.text t.sampleRate))
  else match t.undeclaredInRules? with
    | some name => .error (.unknownAttribute t.name name)
    | none => .ok { g with tables := g.tables ++ [t] }

/-- Notes the relationship with its source and its target table. -/
def link (r : Relationship) (t : Table N) : Table N :=
  { t with
    outgoing := if t.name == r.source then t.outgoing ++ [r.identifier] else t.outgoing
    incoming := if t.name == r.target then t.incoming ++ [r.identifier] else t.incoming }

def addRelationship (g : Schema N) (r : Relationship) : Except SchemaError (Schema N) := do
  let source ← g.table r.source
  let target ← g.table r.target
  if !source.accepts r.sourceAttribute then
    .error (.unknownAttribute r.source r.sourceAttribute)
  else if !target.accepts r.targetAttribute then
    .error (.unknownAttribute r.target r.targetAttribute)
  else if (g.relationship? r.identifier).isSome then
    .error (.duplicateRelationship r.identifier)
  else
    .ok ⟨g.tables.map (link r), g.relationships ++ [r]⟩

/-- The relationships that reference the table. -/
def incoming (g : Schema N) (table : String) : Except SchemaError (List Relationship) := do
  (← g.table table).incoming.mapM g.relationship

/-- The relationships through which the table references others. -/
def outgoing (g : Schema N) (table : String) : Except SchemaError (List Relationship) := do
  (← g.table table).outgoing.mapM g.relationship

def dependentsOf (g : Schema N) (table name : String) : Except SchemaError (List String) := do
  return (← g.table table).dependentsOf (qualify table name)

def determinantsOf (g : Schema N) (table name : String) : Except SchemaError (List String) := do
  return (← g.table table).determinantsOf (qualify table name)

/-- The column is the multiplier of a relationship, or its defined multiplier. -/
def isMultiplier (g : Schema N) (column : String) : Bool :=
  g.relationships.any fun r =>
    r.multiplier.qualified == column || r.definedMultiplier.qualified == column

/-- The tables at the ends of the relationships, each once, in the order of first appearance. -/
def tablesOf (g : Schema N) (identifiers : List String) : Except SchemaError (List String) := do
  let rs ← identifiers.mapM g.relationship
  return (rs.flatMap fun r => [r.source, r.target]).foldl
    (fun seen t => if seen.contains t then seen else seen ++ [t]) []

end Schema

end ApproxQuery
