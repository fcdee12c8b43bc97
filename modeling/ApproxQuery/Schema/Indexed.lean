import ApproxQuery.Schema.Basic
import ApproxQuery.Sorted.Map

/-!
# Schemas with indexes

A schema as it is held while it is built: next to the lists of tables and relationships stand indexes
from names to positions. An addition checks everything before it changes the lists, the indexes and
the tables at both ends one after another. Without its indexes it is a `Schema`.
-/

namespace ApproxQuery

namespace Table

/-- A setting that is made on a table before it is added. -/
inductive Setting (N : Type) where
  | attributes (names : List String)
  | primaryKeys (names : List String)
  | size (rows : Nat)
  | sampleRate (rate : N)
  | nullIndicator (name : String)
  | dependency (determinant dependent : String)
  | ignored (names : List String)
  | irrelevant (names : List String)
  | noCompress (names : List String)
deriving DecidableEq, Repr

variable {N : Type}

def Setting.apply (t : Table N) : Setting N → Table N
  | attributes names => { t with attributes := names }
  | primaryKeys names => { t with primaryKeys := names }
  | size rows => { t with size := rows }
  | sampleRate rate => { t with sampleRate := rate }
  | nullIndicator name => { t with nullIndicator := name }
  | dependency determinant dependent => t.withDependency determinant dependent
  | ignored names => { t with ignored := names }
  | irrelevant names => { t with irrelevant := names }
  | noCompress names => { t with noCompress := names }

/-- The table of a name with settings made one after another. -/
def configured [Scalar N] (name : String) (settings : List (Setting N)) : Table N :=
  settings.foldl Setting.apply (named name)

end Table

structure IndexedSchema (N : Type) where
  tables : List (Table N)
  relationships : List Relationship
  tableIndex : SortedMap String Nat
  relationshipIndex : SortedMap String Nat
deriving DecidableEq

/-- Why an operation of an indexed schema has no result. -/
inductive SchemaFault where
  | refused (e : SchemaError)
  /-- An indexed position lies beyond the list. -/
  | outOfRange (position : Nat)
deriving DecidableEq, Repr

/-- Changes made before a fault stay made. -/
abbrev SchemaUpdate (N α : Type) := ExceptT SchemaFault (StateM (IndexedSchema N)) α

namespace IndexedSchema

variable {N : Type} [Scalar N]

def empty : IndexedSchema N := ⟨[], [], ∅, ∅⟩

/-- The schema without its indexes. -/
def plain (g : IndexedSchema N) : Schema N := ⟨g.tables, g.relationships⟩

/-- The indexed position of a table. -/
def position (g : IndexedSchema N) (name : String) : Except SchemaFault Nat :=
  match g.tableIndex.get? name with
  | some i => .ok i
  | none => .error (.refused (.unknownTable name))

def tableAt (g : IndexedSchema N) (i : Nat) : Except SchemaFault (Table N) :=
  match g.tables[i]? with
  | some t => .ok t
  | none => .error (.outOfRange i)

def relationshipAt (g : IndexedSchema N) (i : Nat) : Except SchemaFault Relationship :=
  match g.relationships[i]? with
  | some r => .ok r
  | none => .error (.outOfRange i)

def table (g : IndexedSchema N) (name : String) : Except SchemaFault (Table N) := do
  g.tableAt (← g.position name)

def relationship (g : IndexedSchema N) (identifier : String) : Except SchemaFault Relationship :=
  match g.relationshipIndex.get? identifier with
  | some i => g.relationshipAt i
  | none => .error (.refused (.unknownRelationship identifier))

def containsTable (g : IndexedSchema N) (name : String) : Bool :=
  g.tableIndex.contains name

def incoming (g : IndexedSchema N) (table : String) : Except SchemaFault (List Relationship) := do
  (← g.table table).incoming.mapM g.relationship

def outgoing (g : IndexedSchema N) (table : String) : Except SchemaFault (List Relationship) := do
  (← g.table table).outgoing.mapM g.relationship

def addTable (t : Table N) : SchemaUpdate N Unit := do
  if (← get).containsTable t.name then
    throw (.refused (.duplicateTable t.name))
  if !Schema.isRate t.sampleRate then
    throw (.refused (.rateOutside t.name (Scalar.text t.sampleRate)))
  if let some name := t.undeclaredInRules? then
    throw (.refused (.unknownAttribute t.name name))
  modify fun g => { g with tableIndex := g.tableIndex.insert t.name g.tables.length }
  modify fun g => { g with tables := g.tables ++ [t] }

/-- Refuses an attribute that the table at the position does not accept. -/
def checkAttribute (i : Nat) (name : String) : SchemaUpdate N Unit := do
  let t ← (← get).tableAt i
  if !t.accepts name then
    throw (.refused (.unknownAttribute t.name name))

/-- Changes the table at the position. -/
def modifyTable (i : Nat) (f : Table N → Table N) : SchemaUpdate N Unit := do
  let t ← (← get).tableAt i
  modify fun g => { g with tables := g.tables.set i (f t) }

/-- Adds the relationship and notes it with the tables at the positions. -/
def register (source target : Nat) (r : Relationship) : SchemaUpdate N Unit := do
  modifyTable source fun t => { t with outgoing := t.outgoing ++ [r.identifier] }
  modifyTable target fun t => { t with incoming := t.incoming ++ [r.identifier] }
  modify fun g =>
    { g with relationshipIndex := g.relationshipIndex.insert r.identifier g.relationships.length }
  modify fun g => { g with relationships := g.relationships ++ [r] }

/-- Adds a relationship between known tables and answers its identifier. -/
def addRelationship (r : Relationship) : SchemaUpdate N String := do
  let source ← (← get).position r.source
  let target ← (← get).position r.target
  checkAttribute source r.sourceAttribute
  checkAttribute target r.targetAttribute
  if (← get).relationshipIndex.contains r.identifier then
    throw (.refused (.duplicateRelationship r.identifier))
  register source target r
  return r.identifier

end IndexedSchema

/-- A call that adds something to a schema. -/
inductive SchemaCall (N : Type) where
  | addTable (name : String) (settings : List (Table.Setting N))
  | addRelationship (source sourceAttribute target targetAttribute : String)
      (multiplier? : Option String)
deriving DecidableEq, Repr

namespace SchemaCall

variable {N : Type} [Scalar N]

/-- The update that the call makes; an added relationship is answered with its identifier. -/
def update : SchemaCall N → SchemaUpdate N (Option String)
  | addTable name settings => do
    IndexedSchema.addTable (Table.configured name settings)
    return none
  | addRelationship source sourceAttribute target targetAttribute multiplier? =>
    return some (← IndexedSchema.addRelationship
      (.between source sourceAttribute target targetAttribute multiplier?))

/-- The answer to the call, and the schema after it. -/
def run (call : SchemaCall N) (g : IndexedSchema N) :
    Except SchemaFault (Option String) × IndexedSchema N :=
  call.update.run.run g

/-- The schema after calls on the empty one, refused calls included. -/
def after (calls : List (SchemaCall N)) : IndexedSchema N :=
  calls.foldl (fun g call => (call.run g).2) .empty

end SchemaCall

end ApproxQuery
