import ApproxQuery.Schema.Basic

/-!
# Requests for samples
-/

namespace ApproxQuery

inductive SampleTarget where
  | table (name : String)
  /-- The join along these relationships, in any order that chains. -/
  | relationships (identifiers : List String)
deriving DecidableEq, Repr

structure SampleRequest (N : Type) where
  target : SampleTarget
  size : Nat
  /-- Replaces the configured factor. -/
  factor? : Option N

namespace SampleRequest

variable {N : Type} [Scalar N]

def label (r : SampleRequest N) : String :=
  match r.target with
  | .table name => name
  | .relationships identifiers => String.intercalate " AND " identifiers

/-- One request for each table of a schema. -/
def singleTables (g : Schema N) (size : Nat) : List (SampleRequest N) :=
  g.tables.map fun t => ⟨.table t.name, size, none⟩

/-- One request for each relationship of a schema, which joins the two tables at its ends. -/
def eachRelationship (g : Schema N) (size : Nat) : List (SampleRequest N) :=
  g.relationships.map fun r => ⟨.relationships [r.identifier], size, none⟩

/-- The requests for all tables, then those for all relationships. -/
def all (g : Schema N) (size : Nat) : List (SampleRequest N) :=
  singleTables g size ++ eachRelationship g size

end SampleRequest

end ApproxQuery
