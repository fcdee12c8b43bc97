import ApproxQuery.Name
import ApproxQuery.Number.Scalar

/-!
# Tables

A table names its attributes, its keys and what is known about its data: how many rows it has, the
share of rows that were sampled from it, and which attributes determine others.
-/

namespace ApproxQuery

/-- The determinant fixes the value of the dependent; both are qualified names. -/
structure Dependency where
  determinant : String
  dependent : String
deriving DecidableEq, Repr

structure Table (N : Type) where
  name : String
  /-- No attributes mean that any attribute is accepted. -/
  attributes : List String
  primaryKeys : List String
  size : Nat
  /-- The share of the rows of the full table that the raw data holds. -/
  sampleRate : N
  dependencies : List Dependency
  /-- The attribute that tells whether a joined row lacks this table. -/
  nullIndicator : String
  /-- Attributes that are left out of the prepared table. -/
  ignored : List String
  /-- Attributes that are prepared but left out of samples. -/
  irrelevant : List String
  /-- Attributes that are stored even when another one determines them. -/
  noCompress : List String
  /-- Identifiers of the relationships that reference this table. -/
  incoming : List String
  /-- Identifiers of the relationships through which this table references others. -/
  outgoing : List String
deriving DecidableEq, Repr

namespace Table

variable {N : Type} [Scalar N]

def named (name : String) : Table N where
  name := name
  attributes := []
  primaryKeys := ["id"]
  size := 1000
  sampleRate := 1
  dependencies := []
  nullIndicator := name ++ "_is_null"
  ignored := []
  irrelevant := []
  noCompress := []
  incoming := []
  outgoing := []

/-- Declares that one attribute of the table determines another. -/
def withDependency (t : Table N) (determinant dependent : String) : Table N :=
  let rule := ⟨qualify t.name determinant, qualify t.name dependent⟩
  { t with dependencies := t.dependencies ++ [rule] }

/-- The qualified names that a qualified name determines. -/
def dependentsOf (t : Table N) (column : String) : List String :=
  (t.dependencies.filter (·.determinant == column)).map (·.dependent)

/-- The qualified names that determine a qualified name. -/
def determinantsOf (t : Table N) (column : String) : List String :=
  (t.dependencies.filter (·.dependent == column)).map (·.determinant)

def declares (t : Table N) (name : String) : Bool :=
  t.attributes.contains name

/-- The attribute is declared, or the table declares none. -/
def accepts (t : Table N) (name : String) : Bool :=
  t.attributes.isEmpty || t.declares name

def qualifiedAttributes (t : Table N) : List String :=
  t.attributes.map (qualify t.name)

def qualifiedNullIndicator (t : Table N) : String :=
  qualify t.name t.nullIndicator

def singlePrimaryKey? (t : Table N) : Option String :=
  match t.primaryKeys with
  | [key] => some key
  | _ => none

/-- The attribute that a qualified name of this table stands for. -/
def unqualified (t : Table N) (column : String) : String :=
  let start := (t.name ++ ".").toList
  if start.isPrefixOf column.toList then String.ofList (column.toList.drop start.length) else column

/-- The first attribute named by a dependency rule that the table does not accept. -/
def undeclaredInRules? (t : Table N) : Option String :=
  (t.dependencies.flatMap fun d => [t.unqualified d.determinant, t.unqualified d.dependent]).find?
    (!t.accepts ·)

end Table

end ApproxQuery
