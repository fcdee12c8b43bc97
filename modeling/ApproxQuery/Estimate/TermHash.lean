import ApproxQuery.Estimate.Term

/-!
# Hashes of indicator terms

A term is hashed part by part, each list as the set of the hashes of its items, so that terms that
match have one hash whatever the items are hashed with.
-/

namespace ApproxQuery

/-- How the items of a term are hashed, and lists of hashes. -/
structure ItemHash (N : Type) where
  column : AttributeRef → UInt64
  condition : Condition N → UInt64
  table : String → UInt64
  list : List UInt64 → UInt64

/-- The hash of a list to which neither order nor repetition of the items matters. -/
def ItemHash.set {N α : Type} (h : ItemHash N) (item : α → UInt64) (xs : List α) : UInt64 :=
  h.list (SortedSet.ofList (xs.map item)).toList

def IndicatorTerm.hash {N : Type} (t : IndicatorTerm N) (h : ItemHash N) : UInt64 :=
  h.list [if t.inverse then 1 else 0, h.set h.column t.numerator,
    h.set h.column t.denominator, h.set h.condition t.conditions,
    h.list (t.tables.toList.map h.table)]

def AttributeRef.hash (a : AttributeRef) : UInt64 :=
  mixHash (Hashable.hash a.table) (Hashable.hash a.name)

variable {N : Type} [Scalar N]

def Value.Key.hash : Value.Key N → UInt64
  | null => 1
  | text s => mixHash 2 (Hashable.hash s)
  | int i => mixHash 3 i.toUInt64
  | num x => mixHash 4 (Hashable.hash (Scalar.text x))

def Condition.Key.hash (k : Condition.Key N) : UInt64 :=
  let literal := match k.literal with
    | .absent => [1]
    | .single v => [2, v.hash]
    | .list vs => 3 :: vs.map Value.Key.hash
  literal.foldl mixHash (mixHash k.column.hash (Hashable.hash k.operator.symbol))

/-- The hash of conditions is that of their keys, so equal conditions have one hash. -/
def ItemHash.standard : ItemHash N where
  column := AttributeRef.hash
  condition c := c.key.hash
  table := Hashable.hash
  list hs := hs.foldl mixHash 7

end ApproxQuery
