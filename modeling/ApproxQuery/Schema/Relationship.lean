import ApproxQuery.Name

/-!
# Relationships

A relationship is a foreign key: an attribute of the source table references one of the target
table. Its multiplier is an attribute of the target that counts, for each row, the source rows that
reference it; the defined multiplier is the same with zero replaced by one.
-/

namespace ApproxQuery

structure Relationship where
  source : String
  sourceAttribute : String
  target : String
  targetAttribute : String
  multiplierName : String
deriving DecidableEq, Repr

namespace Relationship

/-- The relationship between two attributes, with the multiplier's usual name if none is given. -/
def between (source sourceAttribute target targetAttribute : String)
    (multiplier? : Option String) : Relationship where
  source := source
  sourceAttribute := sourceAttribute
  target := target
  targetAttribute := targetAttribute
  multiplierName := multiplier?.getD ("mul_" ++ qualify source sourceAttribute)

def sourceColumn (r : Relationship) : String :=
  qualify r.source r.sourceAttribute

def targetColumn (r : Relationship) : String :=
  qualify r.target r.targetAttribute

/-- The equation of the two key columns, which names the relationship and joins its tables. -/
def identifier (r : Relationship) : String :=
  r.sourceColumn ++ " = " ++ r.targetColumn

def touches (r : Relationship) (table : String) : Bool :=
  r.source == table || r.target == table

def multiplier (r : Relationship) : AttributeRef :=
  ⟨r.target, r.multiplierName⟩

def definedMultiplier (r : Relationship) : AttributeRef :=
  ⟨r.target, r.multiplierName ++ "_nn"⟩

end Relationship

end ApproxQuery
