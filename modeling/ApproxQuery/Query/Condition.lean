import ApproxQuery.Name
import ApproxQuery.Value.Literal

/-!
# Conditions

A condition compares the values of one attribute with a literal. Null satisfies no comparison; only
`IS NULL` holds of it. Values of different kinds are compared as numbers when neither is a text.
-/

namespace ApproxQuery

inductive Operator where
  | eq
  | notEq
  | lt
  | le
  | gt
  | ge
  | isIn
  | isNull
  | isNotNull
deriving DecidableEq, Repr

namespace Operator

def symbol : Operator → String
  | eq => "="
  | notEq => "!="
  | lt => "<"
  | le => "<="
  | gt => ">"
  | ge => ">="
  | isIn => "IN"
  | isNull => "IS NULL"
  | isNotNull => "IS NOT NULL"

/-- Whether the order of a value and a literal satisfies the operator. -/
def admits : Operator → Ordering → Bool
  | eq, o => o == .eq
  | notEq, o => o != .eq
  | lt, o => o == .lt
  | le, o => o != .gt
  | gt, o => o == .gt
  | ge, o => o != .lt
  | _, _ => false

end Operator

/-- What an operator compares with: nothing, one value or the values of a list. -/
inductive Literal (α : Type) where
  | absent
  | single (v : α)
  | list (vs : List α)
deriving DecidableEq, BEq, Repr

def Literal.map {α β : Type} (f : α → β) : Literal α → Literal β
  | absent => absent
  | single v => single (f v)
  | list vs => list (vs.map f)

variable {N : Type} [Scalar N]

/-- The order of two integers, two texts or two numbers. -/
def Value.compare? : Value N → Value N → Option Ordering
  | .int i, .int j => some (compare i j)
  | .text s, .text t => some (compare s t)
  | .text _, _ | _, .text _ => none
  | v, w => do Scalar.compare? (← v.toScalar?) (← w.toScalar?)

structure Condition (N : Type) where
  column : AttributeRef
  operator : Operator
  literal : Literal (Value N)

namespace Condition

/-- The column has this value. -/
def equals (column : AttributeRef) (v : Value N) : Condition N :=
  ⟨column, .eq, .single v⟩

/-- Equality up to equality of values. -/
def eq (c d : Condition N) : Bool :=
  c.column == d.column && c.operator == d.operator && c.literal == d.literal

instance : BEq (Condition N) := ⟨eq⟩

/-- What a condition is hashed by. -/
structure Key (N : Type) where
  column : AttributeRef
  operator : Operator
  literal : Literal (Value.Key N)
deriving DecidableEq, Repr

def key (c : Condition N) : Key N :=
  ⟨c.column, c.operator, c.literal.map Value.key⟩

/-- Whether a value of the column satisfies the condition. -/
def holds (c : Condition N) (v : Value N) : Bool :=
  match c.operator, c.literal with
  | .isNull, _ => v.isNull
  | .isNotNull, _ => !v.isNull
  | .isIn, .list vs => !v.isNull && vs.contains v
  | op, .single w => !v.isNull && (v.compare? w).any op.admits
  | _, _ => false

def literalText : Literal (Value N) → String
  | .absent => ""
  | .single v => " " ++ v.literal
  | .list vs => " (" ++ String.intercalate ", " (vs.map Value.literal) ++ ")"

def text (c : Condition N) : String :=
  c.column.qualified ++ " " ++ c.operator.symbol ++ literalText c.literal

end Condition

/-- A conjunction of conditions. -/
def conjunction (cs : List (Condition N)) : String :=
  String.intercalate " AND " (cs.map Condition.text)

end ApproxQuery
