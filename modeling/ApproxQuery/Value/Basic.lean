import ApproxQuery.Number.Reader
import ApproxQuery.Number.Scalar

/-!
# Cell values

A cell is null, a 64-bit integer, a number or a text. An integer and a number are equal when the
number stands for that integer; numbers are equal when they stand for the same number, and all that
are not numbers are equal to each other. `Value.key` is what a hash table is given for a value.
-/

namespace ApproxQuery

inductive Value (N : Type) where
  | null
  | int (i : Int64)
  | num (x : N)
  | text (s : String)
deriving Repr

namespace Value

variable {N : Type} [Scalar N]

def isNull : Value N → Bool
  | null => true
  | _ => false

def isText : Value N → Bool
  | text _ => true
  | _ => false

def toScalar? : Value N → Option N
  | int i => some (Scalar.ofInt i.toInt)
  | num x => some x
  | _ => none

def toText? : Value N → Option String
  | text s => some s
  | _ => none

/-- The 64-bit integer that a number is equal to, if there is one. -/
def word? (x : N) : Option Int64 :=
  (Scalar.integer? x).bind Number.int64?

/-- Equality by exact numeric value. -/
def eq : Value N → Value N → Bool
  | null, null => true
  | text s, text t => s == t
  | int i, int j => i == j
  | int i, num x | num x, int i => word? x == some i
  | num x, num y => Scalar.canonical x == Scalar.canonical y
  | _, _ => false

instance : BEq (Value N) := ⟨eq⟩

/-- What a value is hashed by. -/
inductive Key (N : Type) where
  | null
  | text (s : String)
  | int (i : Int64)
  | num (x : N)
deriving DecidableEq, Repr

def key : Value N → Key N
  | null => .null
  | text s => .text s
  | int i => .int i
  | num x => (word? x).elim (.num (Scalar.canonical x)) .int

/-- The text of a value; a text stands for itself. -/
def display : Value N → String
  | null => "NULL"
  | int i => toString i.toInt
  | num x => Scalar.text x
  | text s => s

/-- The members of a list, each once, in the order of their first occurrence. -/
def distinct (vs : List (Value N)) : List (Value N) :=
  vs.foldl (fun seen v => if seen.contains v then seen else seen ++ [v]) []

end Value

end ApproxQuery
