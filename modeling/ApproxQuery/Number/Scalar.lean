import ApproxQuery.Number.Layout

/-!
# The numbers that estimates are made of

Everything numeric in the library is written over a type of scalars. Machine numbers are the scalars
that programs run with; exact rationals are the scalars of statements about exact arithmetic.
-/

namespace ApproxQuery

class Scalar (N : Type) extends Add N, Sub N, Mul N, Div N where
  decEq : DecidableEq N
  ofInt : Int → N
  abs : N → N
  /-- The order; a scalar that is not a number is related to none. -/
  compare? : N → N → Option Ordering
  /-- One representative for all scalars that stand for the same number. -/
  canonical : N → N
  isFinite : N → Bool
  /-- The integer that the scalar is equal to, if it is one. -/
  integer? : N → Option Int
  /-- The largest integer not above a finite scalar. -/
  floor? : N → Option Int
  /-- The distance from one to the next machine number. -/
  epsilon : N
  text : N → String

namespace Scalar

variable {N : Type} [Scalar N]

instance : DecidableEq N := Scalar.decEq

instance (n : Nat) : OfNat N n := ⟨Scalar.ofInt n⟩

def ofNat (n : Nat) : N := Scalar.ofInt n

def isNaN (a : N) : Bool := (compare? a a).isNone

def lt (a b : N) : Bool := compare? a b == some .lt

def le (a b : N) : Bool := (compare? a b).any Ordering.isLE

/-- Equality of the order, which no scalar that is not a number satisfies. -/
def eq (a b : N) : Bool := compare? a b == some .eq

/-- The larger scalar, and the second of two equal ones; one that is not a number gives way to the
other. -/
def max (a b : N) : N := if isNaN a || le a b then b else a

/-- The smaller scalar, and the second of two equal ones; one that is not a number gives way to the
other. -/
def min (a b : N) : N := if isNaN a || le b a then b else a

/-- The sum from left to right. -/
def sum : List N → N
  | [] => 0
  | x :: xs => xs.foldl (· + ·) x

def mean (xs : List N) : N := sum xs / ofNat xs.length

end Scalar

namespace Binary64

/-- The order of machine numbers. -/
def compare? (a b : Float) : Option Ordering :=
  if a < b then some .lt else if a == b then some .eq else if b < a then some .gt else none

instance : Scalar Float where
  decEq := inferInstance
  ofInt := Float.ofInt
  abs := Float.abs
  compare? := compare?
  canonical x := if x == 0.0 then 0.0 else x
  isFinite := Float.isFinite
  integer? x := (ofFloat x).integer?
  floor? x := (ofFloat x).floor?
  epsilon := Float.ofBits 0x3CB0000000000000
  text := Layout.plain

end Binary64

namespace Exact

instance : Scalar Rat where
  decEq := inferInstance
  ofInt := Rat.ofInt
  abs x := if x.num < 0 then x.neg else x
  compare? a b := some (if a.blt b then .lt else if b.blt a then .gt else .eq)
  canonical := id
  isFinite _ := true
  integer? x := if x.den = 1 then some x.num else none
  floor? x := some x.floor
  epsilon := mkRat 1 4503599627370496
  text x := if x.den = 1 then toString x.num else s!"{x.num}/{x.den}"

end Exact

end ApproxQuery
