import ApproxQuery.Number.Binary64

/-!
# The fewest digits that read back

A positive binary64 value `mantissa * 2 ^ exponent` is surrounded by the interval of reals that
round to it. `Shortest.decimal` takes the first of the decimal grids with one, two, … significant
digits that has a point in that interval; of two such points it takes the nearer one.
-/

namespace ApproxQuery

/-- The number `digits * 10 ^ exponent`. -/
structure Decimal where
  digits : Nat
  exponent : Int
deriving DecidableEq, Repr

namespace Shortest

/-- Which of two equally near points is taken. -/
inductive Tie where
  | toEven
  | upward
deriving DecidableEq, Repr

/-- A positive value together with the ends of the interval of reals that round to it, all three
over the common denominator `den`. -/
structure Rounding where
  value : Nat
  low : Nat
  high : Nat
  den : Nat
  /-- The ends themselves round to the value. -/
  closed : Bool

/-- The gap below a power of two is half the gap above it, except at the smallest normal number. -/
def rounding (m : Nat) (e : Int) : Rounding :=
  let scale := Nat.pow 2 e.toNat
  let below := if m = 4503599627370496 ∧ -1074 < e then 1 else 2
  { value := 4 * m * scale
    low := (4 * m - below) * scale
    high := (4 * m + 2) * scale
    den := 4 * Nat.pow 2 (-e).toNat
    closed := m % 2 = 0 }

/-- The point `n * 10 ^ k` lies in the interval. -/
def Rounding.contains (r : Rounding) (n : Nat) (k : Int) : Bool :=
  let point := n * Nat.pow 10 k.toNat * r.den
  let unit := Nat.pow 10 (-k).toNat
  if r.closed then r.low * unit ≤ point && point ≤ r.high * unit
  else r.low * unit < point && point < r.high * unit

def digitCount (n : Nat) : Nat :=
  (Nat.toDigits 10 n).length

/-- The exponent of the leading digit of `value / den`. -/
def Rounding.leading (r : Rounding) : Int :=
  if r.den ≤ r.value then (digitCount (r.value / r.den) : Int) - 1
  else -(digitCount ((r.den + r.value - 1) / r.value - 1) : Int)

/-- The better of the two neighbours of the value on the grid of multiples of `10 ^ k`. -/
def Rounding.neighbour? (r : Rounding) (tie : Tie) (k : Int) : Option Nat :=
  let num := r.value * Nat.pow 10 (-k).toNat
  let den := r.den * Nat.pow 10 k.toNat
  let n := num / den
  let below := r.contains n k
  let above := r.contains (n + 1) k
  if below && above then
    match compare (2 * (num % den)) den with
    | .lt => some n
    | .gt => some (n + 1)
    | .eq => match tie with
      | .upward => some (n + 1)
      | .toEven => if n % 2 = 0 then some n else some (n + 1)
  else if below then some n
  else if above then some (n + 1)
  else none

/-- Moves the zeros at the end of the digits into the exponent; no decimal of interest has more
than `fuel` of them. -/
def strip : Nat → Decimal → Decimal
  | 0, d => d
  | fuel + 1, d =>
    if d.digits ≠ 0 ∧ d.digits % 10 = 0 then strip fuel ⟨d.digits / 10, d.exponent + 1⟩ else d

/-- The decimal with the fewest digits among those that round to `m * 2 ^ e`, for positive `m`;
seventeen digits always suffice. -/
def decimal (tie : Tie) (m : Nat) (e : Int) : Decimal :=
  let r := rounding m e
  let top := r.leading
  let hit := (List.range 17).findSome? fun (p : Nat) =>
    let k := top - p
    (r.neighbour? tie k).map fun n => Decimal.mk n k
  strip 20 (hit.getD ⟨r.value * Nat.pow 10 1100 / r.den, -1100⟩)

end Shortest

end ApproxQuery
