/-!
# Binary64 numbers as exact values

`Binary64.ofFloat` reads a machine number as what it stands for: not a number, an infinity, or
`± mantissa * 2 ^ exponent`. Whole parts are taken on that reading, in exact integers.
-/

namespace ApproxQuery

/-- What a machine number stands for; both zeros are `finite` with mantissa zero. -/
inductive Binary64 where
  | notANumber
  | infinite (negative : Bool)
  | finite (negative : Bool) (mantissa : Nat) (exponent : Int)
deriving DecidableEq, Repr

namespace Binary64

def ofFloat (x : Float) : Binary64 :=
  match x.toModel.unpack with
  | .notANumber => notANumber
  | .infinity s => infinite (s matches .negative)
  | .zero s => finite (s matches .negative) 0 0
  | .finite s m e _ => finite (s matches .negative) m e

def signed (negative : Bool) (n : Nat) : Int :=
  if negative then -n else n

/-- The largest integer that is not above the value. -/
def floor? : Binary64 → Option Int
  | finite negative m e =>
    if 0 ≤ e then some (signed negative m * Nat.pow 2 e.toNat)
    else some (signed negative m / Nat.pow 2 (-e).toNat)
  | _ => none

/-- The integer that the value is equal to, if it is one. -/
def integer? : Binary64 → Option Int
  | finite negative m e =>
    if 0 ≤ e then some (signed negative m * Nat.pow 2 e.toNat)
    else if m % Nat.pow 2 (-e).toNat = 0 then some (signed negative (m / Nat.pow 2 (-e).toNat))
    else none
  | _ => none

end Binary64

end ApproxQuery
