/-!
# Reading numbers

Integers are an optional sign and digits. Decimals are an optional sign and either a special name
in any case, or digits with an optional point (a digit on at least one side) and an optional
exponent; they are rounded to the nearest binary64 number, and to an infinity when too large.
-/

namespace ApproxQuery.Number

/-- The number that a run of decimal digits stands for. -/
def ofDigits (cs : List Char) : Nat :=
  cs.foldl (fun n c => 10 * n + (c.toNat - '0'.toNat)) 0

def digits? (cs : List Char) : Option Nat :=
  if cs ≠ [] ∧ cs.all Char.isDigit then some (ofDigits cs) else none

/-- A sign in front, if there is one; true stands for minus. -/
def splitSign : List Char → Bool × List Char
  | '-' :: r => (true, r)
  | '+' :: r => (false, r)
  | cs => (false, cs)

def signedInt? (cs : List Char) : Option Int :=
  let (negative, body) := splitSign cs
  (digits? body).map fun n => if negative then -(n : Int) else n

/-- The word for an integer in the range of 64-bit words. -/
def int64? (i : Int) : Option Int64 :=
  if -9223372036854775808 ≤ i ∧ i < 9223372036854775808 then some (Int64.ofInt i) else none

def readInt64? (cs : List Char) : Option Int64 :=
  (signedInt? cs).bind int64?

/-- The exponent part of a decimal: nothing, or a mark and a signed number. -/
def exponent? : List Char → Option Int
  | [] => some 0
  | 'e' :: r | 'E' :: r => signedInt? r
  | _ => none

/-- The digits of an unsigned decimal and the power of ten that they are multiplied by. -/
def decimal? (cs : List Char) : Option (Nat × Int) :=
  let whole := cs.takeWhile Char.isDigit
  let (fraction, rest) := match cs.dropWhile Char.isDigit with
    | '.' :: r => (r.takeWhile Char.isDigit, r.dropWhile Char.isDigit)
    | r => ([], r)
  if whole ++ fraction = [] then none
  else (exponent? rest).map fun e => (ofDigits (whole ++ fraction), e - fraction.length)

def ofDecimal (digits : Nat) (exponent : Int) : Float :=
  Float.ofScientific digits (exponent < 0) exponent.natAbs

def lower (cs : List Char) : String :=
  String.ofList (cs.map Char.toLower)

def readFloat? (cs : List Char) : Option Float :=
  let (negative, body) := splitSign cs
  let magnitude : Option Float :=
    match lower body with
    | "inf" | "infinity" => some (1.0 / 0.0)
    | "nan" => some (0.0 / 0.0)
    | _ => (decimal? body).map fun (digits, exponent) => ofDecimal digits exponent
  magnitude.map fun x => if negative then -x else x

/-- The bits of a number; the sign is kept even of what is not a number. -/
def readBits? (cs : List Char) : Option UInt64 :=
  (readFloat? cs).map fun x =>
    if x.isNaN && (splitSign cs).1 then x.toBits ||| 0x8000000000000000 else x.toBits

end ApproxQuery.Number
