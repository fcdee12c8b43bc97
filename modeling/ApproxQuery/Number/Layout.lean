import ApproxQuery.Number.Shortest

/-!
# Written forms of numbers

Two layouts of a binary64 number: `Layout.plain` never writes an exponent, `Layout.document` is the
form of stored documents, which keeps a point in every number and turns to an exponent for very
large and very small ones.
-/

namespace ApproxQuery.Layout

def zeros (n : Nat) : List Char :=
  List.replicate n '0'

/-- The digits with a point set at their exponent; a whole number has neither point nor fraction. -/
def positional (d : Decimal) : List Char :=
  let ds := Nat.toDigits 10 d.digits
  if 0 ≤ d.exponent then ds ++ zeros d.exponent.toNat
  else
    let places := (-d.exponent).toNat
    if places < ds.length then
      ds.take (ds.length - places) ++ '.' :: ds.drop (ds.length - places)
    else '0' :: '.' :: zeros (places - ds.length) ++ ds

/-- One digit before the point, and the exponent with a sign. -/
def scientific (d : Decimal) : List Char :=
  let ds := Nat.toDigits 10 d.digits
  let e := d.exponent + (ds.length - 1 : Nat)
  let power := (if 0 ≤ e then '+' else '-') :: Nat.toDigits 10 e.natAbs
  match ds with
  | [] => []
  | [c] => c :: 'e' :: power
  | c :: rest => c :: '.' :: rest ++ 'e' :: power

def sign (negative : Bool) : List Char :=
  if negative then ['-'] else []

/-- The shortest text that reads back, always positional; `-0` keeps its sign. -/
def plain (x : Float) : String :=
  match Binary64.ofFloat x with
  | .notANumber => "NaN"
  | .infinite negative => String.ofList (sign negative ++ ['i', 'n', 'f'])
  | .finite negative m e =>
    let body := if m = 0 then ['0'] else positional (Shortest.decimal .upward m e)
    String.ofList (sign negative ++ body)

/-- The exponent of the leading digit lies where the document form is positional. -/
def isPlainRange (d : Decimal) : Bool :=
  let e := d.exponent + (Shortest.digitCount d.digits - 1 : Nat)
  decide (-5 ≤ e) && decide (e < 16)

/-- The text of a number in a stored document; a number that is not finite is written `null`. -/
def document (x : Float) : String :=
  match Binary64.ofFloat x with
  | .notANumber | .infinite _ => "null"
  | .finite negative m e =>
    if m = 0 then String.ofList (sign negative ++ ['0', '.', '0']) else
      let d := Shortest.decimal .toEven m e
      let body :=
        if isPlainRange d then
          if 0 ≤ d.exponent then positional d ++ ['.', '0'] else positional d
        else scientific d
      String.ofList (sign negative ++ body)

end ApproxQuery.Layout
