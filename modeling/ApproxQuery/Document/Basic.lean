import ApproxQuery.Number.Layout
import ApproxQuery.Number.Reader

/-!
# JSON documents

A document is a JSON value. Numbers keep the text they were written with, so that whoever reads
one decides what it may be. A text that holds half of a surrogate pair has no value; such a
text may stand only where nobody reads it.
-/

namespace ApproxQuery

inductive Document where
  | null
  | bool (b : Bool)
  | number (written : String)
  | text (s? : Option String)
  | list (items : List Document)
  | record (fields : List (Option String × Document))

namespace Document

def ofString (s : String) : Document := text (some s)

def ofNat (n : Nat) : Document := number (toString n)

def ofInt (i : Int) : Document := number (toString i)

/-- A number that is not finite is written `null`. -/
def ofFloat (x : Float) : Document :=
  if x.isFinite then number (Layout.document x) else null

def ofFields (fields : List (String × Document)) : Document :=
  record (fields.map fun (k, v) => (some k, v))

def toString? : Document → Option String
  | text s? => s?
  | _ => none

def toBool? : Document → Option Bool
  | bool b => some b
  | _ => none

/-- The natural number that is written with digits only. -/
def toNat? : Document → Option Nat
  | number written => Number.digits? written.toList
  | _ => none

def toWord? (d : Document) : Option UInt64 :=
  d.toNat?.bind fun n => if n < UInt64.size then some n.toUInt64 else none

/-- The integer that is written with digits and perhaps a minus; a zero has none. -/
def toInt64? : Document → Option Int64
  | number written =>
    if written = "-0" then none else Number.readInt64? written.toList
  | _ => none

def toFloat? : Document → Option Float
  | number written =>
    (Number.readFloat? written.toList).bind fun x => if x.isFinite then some x else none
  | _ => none

def toList? : Document → Option (List Document)
  | list items => some items
  | _ => none

/-- The fields of a record by name. -/
def toFields? : Document → Option (List (String × Document))
  | record fields => fields.mapM fun (k, v) => k.map (·, v)
  | _ => none

/-- The values of the named fields, in the order of the names. A record may lack some and have
others, but none of the named ones twice; a list gives the values in order and may end early. -/
def members? (names : List String) : Document → Option (List (Option Document))
  | list items =>
    if items.length ≤ names.length then
      some (items.map some ++ List.replicate (names.length - items.length) none)
    else none
  | record fields => do
    let fields ← (record fields).toFields?
    names.mapM fun name =>
      match fields.filter (·.1 == name) with
      | [] => some none
      | [(_, v)] => some (some v)
      | _ => none
  | _ => none

end Document

end ApproxQuery
