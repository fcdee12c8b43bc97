import ApproxQuery.Document.Basic

/-!
# Reading documents

The reader takes the JSON grammar as it stands: four blank characters, no leading zeros, no comma
before a closing bracket, no control characters in texts, and nothing after the value but blanks.
-/

namespace ApproxQuery.Document

def isBlank (c : Char) : Bool :=
  c == ' ' || c == '\n' || c == '\t' || c == '\r'

def skip (cs : List Char) : List Char :=
  cs.dropWhile isBlank

def hexValue? (c : Char) : Option Nat :=
  if c.isDigit then some (c.toNat - '0'.toNat)
  else if 'a' ≤ c && c ≤ 'f' then some (c.toNat - 'a'.toNat + 10)
  else if 'A' ≤ c && c ≤ 'F' then some (c.toNat - 'A'.toNat + 10)
  else none

def hex4? (a b c d : Char) : Option Nat := do
  return (((← hexValue? a) * 16 + (← hexValue? b)) * 16 + (← hexValue? c)) * 16 + (← hexValue? d)

def escape? : Char → Option Char
  | '"' => some '"'
  | '\\' => some '\\'
  | '/' => some '/'
  | 'b' => some '\x08'
  | 'f' => some '\x0c'
  | 'n' => some '\n'
  | 'r' => some '\r'
  | 't' => some '\t'
  | _ => none

def isHigh (n : Nat) : Bool := 0xD800 ≤ n && n < 0xDC00

def isLow (n : Nat) : Bool := 0xDC00 ≤ n && n < 0xE000

/-- One item of a text: a character, or a code unit written as an escape. -/
inductive Unit16 where
  | char (c : Char)
  | code (n : Nat)

/-- The items of a text up to its closing quote, and what follows. -/
def scanText : List Char → Option (List Unit16 × List Char)
  | [] => none
  | '"' :: r => some ([], r)
  | '\\' :: 'u' :: a :: b :: c :: d :: r =>
    match hex4? a b c d with
    | none => none
    | some n => (scanText r).map fun (us, rest) => (.code n :: us, rest)
  | '\\' :: c :: r =>
    match escape? c with
    | none => none
    | some e => (scanText r).map fun (us, rest) => (.char e :: us, rest)
  | c :: r =>
    if c.toNat < 32 then none
    else (scanText r).map fun (us, rest) => (.char c :: us, rest)

/-- The characters of a text, with code units paired where they have to be. -/
def joinUnits? : List Unit16 → Option (List Char)
  | [] => some []
  | .char c :: us => (joinUnits? us).map (c :: ·)
  | .code n :: us =>
    if isHigh n then
      match us with
      | .code m :: rest =>
        if isLow m then
          (joinUnits? rest).map
            (Char.ofNat (0x10000 + (n - 0xD800) * 0x400 + (m - 0xDC00)) :: ·)
        else none
      | _ => none
    else if isLow n then none
    else (joinUnits? us).map (Char.ofNat n :: ·)

def readText (cs : List Char) : Option (Option String × List Char) :=
  (scanText cs).map fun (us, rest) => ((joinUnits? us).map String.ofList, rest)

/-- At least one digit. -/
def readDigits (cs : List Char) : Option (List Char × List Char) :=
  match cs.takeWhile Char.isDigit with
  | [] => none
  | ds => some (ds, cs.dropWhile Char.isDigit)

def readWhole : List Char → Option (List Char × List Char)
  | '0' :: r => some (['0'], r)
  | cs => readDigits cs

def readFraction : List Char → Option (List Char × List Char)
  | '.' :: r => (readDigits r).map fun (ds, rest) => ('.' :: ds, rest)
  | cs => some ([], cs)

def readExponent : List Char → Option (List Char × List Char)
  | 'e' :: r | 'E' :: r =>
    match r with
    | '+' :: r => (readDigits r).map fun (ds, rest) => ('e' :: '+' :: ds, rest)
    | '-' :: r => (readDigits r).map fun (ds, rest) => ('e' :: '-' :: ds, rest)
    | r => (readDigits r).map fun (ds, rest) => ('e' :: ds, rest)
  | cs => some ([], cs)

def readNumber (cs : List Char) : Option (String × List Char) := do
  let (sign, cs) := match cs with
    | '-' :: r => (['-'], r)
    | r => ([], r)
  let (whole, cs) ← readWhole cs
  let (fraction, cs) ← readFraction cs
  let (exponent, cs) ← readExponent cs
  return (String.ofList (sign ++ whole ++ fraction ++ exponent), cs)

mutual

/-- A value and what follows it. Every call uses up a unit of fuel. -/
def readValue : Nat → List Char → Option (Document × List Char)
  | 0, _ => none
  | fuel + 1, cs =>
    match skip cs with
    | 'n' :: 'u' :: 'l' :: 'l' :: r => some (.null, r)
    | 't' :: 'r' :: 'u' :: 'e' :: r => some (.bool true, r)
    | 'f' :: 'a' :: 'l' :: 's' :: 'e' :: r => some (.bool false, r)
    | '"' :: r => (readText r).map fun (s?, rest) => (.text s?, rest)
    | '[' :: r =>
      match skip r with
      | ']' :: rest => some (.list [], rest)
      | r => (readItems fuel r).map fun (ds, rest) => (.list ds, rest)
    | '{' :: r =>
      match skip r with
      | '}' :: rest => some (.record [], rest)
      | r => (readFields fuel r).map fun (fs, rest) => (.record fs, rest)
    | r => (readNumber r).map fun (written, rest) => (.number written, rest)

/-- The items of a list up to its end. -/
def readItems : Nat → List Char → Option (List Document × List Char)
  | 0, _ => none
  | fuel + 1, cs => do
    let (d, r) ← readValue fuel cs
    match skip r with
    | ']' :: rest => return ([d], rest)
    | ',' :: r =>
      let (ds, rest) ← readItems fuel r
      return (d :: ds, rest)
    | _ => none

/-- The fields of a record up to its end. -/
def readFields : Nat → List Char → Option (List (Option String × Document) × List Char)
  | 0, _ => none
  | fuel + 1, cs => do
    let (key, r) ← match skip cs with
      | '"' :: r => readText r
      | _ => none
    let (d, r) ← match skip r with
      | ':' :: r => readValue fuel r
      | _ => none
    match skip r with
    | '}' :: rest => return ([(key, d)], rest)
    | ',' :: r =>
      let (fs, rest) ← readFields fuel r
      return ((key, d) :: fs, rest)
    | _ => none

end

/-- The document that a text holds. -/
def parse? (s : String) : Option Document := do
  let cs := s.toList
  let (d, rest) ← readValue (2 * cs.length + 2) cs
  if (skip rest).isEmpty then return d else none

end ApproxQuery.Document
