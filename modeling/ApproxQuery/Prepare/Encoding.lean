import ApproxQuery.Config.Basic
import ApproxQuery.Prepare.Frame
import ApproxQuery.Prepare.Metadata

/-!
# Encoding of columns as numbers

A column with texts is encoded by a dictionary of its values, every other column by its numbers. The
null marker of a numeric column lies a step above the mean; it must not occur among the numbers. In
a column without nulls the step is doubled until it does not.
-/

namespace ApproxQuery

variable {N : Type} [Scalar N]

namespace Sentinel

def collides (present : List N) (x : N) : Bool :=
  present.any (Scalar.eq · x)

/-- The step is large enough to be told apart from the mean. -/
def firstStep (epsilon mean : N) : N :=
  Scalar.max epsilon (Scalar.abs mean * Scalar.epsilon * 4)

/-- The first of `mean + step`, `mean + 2 * step`, … that is free or not finite, among at most
`tries`; `none` if all of these collide. -/
def widen (present : List N) (mean : N) : Nat → N → Option N
  | 0, _ => none
  | tries + 1, step =>
    let candidate := mean + step
    if Scalar.isFinite candidate && collides present candidate then
      widen present mean tries (step * 2)
    else some candidate

/-- The null marker of a column with these numbers. -/
def choose (table column : String) (present : List N) (hasNull : Bool) (epsilon : N) :
    Except PreparationError N :=
  let mean := Scalar.mean present
  let step := firstStep epsilon mean
  let first := mean + step
  if !Scalar.isFinite first then .error (.nonFinite table column)
  else if hasNull then
    if collides present first then .error (.sentinelCollision table column (Scalar.text first))
    else .ok first
  else match widen present mean (present.length + 1) step with
    | none => .error (.endless table column)
    | some sentinel =>
      if Scalar.isFinite sentinel then .ok sentinel else .error (.nonFinite table column)

end Sentinel

/-- The codes of the values of a column; a new value gets the next one. -/
def Dictionary.assign (vs : List (Value N)) : List (Value N × N) :=
  vs.foldl (fun codes v =>
    if codes.any (·.1 == v) then codes else codes ++ [(v, Scalar.ofNat (codes.length + 1))]) []

/-- What becomes of a column. -/
inductive EncodedColumn (N : Type) where
  | dropped
  | categorical (dictionary : Dictionary N) (codes : List N)
  | numeric (sentinel : N) (numbers : List N)

namespace EncodedColumn

def ofColumn (table : String) (config : PreparationConfig N) (c : Column N) :
    Except PreparationError (EncodedColumn N) :=
  if c.isUnfit config.maxUnique then .ok dropped
  else if c.hasText then
    let codes := Dictionary.assign c.present
    .ok (categorical (codes.map Prod.fst)
      (c.values.map fun v => ((codes.find? (·.1 == v)).map Prod.snd).getD 0))
  else
    let present := c.values.filterMap Value.toScalar?
    if present.any (!Scalar.isFinite ·) then .error (.nonFinite table c.name)
    else do
      let sentinel ← Sentinel.choose table c.name present c.hasNull config.nullEpsilon
      return numeric sentinel (c.values.map fun v => v.toScalar?.getD sentinel)

/-- Adds an encoded column to a table and to its metadata. -/
def addTo (p : PreparedTable N) (name : String) : EncodedColumn N → PreparedTable N
  | dropped => { p with metadata := { p.metadata with dropped := p.metadata.dropped ++ [name] } }
  | categorical dictionary codes =>
    { table := { p.table with columns := p.table.columns ++ [name], data := p.table.data ++ [codes] }
      metadata :=
        { p.metadata with
          categoricals := p.metadata.categoricals.insert name dictionary
          nullValues := p.metadata.nullValues.insert name 0 } }
  | numeric sentinel numbers =>
    { table :=
        { p.table with columns := p.table.columns ++ [name], data := p.table.data ++ [numbers] }
      metadata :=
        { p.metadata with nullValues := p.metadata.nullValues.insert name sentinel } }

/-- Encodes the columns of a frame one after another. -/
def addAll (config : PreparationConfig N) (p : PreparedTable N) (f : Frame N) :
    Except PreparationError (PreparedTable N) :=
  f.foldlM (fun p c => do return addTo p c.name (← ofColumn p.table.name config c)) p

end EncodedColumn

end ApproxQuery
