import ApproxQuery.Prepare.RawTable
import ApproxQuery.Schema.Table

/-!
# Frames

A frame is a table on its way from raw rows to numbers: a list of named columns of values.
-/

namespace ApproxQuery

structure Column (N : Type) where
  name : String
  values : List (Value N)

abbrev Frame (N : Type) := List (Column N)

namespace Frame

variable {N : Type} [Scalar N]

/-- The first column of a name. -/
def column? (f : Frame N) (name : String) : Option (Column N) :=
  f.find? (·.name == name)

/-- The columns of the raw table that are not ignored, under their qualified names. Every declared
attribute has to be there. -/
def ofRaw (t : Table N) (raw : RawTable N) : Except PreparationError (Frame N) :=
  match t.attributes.find? fun a => (raw.columnIndex? a).isNone with
  | some a => .error (.columnNotFound t.name a)
  | none => .ok <| (raw.columns.zipIdx.filter fun (c, _) => !t.ignored.contains c).map
      fun (c, place) => ⟨qualify t.name c, raw.valuesAt place⟩

/-- Removes the first column of each name. -/
def erase (f : Frame N) (names : List String) : Frame N :=
  names.foldl (fun f name => f.eraseP (·.name == name)) f

end Frame

namespace Column

variable {N : Type} [Scalar N]

def hasText (c : Column N) : Bool :=
  c.values.any Value.isText

def hasNull (c : Column N) : Bool :=
  c.values.any Value.isNull

def present (c : Column N) : List (Value N) :=
  c.values.filter (!·.isNull)

/-- The column is left out: it holds no value at all, or it holds texts and too many different
values. -/
def isUnfit (maxUnique : Nat) (c : Column N) : Bool :=
  c.present.isEmpty || (c.hasText && maxUnique < (Value.distinct c.present).length)

end Column

end ApproxQuery
