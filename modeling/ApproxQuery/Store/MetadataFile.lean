import ApproxQuery.Document.Printer
import ApproxQuery.Document.Reader
import ApproxQuery.Prepare.Metadata
import ApproxQuery.Store.Error

/-!
# The metadata file

The metadata of all tables is one document, a record with a field for each table. Every field of a
table's metadata has to be there when it is read; further fields do not matter.
-/

namespace ApproxQuery.MetadataFile

def writeValue : Value Float → Document
  | .null => .ofString "Null"
  | .int i => .ofFields [("Int", .ofInt i.toInt)]
  | .num x => .ofFields [("Float", .ofFloat x)]
  | .text s => .ofFields [("Text", .ofString s)]

def writeMap {α : Type} (write : α → Document) (m : SortedMap String α) : Document :=
  .ofFields (m.toList.map fun (k, v) => (k, write v))

def writeStrings (ss : List String) : Document :=
  .list (ss.map .ofString)

def writeDictionary (d : Dictionary Float) : Document :=
  .ofFields [("values", .list (d.map writeValue))]

def writeDependencyMap (m : DependencyMap Float) : Document :=
  .ofFields [("entries", .list (m.map fun (a, b) => .list [writeValue a, writeValue b]))]

def writeTable (m : TableMetadata Float) : Document :=
  .ofFields [
    ("table", .ofString m.table),
    ("length", .ofNat m.length),
    ("stored_length", .ofNat m.storedLength),
    ("sample_rate", .ofFloat m.sampleRate),
    ("columns", writeStrings m.columns),
    ("categoricals", writeMap writeDictionary m.categoricals),
    ("null_values", writeMap .ofFloat m.nullValues),
    ("dependencies", writeMap (writeMap writeDependencyMap) m.dependencies),
    ("incoming_means", writeMap .ofFloat m.incomingMeans),
    ("dropped_attributes", writeStrings m.dropped)]

def write (m : SortedMap String (TableMetadata Float)) : String :=
  (writeMap writeTable m).render

/-- A value is a record with its kind as the only field; null may be its name alone. -/
def readValue (d : Document) : Option (Value Float) :=
  match d.toString? with
  | some kind => if kind = "Null" then some .null else none
  | none => do
    match ← d.toFields? with
    | [("Null", .null)] => return .null
    | [("Int", d)] => return .int (← d.toInt64?)
    | [("Float", d)] => return .num (← d.toFloat?)
    | [("Text", d)] => return .text (← d.toString?)
    | _ => none

def readList {α : Type} (read : Document → Option α) (d : Document) : Option (List α) := do
  (← d.toList?).mapM read

/-- Of two fields with one name the later one stays. -/
def readMap {α : Type} (read : Document → Option α) (d : Document) :
    Option (SortedMap String α) := do
  return .ofList (← (← d.toFields?).mapM fun (k, v) => return (k, ← read v))

/-- The only field of a record that has to be there. -/
def readOnly {α : Type} (name : String) (read : Document → Option α) (d : Document) : Option α := do
  match ← d.members? [name] with
  | [some d] => read d
  | _ => none

def readPair (d : Document) : Option (Value Float × Value Float) := do
  match ← d.toList? with
  | [a, b] => return (← readValue a, ← readValue b)
  | _ => none

def readDictionary : Document → Option (Dictionary Float) :=
  readOnly "values" (readList readValue)

def readDependencyMap : Document → Option (DependencyMap Float) :=
  readOnly "entries" (readList readPair)

def readTable (d : Document) : Option (TableMetadata Float) := do
  match ← d.members? ["table", "length", "stored_length", "sample_rate", "columns", "categoricals",
      "null_values", "dependencies", "incoming_means", "dropped_attributes"] with
  | [some table, some length, some storedLength, some sampleRate, some columns, some categoricals,
      some nullValues, some dependencies, some incomingMeans, some dropped] =>
    return {
      table := ← table.toString?
      length := (← length.toWord?).toNat
      storedLength := (← storedLength.toWord?).toNat
      sampleRate := ← sampleRate.toFloat?
      columns := ← readList Document.toString? columns
      categoricals := ← readMap readDictionary categoricals
      nullValues := ← readMap Document.toFloat? nullValues
      dependencies := ← readMap (readMap readDependencyMap) dependencies
      incomingMeans := ← readMap Document.toFloat? incomingMeans
      dropped := ← readList Document.toString? dropped }
  | _ => none

def read (s : String) : Except StoreError (SortedMap String (TableMetadata Float)) :=
  match (Document.parse? s).bind (readMap readTable) with
  | some m => .ok m
  | none => .error .malformedMetadata

end ApproxQuery.MetadataFile
