import ApproxQuery.Prepare.Basic
import ApproxQuery.Store.Location
import ApproxQuery.Store.MetadataFile
import ApproxQuery.Store.TableFile

/-!
# Stores

A store keeps a file for each prepared table and one file with the metadata of all tables. All
tables of a schema are prepared before the first of them is written.
-/

namespace ApproxQuery

structure Store where
  /-- The bytes of the table files, by location. -/
  files : SortedMap String (List UInt8)
  metadata? : Option String

namespace Store

def empty : Store := ⟨∅, none⟩

/-- The bytes of the file of a table. -/
def file? (s : Store) (table : String) : Option (List UInt8) :=
  (Location.location? table).bind s.files.get?

def writeFile (s : Store) (table : String) (bytes : List UInt8) : Except StoreError Store :=
  match Location.location? table with
  | some l => .ok { s with files := s.files.insert l bytes }
  | none => .error .inaccessible

/-- Saves a table that is given by the bits of its numbers. -/
def saveBits (s : Store) (t : EncodedTable UInt64) : Except StoreError Store :=
  s.writeFile t.name (TableFile.write t)

def saveTable (s : Store) (t : EncodedTable Float) : Except StoreError Store :=
  s.saveBits (t.map Float.toBits)

def loadTable (s : Store) (name : String) : Except StoreError (EncodedTable Float) :=
  match s.file? name with
  | none => .error (.missingTable name)
  | some bytes => (TableFile.read bytes).map (·.map Float.ofBits)

def removeTable (s : Store) (name : String) : Store :=
  match Location.location? name with
  | some l => { s with files := s.files.erase l }
  | none => s

def saveMetadata (s : Store) (m : SortedMap String (TableMetadata Float)) : Store :=
  { s with metadata? := some (MetadataFile.write m) }

def loadMetadata (s : Store) : Except StoreError (SortedMap String (TableMetadata Float)) :=
  match s.metadata? with
  | none => .error .inaccessible
  | some text => MetadataFile.read text

/-- Saves tables up to the first one that cannot be saved. -/
def saveTables : List (EncodedTable Float) → Store → Except StoreError Unit × Store
  | [], s => (.ok (), s)
  | t :: ts, s =>
    match s.saveTable t with
    | .error e => (.error e, s)
    | .ok s => saveTables ts s

/-- Prepares all tables of a schema, and saves them with their metadata if that succeeds. -/
def prepareAll (s : Store) (g : Schema Float) (source : RawSource Float)
    (config : PreparationConfig Float) :
    Except PreparationError (SortedMap String (TableMetadata Float)) × Store :=
  match g.tables.mapM fun t => g.prepare source config t.name with
  | .error e => (.error e, s)
  | .ok prepared =>
    match saveTables (prepared.map (·.table)) s with
    | (.error e, s) => (.error (.store e), s)
    | (.ok (), s) =>
      let metadata := .ofList (prepared.map fun p => (p.metadata.table, p.metadata))
      (.ok metadata, s.saveMetadata metadata)

end Store

end ApproxQuery
