import ApproxQuery.Prepare.EncodedTable
import ApproxQuery.Store.Error

/-!
# Table files

A table file holds the name of a table, its columns and the bits of their numbers. A text is its
length in bytes and its bytes, a list its length and its items, and a number eight bytes, the lowest
first. A length below 251 is one byte; a longer one is a mark and two, four or eight bytes.
-/

namespace ApproxQuery.TableFile

/-- The lowest `count` bytes of a number, the lowest first. -/
def bytes : Nat → Nat → List UInt8
  | 0, _ => []
  | count + 1, n => n.toUInt8 :: bytes count (n / 256)

def ofBytes : List UInt8 → Nat
  | [] => 0
  | b :: bs => b.toNat + 256 * ofBytes bs

def writeLength (n : Nat) : List UInt8 :=
  if n < 251 then [n.toUInt8]
  else if n < 65536 then 251 :: bytes 2 n
  else if n < 4294967296 then 252 :: bytes 4 n
  else 253 :: bytes 8 n

def writeText (s : String) : List UInt8 :=
  writeLength s.utf8ByteSize ++ s.toUTF8.toList

def writeNumber (x : UInt64) : List UInt8 :=
  bytes 8 x.toNat

def writeList {α : Type} (write : α → List UInt8) (xs : List α) : List UInt8 :=
  writeLength xs.length ++ xs.flatMap write

def write (t : EncodedTable UInt64) : List UInt8 :=
  writeText t.name ++ writeList writeText t.columns ++ writeList (writeList writeNumber) t.data

/-- Reads from the front of a list of bytes. -/
abbrev Reader (α : Type) := StateT (List UInt8) (Except StoreError) α

def take (n : Nat) : Reader (List UInt8) := fun bs =>
  if n ≤ bs.length then .ok (bs.take n, bs.drop n) else .error .undecodable

def readLength : Reader Nat := do
  match ← take 1 with
  | [251] => return ofBytes (← take 2)
  | [252] => return ofBytes (← take 4)
  | [253] => return ofBytes (← take 8)
  | [b] => if b < 251 then return b.toNat else throw .undecodable
  | _ => throw .undecodable

/-- No memory has room for a text of so many bytes. -/
def unboundedLength : Nat := 9223372036854775808

def readText : Reader String := do
  let n ← readLength
  if unboundedLength ≤ n then throw .lengthOverflow
  match String.fromUTF8? ⟨(← take n).toArray⟩ with
  | some s => return s
  | none => throw .undecodable

def readNumber : Reader UInt64 := do
  return (ofBytes (← take 8)).toUInt64

def readTimes {α : Type} (read : Reader α) : Nat → Reader (List α)
  | 0 => return []
  | n + 1 => do
    let x ← read
    return x :: (← readTimes read n)

def readList {α : Type} (read : Reader α) : Reader (List α) := do
  readTimes read (← readLength)

/-- The table at the front of a list of bytes; bytes after it do not matter. -/
def read (bs : List UInt8) : Except StoreError (EncodedTable UInt64) :=
  Prod.fst <$> (do
    let name ← readText
    let columns ← readList readText
    let data ← readList (readList readNumber)
    return ⟨name, columns, data⟩ : Reader (EncodedTable UInt64)) bs

end ApproxQuery.TableFile
