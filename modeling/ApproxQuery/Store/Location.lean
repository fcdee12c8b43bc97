/-!
# Locations of table files

The file of a table is found by a path that starts at the store. Empty parts of the path and single
points lead nowhere, so `t` and `./t` have one file, and two points lead to the directory above. A
store holds no directories, so no other part may stand before the name of the file. The main
statement is `location?_of_plain`: a name that is no path has a file of its own.
-/

namespace ApproxQuery.Location

/-- The parts of a path, between the strokes. -/
def parts : List Char → List (List Char)
  | [] => [[]]
  | c :: r =>
    if c = '/' then [] :: parts r
    else match parts r with
      | p :: ps => (c :: p) :: ps
      | [] => [[c]]

theorem parts_eq_singleton {cs : List Char} (h : '/' ∉ cs) : parts cs = [cs] := by
  induction cs with
  | nil => rfl
  | cons c r ih =>
    have hc : c ≠ '/' := fun e => h (e ▸ List.mem_cons_self)
    have hr : '/' ∉ r := fun e => h (List.mem_cons_of_mem _ e)
    simp [parts, hc, ih hr]

/-- The part leads to another directory or names a file. -/
def leads (part : List Char) : Bool :=
  part != [] && part != ['.']

def climbs (part : List Char) : Bool :=
  part == ['.', '.']

/-- The most bytes that the name of a file may have. -/
def longestName : Nat := 255

/-- The most bytes that a path from the store may have. -/
def longestPath : Nat := 4070

def tablePath (table : String) : String :=
  table ++ ".bin"

/-- The last part of the path of a table's file. -/
def fileName (table : String) : String :=
  String.ofList ((parts (tablePath table).toList).getLastD [])

/-- A path that starts at the store and is no longer than a path may be. -/
def isRelative (path : String) : Bool :=
  path.toList.head? != some '/' && !path.toList.contains '\x00' &&
    path.utf8ByteSize ≤ longestPath

/-- The shortest path to the file of a table, if there can be such a file. -/
def location? (table : String) : Option String :=
  let way := (parts (tablePath table).toList).filter leads
  if isRelative (tablePath table) && (fileName table).utf8ByteSize ≤ longestName &&
      way.dropLast.all climbs then
    some (String.intercalate "/" (way.map String.ofList))
  else none

theorem toList_tablePath (table : String) :
    (tablePath table).toList = table.toList ++ ['.', 'b', 'i', 'n'] := by
  simp [tablePath]

theorem parts_of_plain {table : String} (hpath : '/' ∉ table.toList) :
    parts (tablePath table).toList = [(tablePath table).toList] := by
  apply parts_eq_singleton
  rw [toList_tablePath]
  simp [hpath]

theorem leads_tablePath (table : String) : leads (tablePath table).toList = true := by
  rw [toList_tablePath, leads]
  cases table.toList <;> simp

theorem location?_of_plain {table : String} (hpath : '/' ∉ table.toList)
    (hnull : '\x00' ∉ table.toList) (hlong : (tablePath table).utf8ByteSize ≤ longestName) :
    location? table = some (tablePath table) := by
  have hname : fileName table = tablePath table := by
    rw [fileName, parts_of_plain hpath]
    exact String.ofList_toList
  have hrelative : isRelative (tablePath table) = true := by
    have hlong' : (tablePath table).utf8ByteSize ≤ longestPath :=
      Nat.le_trans hlong (by decide)
    have hhead : (tablePath table).toList.head? ≠ some '/' := by
      intro h
      have := List.mem_of_mem_head? h
      rw [toList_tablePath] at this
      simp [hpath] at this
    have hnull' : '\x00' ∉ (tablePath table).toList := by
      rw [toList_tablePath]
      simp [hnull]
    simp [isRelative, hlong', hhead, hnull']
  simp [location?, parts_of_plain hpath, leads_tablePath, hname, hrelative, hlong]

end ApproxQuery.Location
