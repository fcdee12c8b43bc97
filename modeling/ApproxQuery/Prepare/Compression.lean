import ApproxQuery.Prepare.Frame
import ApproxQuery.Prepare.Metadata

/-!
# Compression of dependent columns

A column that another one determines is left out of the table and replaced by the map from the
values of its determinant. A determinant may be compressed itself, but never through its own
dependents, so every chain of determinants ends in a stored column.
-/

namespace ApproxQuery

variable {N : Type} [Scalar N]

/-- Adds the dependent's value for a value of the determinant, unless it is known. -/
def DependencyMap.add (table determinant dependent : String) (map : DependencyMap N)
    (entry : Value N × Value N) : Except PreparationError (DependencyMap N) :=
  match map.find? (·.1 == entry.1) with
  | none => .ok (map ++ [entry])
  | some known =>
    if known.2 == entry.2 then .ok map
    else .error (.dependencyViolated table determinant dependent entry.1.display
      known.2.display entry.2.display)

/-- The map from the values of the determinant to those of the dependent. -/
def DependencyMap.build (table : String) (determinant dependent : Column N) :
    Except PreparationError (DependencyMap N) :=
  (determinant.values.zip dependent.values).foldlM (add table determinant.name dependent.name) []

/-- What has been compressed so far. -/
structure Compression (N : Type) where
  /-- The determinant of each compressed column. -/
  via : List (String × String)
  maps : SortedMap String (SortedMap String (DependencyMap N))

namespace Compression

inductive Walk where
  | meets
  | clear
  | endless
deriving DecidableEq, Repr

/-- Follows the determinants from a column, along at most `fuel` of them, looking for a target. -/
def walk (via : List (String × String)) (target : String) : Nat → Option String → Walk
  | _, none => .clear
  | 0, some _ => .endless
  | fuel + 1, some column =>
    if column == target then .meets else walk via target fuel (via.lookup column)

/-- Whether the dependent is met on the way up from the determinant. -/
def ancestry (via : List (String × String)) (determinant dependent : String) : Walk :=
  walk via dependent via.length (via.lookup determinant)

/-- Compresses one column through one determinant, unless it must be kept, is compressed already,
is an ancestor of the determinant or is not in the frame. -/
def step (t : Table N) (f : Frame N) (s : Compression N) (rule : Column N × String) :
    Except PreparationError (Compression N) :=
  let (determinant, dependent) := rule
  if t.noCompress.contains (t.unqualified dependent) || (s.via.lookup dependent).isSome then .ok s
  else match ancestry s.via determinant.name dependent with
    | .meets => .ok s
    | .endless => .error (.endless t.name dependent)
    | .clear =>
      match f.column? dependent with
      | none => .ok s
      | some column => do
        let map ← DependencyMap.build t.name determinant column
        let maps := (s.maps.get? determinant.name).getD ∅
        return ⟨s.via ++ [(dependent, determinant.name)],
          s.maps.insert determinant.name (maps.insert dependent map)⟩

/-- The rules of the table whose determinant is a column that will be stored or compressed, in the
order of the columns. -/
def rules (t : Table N) (f : Frame N) (maxUnique : Nat) : List (Column N × String) :=
  (f.filterMap fun c => f.column? c.name).flatMap fun determinant =>
    if determinant.isUnfit maxUnique then []
    else (t.dependentsOf determinant.name).map (determinant, ·)

def run (t : Table N) (f : Frame N) (maxUnique : Nat) : Except PreparationError (Compression N) :=
  (rules t f maxUnique).foldlM (step t f) ⟨[], ∅⟩

/-- The columns that stay. -/
def remaining (s : Compression N) (f : Frame N) : Frame N :=
  f.erase (s.via.map Prod.fst)

end Compression

end ApproxQuery
