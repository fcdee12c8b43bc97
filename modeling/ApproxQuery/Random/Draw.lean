import ApproxQuery.Number.Scalar
import ApproxQuery.Random.Generator

/-!
# Random draws

Draws from a range, of a share between zero and one, of an order, and of a set of indices. Which
words a draw takes from the generator is fixed, so equal generators give equal draws.
-/

namespace ApproxQuery.Draw

variable {G : Type} [Generator G]

/-- The words that are refused before a draw from a range settles for the last one. -/
def patience : Nat := 65536

/-- Takes words until the low half of `word * n` is at most `zone`; the high half is the draw. -/
def settle (n zone : Nat) : Nat → StateM G Nat
  | 0 => do
    let word ← Generator.next32
    return word.toNat * n / UInt32.size
  | refusals + 1 => do
    let word ← Generator.next32
    let product := word.toNat * n
    if product % UInt32.size ≤ zone then return product / UInt32.size else settle n zone refusals

/-- A draw from the numbers `low` to `high`, both included. -/
def below (low high : Nat) : StateM G Nat := do
  let n := high - low + 1
  let zone := n * Nat.pow 2 (31 - n.log2) - 1
  return low + (← settle n zone patience)

/-- A draw from the multiples of `2 ^ -52` from zero to one. -/
def share {N : Type} [Scalar N] : StateM G N := do
  let word ← Generator.next64
  return (Scalar.ofNat (word >>> 12).toNat / Scalar.ofNat 4503599627370496 : N)

/-- Swaps every place, from the last one down, with a place that is not above it. -/
def shuffle {α : Type} (xs : Array α) : StateM G (Array α) :=
  (List.range xs.size).tail.reverse.foldlM (fun xs i => do
    return xs.swapIfInBounds i (← below 0 i)) xs

/-- The first places of a partly shuffled list of all indices. -/
def inPlace (length amount : Nat) : StateM G (List Nat) := do
  let xs ← (List.range amount).foldlM (fun xs i => do
    return xs.swapIfInBounds i (← below i (length - 1))) (Array.range length)
  return (xs.take amount).toList

/-- One step for each of the last `amount` indices: a draw up to the index, or the index itself if
the draw was chosen before. -/
def floyd (length amount : Nat) : StateM G (List Nat) := do
  let ordered := amount < 50
  let chosen ← (List.range' (length - amount) amount).foldlM (fun chosen j => do
    let t ← below 0 j
    match chosen.findIdx? (· == t) with
    | none => return chosen ++ [t]
    | some place => return if ordered then chosen.insertIdx place j else chosen ++ [j]) []
  if ordered then return chosen else return (← shuffle chosen.toArray).toList

/-- The bound for the low half under which every draw below `n` is equally likely, and no word is
refused without need. -/
def tightZone (n : Nat) : Nat :=
  UInt32.size - 1 - (UInt32.size - n) % n

/-- An index below `length` that was not chosen before. Draws of chosen indices are repeated; the
first index that is left is taken when patience runs out. -/
def fresh (length : Nat) (chosen : List Nat) : Nat → StateM G Nat
  | 0 => return ((List.range length).find? fun i => !chosen.contains i).getD 0
  | repeats + 1 => do
    let t ← settle length (tightZone length) patience
    if chosen.contains t then fresh length chosen repeats else return t

/-- Independent draws, repeated until they differ. -/
def scattered (length amount : Nat) : StateM G (List Nat) :=
  (List.range amount).foldlM (fun chosen _ => do
    return chosen ++ [← fresh length chosen patience]) []

/-- How a set of indices is chosen; all ways are equally random, but take other words. -/
inductive Method where
  | inPlace
  | floyd
  | scattered
deriving DecidableEq, Repr

/-- The cheapest method: up to how many indices it pays to shuffle the list of all of them. -/
def method (length amount : Nat) : Method :=
  let a := Float32.ofNat amount
  let pays (bound : Float32) := Float32.ofNat length < bound
  let short := length < 500000
  if amount < 12 then .floyd
  else if amount < 163 then
    if pays (if short then (10.0 + 1.6 * a) * a else (70.0 / 9.0 + 8.0 / 45.0 * a) * a) then .inPlace
    else .floyd
  else if pays (if short then 270.0 * a else 330.0 / 9.0 * a) then .inPlace
  else .scattered

/-- A set of `amount` different indices below `length`, in the order of their choice. -/
def indices (length amount : Nat) : StateM G (List Nat) :=
  match method length amount with
  | .inPlace => inPlace length amount
  | .floyd => floyd length amount
  | .scattered => scattered length amount

/-- The same set in increasing order. -/
def sortedIndices (length amount : Nat) : StateM G (List Nat) := do
  return (← indices length amount).mergeSort

end ApproxQuery.Draw
