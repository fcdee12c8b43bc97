import ApproxQuery.Prepare.EncodedTable
import ApproxQuery.Sorted.Map
import ApproxQuery.Store.Error

/-!
# The table cache

A table is read from the store when it is first asked for and handed out from the cache afterwards.
A read that fails leaves no entry. A disabled cache keeps nothing.
-/

namespace ApproxQuery

structure TableCache (N : Type) where
  entries : SortedMap String (EncodedTable N)
  disabled : Bool
  /-- The names that were asked from the store, in order. -/
  reads : List String

namespace TableCache

variable {N : Type}

def empty (disabled : Bool) : TableCache N := ⟨∅, disabled, []⟩

def get? (c : TableCache N) (name : String) : Option (EncodedTable N) :=
  c.entries.get? name

def size (c : TableCache N) : Nat := c.entries.size

def getOrLoad (c : TableCache N) (name : String)
    (load : String → Except StoreError (EncodedTable N)) :
    Except StoreError (EncodedTable N) × TableCache N :=
  match c.get? name with
  | some t => (.ok t, c)
  | none =>
    let c := { c with reads := c.reads ++ [name] }
    match load name with
    | .error e => (.error e, c)
    | .ok t => (.ok t, if c.disabled then c else { c with entries := c.entries.insert name t })

end TableCache

end ApproxQuery
