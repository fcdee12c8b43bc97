import ApproxQuery.Estimate.Term
import ApproxQuery.Sorted.Map

/-!
# The term memo

The values of evaluated indicator terms, in buckets by the hash of the term. A term is answered from
an entry that it matches, or from the reciprocal of an entry that is its inverse.
-/

namespace ApproxQuery

structure TermMemo (N : Type) where
  hash : IndicatorTerm N → UInt64
  buckets : SortedMap UInt64 (List (IndicatorTerm N × N))
  /-- The number of lookups that were answered. -/
  hits : Nat

namespace TermMemo

variable {N : Type}

def empty (hash : IndicatorTerm N → UInt64) : TermMemo N := ⟨hash, ∅, 0⟩

def bucket (m : TermMemo N) (t : IndicatorTerm N) : List (IndicatorTerm N × N) :=
  (m.buckets.get? (m.hash t)).getD []

def size (m : TermMemo N) : Nat :=
  m.buckets.toList.foldl (fun n b => n + b.2.length) 0

/-- The memo without entries; the lookups stay counted. -/
def clear (m : TermMemo N) : TermMemo N := { m with buckets := ∅ }

variable [Scalar N]

def known? (m : TermMemo N) (t : IndicatorTerm N) : Option N :=
  ((m.bucket t).find? fun e => e.1.same t false false).map (·.2)

def reciprocal? (m : TermMemo N) (t : IndicatorTerm N) : Option N :=
  ((m.bucket t.inverted).find? fun e => e.1.isInverse t && !Scalar.eq e.2 0).map (1 / ·.2)

def find? (m : TermMemo N) (t : IndicatorTerm N) : Option N :=
  (m.known? t).or (m.reciprocal? t)

/-- The known value of a term; a lookup that finds one is counted. -/
def get (m : TermMemo N) (t : IndicatorTerm N) : Option N × TermMemo N :=
  match m.find? t with
  | some v => (some v, { m with hits := m.hits + 1 })
  | none => (none, m)

/-- Notes the value of a term, unless a matching one is known. -/
def insert (m : TermMemo N) (t : IndicatorTerm N) (v : N) : TermMemo N :=
  let known := m.bucket t
  if known.any fun e => e.1.same t false false then m
  else { m with buckets := m.buckets.insert (m.hash t) (known ++ [(t, v)]) }

/-- The known value of a term, or the evaluated one, which is then noted. -/
def getOrEvaluate {ε : Type} (m : TermMemo N) (t : IndicatorTerm N)
    (evaluate : IndicatorTerm N → Except ε N) : Except ε N × TermMemo N :=
  match m.get t with
  | (some v, m) => (.ok v, m)
  | (none, m) => match evaluate t with
    | .error e => (.error e, m)
    | .ok v => (.ok v, m.insert t v)

end TermMemo

end ApproxQuery
