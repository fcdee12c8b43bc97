import ApproxQuery.Random.Draw

/-!
# Rounding at random and sampling rates
-/

namespace ApproxQuery

variable {N : Type} [Scalar N] {G : Type} [Generator G]

/-- Rounds up with a probability equal to the fraction, so that the mean result is the value. What
is negative or not finite rounds to zero, and nothing rounds above the largest 64-bit word. -/
def probabilityRound (x : N) : StateM G Nat :=
  match if Scalar.lt 0 x && Scalar.isFinite x then Scalar.floor? x else none with
  | none => return 0
  | some floor => do
    let fraction := x - Scalar.ofInt floor
    let whole := min floor.toNat (UInt64.size - 1)
    if Scalar.lt 0 fraction then
      let draw : N ← Draw.share
      return if Scalar.lt draw fraction then whole + 1 else whole
    else return whole

/-- The share of the start rows that is drawn: all of them if no more rows are expected than wanted,
and otherwise the wanted share times a factor that makes up for rows lost later. -/
def effectiveRate (size : Nat) (estimatedRows factor : N) : N :=
  if Scalar.lt (Scalar.ofNat size) estimatedRows then
    Scalar.min (Scalar.ofNat size / estimatedRows * factor) 1
  else 1

end ApproxQuery
