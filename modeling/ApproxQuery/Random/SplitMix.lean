import ApproxQuery.Random.Generator

/-!
# Given words, followed by SplitMix64

The generator hands out the listed words first and continues with SplitMix64 from a seed.
-/

namespace ApproxQuery

structure SplitMix where
  words : List UInt64
  state : UInt64
deriving DecidableEq, Repr

namespace SplitMix

def mix (z : UInt64) : UInt64 :=
  let z := (z ^^^ (z >>> 30)) * 0xBF58476D1CE4E5B9
  let z := (z ^^^ (z >>> 27)) * 0x94D049BB133111EB
  z ^^^ (z >>> 31)

def next (g : SplitMix) : UInt64 × SplitMix :=
  match g.words with
  | w :: ws => (w, { g with words := ws })
  | [] =>
    let state := g.state + 0x9E3779B97F4A7C15
    (mix state, ⟨[], state⟩)

/-- A word of 32 bits is the low half of one of 64. -/
instance : Generator SplitMix where
  next32 g := (next g).map (·.toUInt32) id
  next64 := next

end SplitMix

end ApproxQuery
