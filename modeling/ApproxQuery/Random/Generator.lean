/-!
# Sources of random words

Every draw of the library goes through a generator, which hands out words of 32 or 64 bits one
after another. Draws are written for any generator, so statements about them hold for every stream
of words.
-/

namespace ApproxQuery

class Generator (G : Type) where
  next32 : StateM G UInt32
  next64 : StateM G UInt64

/-- A generator that is one of two kinds. -/
instance {G H : Type} [Generator G] [Generator H] : Generator (G ⊕ H) where
  next32
    | .inl g => (Generator.next32 g).map id .inl
    | .inr h => (Generator.next32 h).map id .inr
  next64
    | .inl g => (Generator.next64 g).map id .inl
    | .inr h => (Generator.next64 h).map id .inr

end ApproxQuery
