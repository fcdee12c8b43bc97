import ApproxQuery.Random.Generator

/-!
# The ChaCha generator with twelve rounds

The key is expanded from a 64-bit seed. Each block of sixteen words is the sum of the initial state,
which holds the constants, the key and the number of the block, and of the state after six double
rounds. Words are handed out in the order of the stream.
-/

namespace ApproxQuery

structure ChaCha where
  key : List UInt32
  /-- The number of the next block. -/
  block : UInt64
  /-- The words of the current block that are still to be handed out. -/
  unread : List UInt32
deriving DecidableEq, Repr

namespace ChaCha

abbrev State := Vector UInt32 16

def rotateLeft (x : UInt32) (n : UInt32) : UInt32 :=
  (x <<< n) ||| (x >>> (32 - n))

def quarterRound (s : State) (a b c d : Fin 16) : State :=
  let s := s.set a (s[a] + s[b])
  let s := s.set d (rotateLeft (s[d] ^^^ s[a]) 16)
  let s := s.set c (s[c] + s[d])
  let s := s.set b (rotateLeft (s[b] ^^^ s[c]) 12)
  let s := s.set a (s[a] + s[b])
  let s := s.set d (rotateLeft (s[d] ^^^ s[a]) 8)
  let s := s.set c (s[c] + s[d])
  s.set b (rotateLeft (s[b] ^^^ s[c]) 7)

/-- One round on the columns of the state and one on its diagonals. -/
def doubleRound (s : State) : State :=
  let s := quarterRound s 0 4 8 12
  let s := quarterRound s 1 5 9 13
  let s := quarterRound s 2 6 10 14
  let s := quarterRound s 3 7 11 15
  let s := quarterRound s 0 5 10 15
  let s := quarterRound s 1 6 11 12
  let s := quarterRound s 2 7 8 13
  quarterRound s 3 4 9 14

def constants : List UInt32 := [0x61707865, 0x3320646e, 0x79622d32, 0x6b206574]

def initial (key : List UInt32) (block : UInt64) : State :=
  let words := constants ++ key ++ [block.toUInt32, (block >>> 32).toUInt32, 0, 0]
  Vector.ofFn fun i => words.getD i 0

def blockWords (key : List UInt32) (block : UInt64) : List UInt32 :=
  let start := initial key block
  let mixed := (List.range 6).foldl (fun s _ => doubleRound s) start
  (mixed.zipWith (· + ·) start).toList

/-- The words that a seed is expanded to. -/
def expand : Nat → UInt64 → List UInt32
  | 0, _ => []
  | n + 1, s =>
    let s := s * 6364136223846793005 + 11634580027462260723
    let x := (((s >>> 18) ^^^ s) >>> 27).toUInt32
    let turn := (s >>> 59).toUInt32
    ((x >>> turn) ||| (x <<< ((32 - turn) % 32))) :: expand n s

def ofSeed (seed : UInt64) : ChaCha :=
  ⟨expand 8 seed, 0, []⟩

def next (g : ChaCha) : UInt32 × ChaCha :=
  match g.unread with
  | w :: ws => (w, { g with unread := ws })
  | [] =>
    match blockWords g.key g.block with
    | w :: ws => (w, ⟨g.key, g.block + 1, ws⟩)
    | [] => (0, g)

/-- A word of 64 bits is made of the next two of 32, the low half first. -/
def next64 (g : ChaCha) : UInt64 × ChaCha :=
  let (low, g) := next g
  let (high, g) := next g
  (low.toUInt64 ||| (high.toUInt64 <<< 32), g)

instance : Generator ChaCha where
  next32 := next
  next64 := next64

end ChaCha

end ApproxQuery
