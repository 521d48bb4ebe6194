import SatLab.Random.Source
/-!
A key stream of 32-bit words: sixteen words are made from four constants, eight key words
and a block number by six double rounds of adding, exclusive-or and rotating, and the words
of block after block are handed out in order.
-/

set_option autoImplicit false
set_option relaxedAutoImplicit false

namespace SatLab.Random

structure Lanes where
  (a0 a1 a2 a3 b0 b1 b2 b3 c0 c1 c2 c3 d0 d1 d2 d3 : UInt32)
  deriving DecidableEq, Repr

def rotateLeft (w count : UInt32) : UInt32 :=
  (w <<< count) ||| (w >>> (32 - count))

@[inline] def quarterRound {α : Type} (a b c d : UInt32)
    (next : UInt32 → UInt32 → UInt32 → UInt32 → α) : α :=
  let a := a + b; let d := rotateLeft (d ^^^ a) 16
  let c := c + d; let b := rotateLeft (b ^^^ c) 12
  let a := a + b; let d := rotateLeft (d ^^^ a) 8
  let c := c + d; let b := rotateLeft (b ^^^ c) 7
  next a b c d

namespace Lanes

/-- Mixes the columns and then the diagonals. -/
def doubleRound (s : Lanes) : Lanes :=
  quarterRound s.a0 s.b0 s.c0 s.d0 fun a0 b0 c0 d0 =>
  quarterRound s.a1 s.b1 s.c1 s.d1 fun a1 b1 c1 d1 =>
  quarterRound s.a2 s.b2 s.c2 s.d2 fun a2 b2 c2 d2 =>
  quarterRound s.a3 s.b3 s.c3 s.d3 fun a3 b3 c3 d3 =>
  quarterRound a0 b1 c2 d3 fun a0 b1 c2 d3 =>
  quarterRound a1 b2 c3 d0 fun a1 b2 c3 d0 =>
  quarterRound a2 b3 c0 d1 fun a2 b3 c0 d1 =>
  quarterRound a3 b0 c1 d2 fun a3 b0 c1 d2 =>
  ⟨a0, a1, a2, a3, b0, b1, b2, b3, c0, c1, c2, c3, d0, d1, d2, d3⟩

def toArray (s : Lanes) : Array UInt32 :=
  #[s.a0, s.a1, s.a2, s.a3, s.b0, s.b1, s.b2, s.b3, s.c0, s.c1, s.c2, s.c3,
    s.d0, s.d1, s.d2, s.d3]

def add (s t : Lanes) : Lanes :=
  ⟨s.a0 + t.a0, s.a1 + t.a1, s.a2 + t.a2, s.a3 + t.a3,
   s.b0 + t.b0, s.b1 + t.b1, s.b2 + t.b2, s.b3 + t.b3,
   s.c0 + t.c0, s.c1 + t.c1, s.c2 + t.c2, s.c3 + t.c3,
   s.d0 + t.d0, s.d1 + t.d1, s.d2 + t.d2, s.d3 + t.d3⟩

def initial (k0 k1 k2 k3 k4 k5 k6 k7 : UInt32) (number : UInt64) : Lanes :=
  ⟨0x61707865, 0x3320646e, 0x79622d32, 0x6b206574, k0, k1, k2, k3, k4, k5, k6, k7,
   number.toUInt32, (number >>> 32).toUInt32, 0, 0⟩

def withNumber (s : Lanes) (number : UInt64) : Lanes :=
  { s with d0 := number.toUInt32, d1 := (number >>> 32).toUInt32 }

def mixed (s : Lanes) : Lanes :=
  (Nat.repeat doubleRound 6 s).add s

end Lanes

/-- A key stream with the words of its current block. -/
structure KeyStream where
  -- the block of the key, its number aside
  key : Lanes
  nextBlock : UInt64
  block : Array UInt32
  used : Nat

namespace KeyStream

def ofKey (key : Lanes) : KeyStream := ⟨key, 0, #[], 0⟩

def spread (s : UInt64) : UInt32 × UInt64 :=
  let s := s * 6364136223846793005 + 11634580027462260723
  let x := (((s >>> 18) ^^^ s) >>> 27).toUInt32
  let r := (s >>> 59).toUInt32
  ((x >>> r) ||| (x <<< ((32 - r) % 32)), s)

def ofSeed (seed : UInt64) : KeyStream :=
  let (k0, s) := spread seed
  let (k1, s) := spread s
  let (k2, s) := spread s
  let (k3, s) := spread s
  let (k4, s) := spread s
  let (k5, s) := spread s
  let (k6, s) := spread s
  let (k7, _) := spread s
  ofKey (.initial k0 k1 k2 k3 k4 k5 k6 k7 0)

/-- The next word, from a new block when the current one is used up. -/
def word (s : KeyStream) : UInt32 × KeyStream :=
  match s with
  | ⟨key, nextBlock, block, used⟩ =>
    if h : used < block.size then (block[used], ⟨key, nextBlock, block, used + 1⟩)
    else
      let lanes := (key.withNumber nextBlock).mixed
      (lanes.a0, ⟨key, nextBlock + 1, lanes.toArray, 1⟩)

instance : WordSource KeyStream := ⟨word⟩

end KeyStream

end SatLab.Random
