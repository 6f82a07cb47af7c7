import BinaryQuadratic.Random.Entropy
import BinaryQuadratic.Scalar

/-!
# Random numbers

A congruential generator of 128 bits whose output folds the state and turns it by its top bits.
A generator is a value: drawing returns the number and the generator left behind.

* `Generator.ofWords`: the generator of the words of a seed;
* `Generator.next`: 64 random bits;
* `Generator.unit`: a number in `[0, 1)`, a multiple of 2^-53;
* `Generator.units`: so many of them, one after another.
-/

namespace BinaryQuadratic.Random

structure Generator where
  state : BitVec 128
  increment : BitVec 128
  deriving DecidableEq, Repr

namespace Generator

def multiplier : BitVec 128 := 0x2360ed051fc65da44385df649fccf645

def step (g : Generator) : Generator := { g with state := g.state * multiplier + g.increment }

/-- Two words as one, the low one first. -/
def pair (low high : UInt32) : Nat := high.toNat * wordRange + low.toNat

/-- The generator of the words of a seed: eight words of its pool, two for each half of the starting
point and of the increment. -/
def ofWords (all : List UInt32) : Generator :=
  let drawn := (Pool.ofWords all).draw 8
  let half (i : Nat) : Nat := pair (drawn.getD (2 * i) 0) (drawn.getD (2 * i + 1) 0)
  let start := BitVec.ofNat 128 (half 0 * (wordRange * wordRange) + half 1)
  let odd := BitVec.ofNat 128 (2 * (half 2 * (wordRange * wordRange) + half 3) + 1)
  let first := step ⟨0, odd⟩
  step { first with state := first.state + start }

/-- The halves of the state folded into one and turned right by the top six bits. -/
def output (g : Generator) : UInt64 :=
  let folded : BitVec 64 := (g.state >>> 64).truncate 64 ^^^ g.state.truncate 64
  UInt64.ofBitVec (folded.rotateRight (g.state >>> 122).toNat)

def next (g : Generator) : UInt64 × Generator := (g.step.output, g.step)

/-- How many numbers in `[0, 1)` can be drawn: 2^53. -/
def resolution : Nat := 0x20000000000000

/-- The number in `[0, 1)` that the top 53 of 64 bits stand for. -/
def fraction {α : Type} [Scalar α] (bits : UInt64) : α :=
  ((bits.toNat / 0x800 : Nat) : α) / (resolution : α)

def unit {α : Type} [Scalar α] (g : Generator) : α × Generator := (fraction g.next.1, g.next.2)

def units {α : Type} [Scalar α] : Nat → Generator → List α × Generator
  | 0, g => ([], g)
  | n + 1, g =>
    let (u, g) : α × Generator := g.unit
    let (rest, g) := units n g
    (u :: rest, g)

end Generator

end BinaryQuadratic.Random
