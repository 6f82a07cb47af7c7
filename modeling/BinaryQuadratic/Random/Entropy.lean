/-!
# Spreading a seed

A seed of any size is spread over a pool of four 32-bit words, from which words for the state of a
generator are drawn. All arithmetic is modulo 2^32.

* `words`: the 32-bit words of a number, the lowest first;
* `Pool.ofWords`: every word of a seed reaches every word of the pool;
* `Pool.draw`: words drawn from the pool in turn.
-/

namespace BinaryQuadratic.Random

/-- How many words there are: 2^32. -/
def wordRange : Nat := 0x100000000

/-- The words of a number, the lowest first; zero is one word. -/
def words (n : Nat) : List UInt32 :=
  if n < wordRange then [UInt32.ofNat n] else UInt32.ofNat n :: words (n / wordRange)
termination_by n
decreasing_by
  unfold wordRange at *
  omega

def foldHalves (v : UInt32) : UInt32 := v ^^^ (v >>> 16)

/-- Hashes a word under a key that `factor` moves on. -/
def hash (factor key v : UInt32) : UInt32 × UInt32 :=
  let next := key * factor
  (foldHalves ((v ^^^ key) * next), next)

def mix (x y : UInt32) : UInt32 := foldHalves (0xca01f9dd * x - 0x4973f715 * y)

/-- The words of a pool and the key of the next hash. -/
structure Pool where
  slots : List UInt32
  key : UInt32
  deriving DecidableEq, Repr

namespace Pool

def seedFactor : UInt32 := 0x931e8875

/-- Hashes a word into a new slot at the end. -/
def push (pool : Pool) (word : UInt32) : Pool :=
  let (hashed, key) := hash seedFactor pool.key word
  ⟨pool.slots ++ [hashed], key⟩

/-- Hashes a word and mixes it into a slot. -/
def stir (pool : Pool) (slot : Nat) (word : UInt32) : Pool :=
  let (hashed, key) := hash seedFactor pool.key word
  ⟨pool.slots.modify slot (mix · hashed), key⟩

def cross (pool : Pool) (source target : Nat) : Pool :=
  if source = target then pool else pool.stir target (pool.slots.getD source 0)

/-- The pool of a list of words: the first four fill the slots, every slot is stirred into every
other, and every further word is stirred into all slots. -/
def ofWords (all : List UInt32) : Pool :=
  let filled := (List.range 4).foldl (fun pool i => pool.push (all.getD i 0)) ⟨[], 0x43b0d7e5⟩
  let crossed := (List.range 4).foldl
    (fun pool source => (List.range 4).foldl (fun pool target => pool.cross source target) pool)
    filled
  (all.drop 4).foldl
    (fun pool word => (List.range 4).foldl (fun pool slot => pool.stir slot word) pool) crossed

/-- Hashes of the slots in turn, `count` of them, from slot `i` on. -/
def drawFrom (slots : List UInt32) (key : UInt32) (i : Nat) : Nat → List UInt32
  | 0 => []
  | count + 1 =>
    let (hashed, next) := hash 0x58f38ded key (slots.getD (i % 4) 0)
    hashed :: drawFrom slots next (i + 1) count

def draw (pool : Pool) (count : Nat) : List UInt32 := drawFrom pool.slots 0x8b51f9dd 0 count

end Pool

end BinaryQuadratic.Random
