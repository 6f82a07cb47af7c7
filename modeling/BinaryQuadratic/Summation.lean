import BinaryQuadratic.Scalar

/-!
# Summation orders

Addition that rounds depends on its order, so the order belongs to the definition.

* `running`: from left to right, starting at zero;
* `dot`: the running sum of the products;
* `balanced`: short lists from left to right, longer ones in eight interleaved
  accumulators, very long ones split near the middle.

Where addition is exact, all of them are the same number.
-/

namespace BinaryQuadratic.Summation

variable {α : Type} [Scalar α]

/-- The sum from left to right, starting at zero. -/
def running (xs : List α) : α := xs.foldl (· + ·) 0

def dot (xs ys : List α) : α := running (List.zipWith (· * ·) xs ys)

/-- The element-wise sum; the shorter list decides the length. -/
def addEach (xs ys : List α) : List α := List.zipWith (· + ·) xs ys

/-- Eight accumulators: each further block of eight is added to them element by element, until
`blocks` of them are used up. -/
def accumulate : Nat → List α → List α → List α × List α
  | 0, acc, rest => (acc, rest)
  | blocks + 1, acc, rest => accumulate blocks (addEach acc (rest.take 8)) (rest.drop 8)

/-- Neighbours are added until one value is left: `((r₀ + r₁) + (r₂ + r₃)) + …` of eight. -/
def fold8 : List α → α
  | [a, b, c, d, e, f, g, h] => ((a + b) + (c + d)) + ((e + f) + (g + h))
  | short => running short

/-- Left to right below eight elements, starting at minus zero so that a list of minus zeros keeps
its sign; else eight accumulators, with what does not fill a block added at the end. -/
def interleaved (xs : List α) : α :=
  if xs.length < 8 then xs.foldl (· + ·) (-0)
  else
    let (acc, rest) := accumulate (xs.length / 8 - 1) (xs.take 8) (xs.drop 8)
    rest.foldl (· + ·) (fold8 acc)

/-- Where a list of more than 128 elements is split: half its length, rounded down to a multiple
of eight. -/
def splitPoint (length : Nat) : Nat := length / 2 - length / 2 % 8

theorem splitPoint_bounds {length : Nat} (h : 128 < length) :
    0 < splitPoint length ∧ splitPoint length < length := by
  unfold splitPoint
  omega

/-- At most 128 elements are interleaved, more are split and the halves summed alike. -/
def halved (xs : List α) : α :=
  if xs.length ≤ 128 then interleaved xs
  else
    halved (xs.take (splitPoint xs.length)) + halved (xs.drop (splitPoint xs.length))
termination_by xs.length
decreasing_by
  all_goals
    have := splitPoint_bounds (Nat.lt_of_not_le ‹¬xs.length ≤ 128›)
    simp only [List.length_take, List.length_drop]
    omega

def balanced (xs : List α) : α := 0 + halved xs

end BinaryQuadratic.Summation
