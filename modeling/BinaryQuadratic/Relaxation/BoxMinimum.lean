/-!
# Exact minima over a box

The minimum of a strictly convex quadratic over a box, in exact rationals. Every variable is free,
at its lower end or at its upper end; the free ones solve a linear system. While a variable is on
the wrong side, the first such variable changes its place.

* `solveSystem`: elimination with the first row that has a pivot;
* `candidate`: the point of an assignment of places;
* `boxMinimum`: pivots until no variable is on the wrong side, at most once for each assignment.
-/

namespace BinaryQuadratic.Relaxation

def product (xs ys : List Rat) : Rat := (List.zipWith (· * ·) xs ys).foldl (· + ·) 0

/-- A row less its first entry, with a multiple of the pivot row taken off that clears it. -/
def reduce (pivot : Rat) (pivotRest row : List Rat) : List Rat :=
  let factor := row.headD 0 / pivot
  List.zipWith (fun a p => a - factor * p) row.tail pivotRest

/-- The solution of a square system whose rows end with their right-hand sides. -/
def solveSystem : Nat → List (List Rat) → Option (List Rat)
  | 0, _ => some []
  | n + 1, rows =>
    let blank := rows.takeWhile fun row => row.headD 0 = 0
    match rows.dropWhile fun row => row.headD 0 = 0 with
    | [] => none
    | pivotRow :: others =>
      let pivot := pivotRow.headD 0
      let rest := pivotRow.tail
      (solveSystem n ((blank ++ others).map (reduce pivot rest))).map fun xs =>
        (rest.getLastD 0 - product (rest.take n) xs) / pivot :: xs

inductive Place
  | free
  | lower
  | upper
  deriving DecidableEq, Repr

abbrev Range := Option (Rat × Rat)

/-- The matrix by rows, the vector, and the range of each variable. -/
structure BoxProblem where
  rows : List (List Rat)
  linear : List Rat
  ranges : List Range
  deriving DecidableEq, Repr

namespace BoxProblem

def size (p : BoxProblem) : Nat := p.linear.length

/-- The equation of one variable: its value where it stands at an end, else the gradient is zero. -/
def equation (p : BoxProblem) (i : Nat) (place : Place) : List Rat :=
  let pinned (v : Rat) : List Rat :=
    (List.range p.size).map (fun j => if j = i then 1 else 0) ++ [v]
  let stationary : List Rat := p.rows.getD i [] ++ [-(p.linear.getD i 0)]
  match place, p.ranges.getD i none with
  | .lower, some (low, _) => pinned low
  | .upper, some (_, high) => pinned high
  | _, _ => stationary

def candidate (p : BoxProblem) (places : List Place) : Option (List Rat) :=
  solveSystem p.size
    ((List.range p.size).map fun i => p.equation i (places.getD i .free))

/-- The place a variable belongs to, judged by its value when it is free and by the gradient when it
stands at an end. -/
def corrected (p : BoxProblem) (x : List Rat) (i : Nat) (place : Place) : Place :=
  let value := x.getD i 0
  let gradient := product (p.rows.getD i []) x + p.linear.getD i 0
  match p.ranges.getD i none with
  | none => .free
  | some (low, high) =>
    match place with
    | .free => if value < low then .lower else if high < value then .upper else .free
    | .lower => if gradient < 0 && low < high then .free else .lower
    | .upper => if 0 < gradient && low < high then .free else .upper

/-- Moves the first variable on the wrong side, until there is none. -/
def pivot (p : BoxProblem) (places : List Place) : Nat → Option (List Rat)
  | 0 => none
  | fuel + 1 =>
    match p.candidate places with
    | none => none
    | some x =>
      let wrong := (List.range p.size).find? fun i =>
        p.corrected x i (places.getD i .free) ≠ places.getD i .free
      match wrong with
      | none => some x
      | some i => pivot p (places.set i (p.corrected x i (places.getD i .free))) fuel

def minimum (p : BoxProblem) : Option (List Rat) :=
  let places := p.ranges.map fun range => if range.isSome then Place.lower else .free
  p.pivot places (Nat.pow 3 p.size + 1)

end BoxProblem

end BinaryQuadratic.Relaxation
