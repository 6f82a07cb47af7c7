import BinaryQuadratic.Summation

/-!
# Triangular factors

A symmetric positive definite matrix is a lower triangular one times its transpose.

* `Triangle.factor?`: the factor of a matrix, unless a pivot is not above zero;
* `Triangle.forward`, `Triangle.backward`: the solution for a factor and for its transpose;
* `Triangle.solve`: the solution for the matrix that was factored.
-/

namespace BinaryQuadratic.Relaxation

/-- The rows of a lower triangular matrix, each up to its diagonal entry. -/
structure Triangle where
  rows : List (List Float)
  deriving DecidableEq, Repr

namespace Triangle

def empty : Triangle := ⟨[]⟩

/-- From the first row on, each entry after the ones before it. -/
def forward (t : Triangle) (b : List Float) : List Float :=
  (t.rows.zip b).foldl
    (fun x (row, v) => x ++ [(v - Summation.dot row x) / row.getLastD 1]) []

/-- From the last row on: an entry, and what it takes off the right-hand sides above it. -/
def backwardFrom : List (List Float) → List Float → List Float → List Float
  | [], _, x => x
  | row :: above, rest, x =>
    let v := rest.getLastD 0 / row.getLastD 1
    backwardFrom above (List.zipWith (fun b l => b - l * v) rest.dropLast row.dropLast) (v :: x)

def backward (t : Triangle) (b : List Float) : List Float := backwardFrom t.rows.reverse b []

def solve (t : Triangle) (b : List Float) : List Float := t.backward (t.forward b)

def extend? (t : Triangle) (row : List Float) : Option Triangle :=
  let size := t.rows.length
  let entries := t.forward (row.take size)
  let pivot := row.getD size 0 - Summation.dot entries entries
  if 0 < pivot then some ⟨t.rows ++ [entries ++ [pivot.sqrt]]⟩ else none

def factor? (rows : List (List Float)) : Option Triangle := rows.foldlM extend? empty

end Triangle

end BinaryQuadratic.Relaxation
