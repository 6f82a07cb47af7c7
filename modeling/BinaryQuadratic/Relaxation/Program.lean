import BinaryQuadratic.Quadratic

/-!
# The program of a relaxation

A form as a minimising routine takes it: the matrix by columns and the vector.

* `Program.ofForm`: every entry of the form's rows appended to its column;
* `Program.dense`: the full matrix by rows, repeated entries added up;
* `Program.objective`: `½ xᵀQx + cᵀx` over the full matrix.
-/

namespace BinaryQuadratic

structure Program (α : Type) where
  columns : Sparse α
  linear : List α
  deriving DecidableEq

namespace Program

variable {α : Type}

def ofForm (f : Quadratic α) : Program α := ⟨f.matrix.regroup, f.linear⟩

def size (p : Program α) : Nat := p.columns.width

variable [Scalar α]

def dense (p : Program α) : List (List α) :=
  (List.range p.columns.width).map fun i =>
    (List.range p.columns.height).map fun j => p.columns.cell j i

end Program

/-- `½ xᵀQx + cᵀx` for a matrix given by all its rows. -/
def denseValue {α : Type} [Scalar α] (rows : List (List α)) (linear x : List α) : α :=
  Scalar.half * Summation.dot x (rows.map fun row => Summation.dot row x)
    + Summation.dot linear x

def Program.objective {α : Type} [Scalar α] (p : Program α) (x : List α) : α :=
  denseValue p.dense p.linear x

end BinaryQuadratic
