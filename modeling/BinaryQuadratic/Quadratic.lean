import BinaryQuadratic.Sparse.Source

/-!
# Quadratic forms

A square matrix `Q` and a vector `c` of the same size stand for the function
`½ xᵀQx + cᵀx`. `Q` need not be symmetric: only `Q + Qᵀ` decides the function.

* `Quadratic.evaluate`: the function at a point of the right length;
* `Quadratic.alpha`, `Quadratic.rho`: the best common value of all variables in `[0, 1]`, for the
  whole form and for its diagonal;
* `Quadratic.merged`: the form with repeated entries added up, which `alpha` leaves behind;
* `bestScalar`: the minimum of `½at² + bt` on `[0, 1]`, an endpoint where the parabola does not
  open upwards.
-/

namespace BinaryQuadratic

/-- A quadratic form; the matrix is kept by rows. -/
structure Quadratic (α : Type) where
  matrix : Sparse α
  linear : List α
  square : matrix.width = matrix.height
  fits : linear.length = matrix.height
  deriving DecidableEq

/-- A point as it arrives: a number alone, a list of numbers, a list of lists of one length, or
deeper lists. -/
inductive Point (α : Type)
  | scalar
  | vector (x : List α)
  | nested (outer inner : Nat)
  | deep
  deriving DecidableEq, Repr

namespace Quadratic

variable {α : Type}

def size (f : Quadratic α) : Nat := f.matrix.height

/-- A form of a matrix and a vector, if the shapes agree. -/
def ofParts (matrix : Sparse α) (linear : List α) : Except Fault (Quadratic α) :=
  if square : matrix.width = matrix.height then
    if fits : linear.length = matrix.height then .ok ⟨matrix, linear, square, fits⟩
    else .error (.linearLength matrix.height linear.length)
  else .error (.notSquare matrix.height matrix.width)

variable [Scalar α]

/-- The form with every row sorted and its repeated entries added up. -/
def merged (f : Quadratic α) : Quadratic α where
  matrix := f.matrix.merged
  linear := f.linear
  square := by rw [Sparse.merged_height]; exact f.square
  fits := by rw [Sparse.merged_height]; exact f.fits

/-- `½ xᵀQx + cᵀx`, for a point of the right length. -/
def value (f : Quadratic α) (x : List α) : α :=
  Summation.dot (x.map (Scalar.half * ·)) (f.matrix.times x) + Summation.dot f.linear x

/-- The value at a point, which must have one entry for each variable. -/
def evaluate (f : Quadratic α) (x : List α) : Except Fault α :=
  if x.length = f.size then .ok (f.value x) else .error (.pointLength f.size x.length)

/-- The value at a point as it arrives: only a flat list has one. Lists of lists are columns side by
side, as many rows of them as there are variables; their product with themselves has to exist, and
still is no single number. -/
def evaluateAt (f : Quadratic α) : Point α → Except Fault α
  | .scalar => .error .scalarPoint
  | .vector x => f.evaluate x
  | .nested outer inner =>
    .error (
      if outer ≠ f.size then
        if inner = 1 then .pointLength f.size outer else .pointRows f.size outer
      else if outer = inner then .manyValues
      else .nestedPoint outer inner)
  | .deep => .error .pointRank

/-- Moves a value into `[0, 1]`; one that is not a number stays. -/
def clip (t : α) : α := if t < 0 then 0 else if 1 < t then 1 else t

/-- The minimum of `½at² + bt` on `[0, 1]`. Where the parabola does not open upwards it lies on an
endpoint, on zero when both are equal. -/
def bestScalar (a b : α) : α :=
  if 0 < a then clip (-b / a) else if Scalar.half * a + b < 0 then 1 else 0

/-- The best common value of all variables. The entries are added up after merging. -/
def alpha (f : Quadratic α) : α :=
  bestScalar (Summation.balanced f.merged.matrix.values) (Summation.balanced f.linear)

/-- The best common value when only the diagonal counts. -/
def rho (f : Quadratic α) : α :=
  bestScalar (Summation.balanced f.matrix.diagonal) (Summation.balanced f.linear)

end Quadratic

namespace Quadratic

/-- The form of a described matrix and a vector, flawed descriptions refused in that order. The
vector may be nested; its numbers count in order. -/
def ofSource (source : Source) (linear : Plain) : Except Fault (Quadratic Float) := do
  let matrix ← source.build
  let linear ← Nested.floats linear
  ofParts matrix.byRows linear.values

end Quadratic

def Point.ofPlain (value : Plain) : Except Fault (Point Float) :=
  (Nested.floats value).map fun array =>
    match array.extents with
    | [] => .scalar
    | [_] => .vector array.values
    | [outer, inner] => .nested outer inner
    | _ => .deep

end BinaryQuadratic
