import BinaryQuadratic.Relaxation.Triangle

/-!
# Curvature from the last steps

What the last few steps said of a function's second derivatives, as a matrix that is never written
out: a multiple of the identity less `W M Wᵀ`, where `W` has one column for the change of the
gradient and one for the scaled step of every correction, and `M` is the inverse of a small matrix
of their products.

* `Curvature.initial`: nothing known, the identity;
* `Curvature.record`: one more correction, the oldest of too many dropped;
* `Curvature.skip`: no further correction;
* `Curvature.lift`, `Curvature.row`: a vector times `W`, and a row of `W`;
* `Curvature.middle`: `M` times a pair of vectors.
-/

namespace BinaryQuadratic.Relaxation

/-- A step, the change of the gradient along it, their product, and the square of the step. -/
structure Correction where
  step : List Float
  change : List Float
  product : Float
  square : Float
  deriving DecidableEq, Repr

/-- One entry for the change and one for the step of every correction. -/
structure Lifted where
  changes : List Float
  steps : List Float
  deriving DecidableEq, Repr

namespace Lifted

def zero (count : Nat) : Lifted := ⟨List.replicate count 0, List.replicate count 0⟩

def dot (a b : Lifted) : Float :=
  Summation.dot (a.changes ++ a.steps) (b.changes ++ b.steps)

def plus (a : Lifted) (factor : Float) (b : Lifted) : Lifted :=
  let add (x y : Float) : Float := x + factor * y
  ⟨List.zipWith add a.changes b.changes, List.zipWith add a.steps b.steps⟩

end Lifted

/-- The corrections, the oldest first; the multiple of the identity; the products of each step with
the changes up to its own; and the factor of the matrix that `M` is solved with. Also how many
corrections there were in all, those included that were dropped, and whether one came last. -/
structure Curvature where
  corrections : List Correction
  scale : Float
  products : List (List Float)
  factor : Triangle
  recorded : Nat
  fresh : Bool
  deriving DecidableEq, Repr

namespace Curvature

def initial : Curvature := ⟨[], 1, [], Triangle.empty, 0, false⟩

def count (b : Curvature) : Nat := b.corrections.length

/-- The products of each step with the changes before it and with its own. -/
def productsOf (corrections : List Correction) : List (List Float) :=
  corrections.zipIdx.map fun (c, i) =>
    (corrections.take i).map (fun earlier => Summation.dot c.step earlier.change) ++ [c.product]

def entry (products : List (List Float)) (i j : Nat) : Float := (products.getD i []).getD j 0

/-- The products of the steps with each other, scaled, and what the changes before both add. -/
def stepMatrix (corrections : List Correction) (scale : Float) (products : List (List Float)) :
    List (List Float) :=
  corrections.zipIdx.map fun (c, i) =>
    (corrections.take (i + 1)).zipIdx.map fun (d, j) =>
      Summation.running ((List.range j).map fun k =>
        entry products i k * entry products j k / entry products k k)
        + scale * (if i = j then c.square else Summation.dot c.step d.step)

/-- The curvature of a list of corrections, unless their products do not factor. -/
def ofCorrections? (corrections : List Correction) (scale : Float) (recorded : Nat) :
    Option Curvature :=
  let products := productsOf corrections
  (Triangle.factor? (stepMatrix corrections scale products)).map fun factor =>
    ⟨corrections, scale, products, factor, recorded, true⟩

/-- One more correction under a limit on their number. The identity is scaled to the newest one;
where the products do not factor everything is forgotten. -/
def record (b : Curvature) (limit : Nat) (c : Correction) : Curvature :=
  let all := b.corrections ++ [c]
  let scale := Summation.dot c.change c.change / c.product
  (ofCorrections? (all.drop (all.length - limit)) scale (b.recorded + 1)).getD initial

def skip (b : Curvature) : Curvature := { b with fresh := false }

/-- A vector times the changes and the scaled steps. -/
def lift (b : Curvature) (v : List Float) : Lifted :=
  ⟨b.corrections.map fun c => Summation.dot c.change v,
    b.corrections.map fun c => b.scale * Summation.dot c.step v⟩

def row (b : Curvature) (i : Nat) : Lifted :=
  ⟨b.corrections.map fun c => c.change.getD i 0,
    b.corrections.map fun c => b.scale * c.step.getD i 0⟩

def diagonal (b : Curvature) : List Float := b.corrections.map Correction.product

/-- `M` times a pair: through the factor and back through its transpose. -/
def middle (b : Curvature) (v : Lifted) : Lifted :=
  let halves := List.zipWith (fun e d => -(e / d.sqrt) / d.sqrt) v.changes b.diagonal
  let below := b.products.map fun row => Summation.running
    (List.zipWith (fun e (v, d) => e * v / d) row.dropLast (v.changes.zip b.diagonal))
  let steps := b.factor.solve (Summation.addEach v.steps below)
  let above := (List.range b.count).map fun i =>
    Summation.running ((List.range b.count).map fun k =>
      if i < k then entry b.products k i * steps.getD k 0 / entry b.products i i else 0)
  ⟨Summation.addEach halves above, steps⟩

end Curvature

end BinaryQuadratic.Relaxation
