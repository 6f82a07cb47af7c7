import BinaryQuadratic.Relaxation.Curvature

/-!
# Products over free and held variables

The model is minimised over the free variables through the products of all changes and steps with
each other, some of them over the free variables and some over the held ones. These products are
kept from round to round. A round adds those of the newest correction and accounts for the variables
that became free or held since the round before; what a round without a minimisation passed over is
not made up for.

* `Partition`: which variables are free and which are held;
* `Table`: numbers by row and column;
* `Overlap.update`: the products after another round;
* `Overlap.factor?`: the factor of the matrix that they make up.
-/

namespace BinaryQuadratic.Relaxation

/-- The free variables, ascending, and the held ones, descending. -/
structure Partition where
  free : List Nat
  held : List Nat
  deriving DecidableEq, Repr

namespace Partition

def whole (size : Nat) : Partition := ⟨List.range size, []⟩

def ofFree (free : List Bool) : Partition :=
  ⟨(free.zipIdx.filter Prod.fst).map Prod.snd,
    ((free.zipIdx.filter fun e => !e.1).map Prod.snd).reverse⟩

/-- The variables that were held and are free now, descending. -/
def entering (before after : Partition) : List Nat :=
  before.held.filter fun k => after.free.contains k

/-- The variables that were free and are held now, descending. -/
def leaving (before after : Partition) : List Nat :=
  (before.free.filter fun k => after.held.contains k).reverse

end Partition

/-- Numbers by row and column; what was never written is zero. -/
structure Table where
  rows : List (List Float)
  deriving DecidableEq, Repr

namespace Table

def empty : Table := ⟨[]⟩

def entry (t : Table) (i j : Nat) : Float := (t.rows.getD i []).getD j 0

/-- New numbers in the first rows and columns, made from the old ones. -/
def amend (size : Nat) (f : Nat → Nat → Float → Float) (t : Table) : Table :=
  ⟨(List.range (max size t.rows.length)).map fun i =>
    let row := t.rows.getD i []
    if i < size then
      (List.range (max size row.length)).map fun j =>
        if j < size then f i j (row.getD j 0) else row.getD j 0
    else row⟩

/-- Every number one row up and one column to the left. -/
def shift (t : Table) : Table := ⟨(t.rows.drop 1).map (List.drop 1)⟩

end Table

/-- What the changes and the steps of all corrections have for some variables, in their order. -/
structure Restriction where
  changes : List (List Float)
  steps : List (List Float)
  deriving DecidableEq, Repr

def Curvature.restrict (b : Curvature) (chosen : List Nat) : Restriction :=
  ⟨b.corrections.map fun c => chosen.map fun k => c.change.getD k 0,
    b.corrections.map fun c => chosen.map fun k => c.step.getD k 0⟩

namespace Restriction

def changePair (r : Restriction) (i j : Nat) : Float :=
  Summation.dot (r.changes.getD i []) (r.changes.getD j [])

def stepPair (r : Restriction) (i j : Nat) : Float :=
  Summation.dot (r.steps.getD i []) (r.steps.getD j [])

def mixedPair (r : Restriction) (i j : Nat) : Float :=
  Summation.dot (r.steps.getD i []) (r.changes.getD j [])

def lift (r : Restriction) (scale : Float) (v : List Float) : Lifted :=
  ⟨r.changes.map fun change => Summation.dot change v,
    r.steps.map fun step => scale * Summation.dot step v⟩

/-- To a vector the changes and steps are added, so often each; the changes are divided first. -/
def spread (r : Restriction) (divisor : Float) (weights : Lifted) (start : List Float) :
    List Float :=
  ((r.changes.zip r.steps).zip (weights.changes.zip weights.steps)).foldl
    (fun v (columns, weight) =>
      List.zipWith (fun v (change, step) => v + change * weight.1 / divisor + step * weight.2)
        v (columns.1.zip columns.2))
    start

end Restriction

/-- The products of changes over the free variables, of steps over the held ones, and of a step with
a change: with an earlier change over the held variables, with its own or a later one over the free
ones. -/
structure Overlap where
  changes : Table
  steps : Table
  mixed : Table
  deriving DecidableEq, Repr

namespace Overlap

def empty : Overlap := ⟨Table.empty, Table.empty, Table.empty⟩

def shift (o : Overlap) : Overlap := ⟨o.changes.shift, o.steps.shift, o.mixed.shift⟩

/-- The products after another round: those of a fresh correction are new, all others follow the
variables that entered and left. -/
def update (o : Overlap) (b : Curvature) (limit : Nat) (before after : Partition) : Overlap :=
  let o := if b.fresh && limit < b.recorded then o.shift else o
  let settled := if b.fresh then b.count - 1 else b.count
  let free := b.restrict after.free
  let held := b.restrict after.held
  let entering := b.restrict (before.entering after)
  let leaving := b.restrict (before.leaving after)
  { changes := o.changes.amend b.count fun i j v =>
      if i < j then v
      else if i < settled then v + entering.changePair i j - leaving.changePair i j
      else free.changePair i j
    steps := o.steps.amend b.count fun i j v =>
      if i < j then v
      else if i < settled then v - entering.stepPair i j + leaving.stepPair i j
      else held.stepPair i j
    mixed := o.mixed.amend b.count fun i j v =>
      if settled ≤ j then free.mixedPair i j
      else if settled ≤ i then held.mixedPair i j
      else if i ≤ j then v + entering.mixedPair i j - leaving.mixedPair i j
      else v - entering.mixedPair i j + leaving.mixedPair i j }

/-- What stands below the diagonal of the matrix's half for the changes, and on it. -/
def changeRow (o : Overlap) (b : Curvature) (i : Nat) : List Float :=
  (List.range (i + 1)).map fun j =>
    let e := o.changes.entry i j / b.scale
    if i = j then e + b.diagonal.getD i 0 else e

def mixedRow (o : Overlap) (b : Curvature) (i : Nat) : List Float :=
  (List.range b.count).map fun j => if j < i then -o.mixed.entry i j else o.mixed.entry i j

/-- The factor of the matrix of all products: first the rows of the changes, then those of the
steps, the square of which counts negative for the changes' part. -/
def factor? (o : Overlap) (b : Curvature) : Option Triangle := do
  let upper ← Triangle.factor? ((List.range b.count).map (o.changeRow b))
  let crossing := (List.range b.count).map fun i => upper.forward (o.mixedRow b i)
  let lower ← Triangle.factor? (crossing.zipIdx.map fun (row, i) =>
    (crossing.take (i + 1)).zipIdx.map fun (other, j) =>
      o.steps.entry i j * b.scale + Summation.dot row other)
  some ⟨upper.rows ++ List.zipWith (· ++ ·) crossing lower.rows⟩

/-- The weights of all changes and steps for a pair of vectors, by the factor of the products. -/
def weights (factor : Triangle) (v : Lifted) : Lifted :=
  let y := factor.forward (v.changes ++ v.steps)
  let count := v.changes.length
  let w := factor.backward ((y.take count).map (- ·) ++ y.drop count)
  ⟨w.take count, w.drop count⟩

end Overlap

end BinaryQuadratic.Relaxation
