import BinaryQuadratic.Relaxation.Limits
import BinaryQuadratic.Relaxation.Solve
import BinaryQuadratic.Relaxation.StepLength
import BinaryQuadratic.Relaxation.Subspace

/-!
# Descents within a box

From a start the form is followed downhill. Every iteration minimises a model of it, first along the
projected path of steepest descent and then over the variables that are left free, and searches the
line to the model's minimum for a step that lets the form fall.

* `gradient`, `residual`: the slope of the form, and what of it the box lets it fall along;
* `aim`: where the model wants to go;
* `searchLine`: the first step on the way there that will do;
* `descend`: the iterations, until the gradient or the decrease is small or a limit is met.

A direction along which nothing can be gained shows that the model is wrong: what it has recorded is
forgotten, and with nothing recorded the descent ends.
-/

namespace BinaryQuadratic.Relaxation

/-- The gradient of the form: to the vector half of the rows times the point is added, and then half
of the columns times it. -/
def gradient (p : Problem Float) (x : List Float) : List Float :=
  let byRows := p.rows.map fun row => 0.5 * Summation.dot row x
  let byColumns := (List.range p.linear.length).map fun j =>
    0.5 * Summation.dot (p.rows.map fun row => row.getD j 0) x
  Summation.addEach (Summation.addEach p.linear byRows) byColumns

/-- The largest entry of the projected gradient, not a number where an entry of the gradient is
none. -/
def residual (box : List (Float × Float)) (x g : List Float) : Float :=
  match g.find? Scalar.isNaN with
  | some undefined => undefined
  | none =>
    (List.zipWith (fun (b : (Float × Float) × Float) g => projected b.1 b.2 g) (box.zip x) g).foldl
      (fun most e => larger most (Scalar.abs e)) 0

structure Station where
  point : List Float
  value : Float
  gradient : List Float
  deriving DecidableEq, Repr

def Station.at (p : Problem Float) (x : List Float) : Station :=
  ⟨x, denseValue p.rows p.linear x, Relaxation.gradient p x⟩

/-- How often the form was evaluated, and where last. The same point again costs nothing. -/
structure Evaluations where
  count : Nat
  last : List Float
  deriving DecidableEq, Repr

namespace Evaluations

def note (e : Evaluations) (x : List Float) : Evaluations :=
  if e.last == x then e else ⟨e.count + 1, x⟩

end Evaluations

structure Memory where
  curvature : Curvature
  overlap : Overlap
  partition : Partition
  deriving DecidableEq, Repr

namespace Memory

def initial (size : Nat) : Memory := ⟨.initial, .empty, .whole size⟩

/-- Nothing known of the curvature; the products stay until they are written over. -/
def forget (m : Memory) : Memory := { m with curvature := .initial }

end Memory

/-- Where the model wants to go from a point, if the products of what is known do not clash. -/
def aim (box : List (Float × Float)) (limit : Nat) (s : Station) (m : Memory) :
    Option (List Float) × Memory :=
  let b := m.curvature
  let walk := cauchyPoint box s.point s.gradient b
  let partition := walk.partition
  if b.count = 0 || partition.free.isEmpty then
    (some walk.point, { m with partition := partition })
  else
    let overlap := m.overlap.update b limit m.partition partition
    ((overlap.factor? b).map (subspacePoint box s.point s.gradient b walk partition.free),
      ⟨b, overlap, partition⟩)

/-- How many times a step may be before the line leaves the box, at most 10^10. -/
def longestStep (box : List (Float × Float)) (x direction : List Float) : Float :=
  ((box.zip x).zip direction).foldl (fun share (b, d) => shareWithin b.1 b.2 d share) 1e10

/-- The point some steps along a line, kept in the box; one step is the goal itself. -/
def along (box : List (Float × Float)) (x goal direction : List Float) (step : Float) :
    List Float :=
  if step == 1 then goal
  else List.zipWith settleInto box (List.zipWith (fun v d => step * d + v) x direction)

def trySteps (visit : Float → Station) (direction : List Float) (search : LineSearch)
    (step : Float) (evaluations : Evaluations) : Nat → Option (Float × Station) × Evaluations
  | 0 => (none, evaluations)
  | tries + 1 =>
    let station := visit step
    let evaluations := evaluations.note station.point
    let slope := Summation.dot station.gradient direction
    match search.judge ⟨step, station.value, slope⟩ with
    | none => (some (step, station), evaluations)
    | some (step, search) => trySteps visit direction search step evaluations tries

/-- The first step towards a goal that will do, and where it leads. The first iteration goes no
farther than the goal; a direction in which the form does not fall is not tried. -/
def searchLine (p : Problem Float) (tries : Nat) (isFirst : Bool) (s : Station)
    (goal : List Float) (evaluations : Evaluations) :
    Option (Float × Station) × Evaluations :=
  let direction := List.zipWith (· - ·) goal s.point
  let slope := Summation.dot s.gradient direction
  if 0 ≤ slope then (none, evaluations)
  else
    let longest := if isFirst then 1 else longestStep p.box s.point direction
    let visit (step : Float) : Station := Station.at p (along p.box s.point goal direction step)
    trySteps visit direction (.start s.value slope 1 longest) 1 evaluations tries

/-- The model after a step. A step along which the slope did not grow is not recorded. -/
def learn (b : Curvature) (memory : Nat) (s next : Station) (goal : List Float) (step : Float) :
    Curvature :=
  let direction := List.zipWith (· - ·) goal s.point
  let slope := Summation.dot s.gradient direction
  let growth := (Summation.dot next.gradient direction - slope) * step
  if growth ≤ spacing * (-slope * step) then b.skip
  else b.record memory {
    step := direction.map (step * ·)
    change := List.zipWith (· - ·) next.gradient s.gradient
    product := growth
    square := step * step * Summation.dot direction direction }

/-- The value fell, but by no more than the tolerance times the greatest of both magnitudes and
one. -/
def stalled (tolerance before after : Float) : Bool :=
  before - after ≤ tolerance * larger (larger (Scalar.abs before) (Scalar.abs after)) 1

def Limits.give (limits : Limits) (evaluations : Evaluations) (x : List Float)
    (iterations : Int) : Except Fault (Outcome Float) := do
  let _ ← limits.overspent evaluations.count
  pure ⟨x, false, iterations⟩

def descendFrom (p : Problem Float) (limits : Limits) (s : Station) (m : Memory)
    (iterations : Nat) (evaluations : Evaluations) : Nat → Except Fault (Outcome Float)
  | 0 => limits.give evaluations s.point iterations
  | fuel + 1 =>
    match aim p.box limits.memory.toNat s m with
    | (none, m) => descendFrom p limits s m.forget iterations evaluations fuel
    | (some goal, m) =>
      match searchLine p limits.lineSteps (iterations = 0) s goal evaluations with
      | (none, evaluations) =>
        if m.curvature.count = 0 then limits.give evaluations s.point iterations
        else descendFrom p limits s m.forget iterations evaluations fuel
      | (some (step, next), evaluations) => do
        let iterations := iterations + 1
        if limits.maxIterations ≤ iterations then
          limits.give evaluations next.point iterations
        else if ← limits.overspent evaluations.count then
          pure ⟨next.point, false, iterations⟩
        else if residual p.box next.point next.gradient ≤ limits.slope
            || stalled limits.decrease s.value next.value then
          pure ⟨next.point, true, iterations⟩
        else
          let curvature := learn m.curvature limits.memory.toNat s next goal step
          descendFrom p limits next { m with curvature := curvature } iterations evaluations fuel

/-- From the start, moved into the box. Every iteration forgets at most once, so two rounds for each
are enough. -/
def descend (p : Problem Float) (limits : Limits) : Except Fault (Outcome Float) :=
  let s := Station.at p (clampAll p.box p.start)
  let evaluations := (Evaluations.mk 1 s.point).note s.point
  if limits.decrease < 0 || limits.memory ≤ 0 then do
    let outcome ← limits.give evaluations s.point 0
    limits.checkHistory p.linear.length
    pure outcome
  else if residual p.box s.point s.gradient ≤ limits.slope then .ok ⟨s.point, true, 0⟩
  else
    descendFrom p limits s (.initial p.linear.length) 0 evaluations
      (2 * limits.maxIterations.toNat + 4)

end BinaryQuadratic.Relaxation
