import BinaryQuadratic.Relaxation.Overlap
import BinaryQuadratic.Relaxation.Path

/-!
# The minimum over the free variables

Where the projected path stops some variables are held by the ends of their ranges. Over the others
the model is minimised as if there were no box, and the way there is brought back into it.

* `freeStep`: from the end of the path to the model's minimum over the free variables;
* `intoBox`: each variable moved into its range alone, where the function still falls towards there;
* `cutBack`: the whole step cut short at the first end met;
* `subspacePoint`: the point of the two that is taken.
-/

namespace BinaryQuadratic.Relaxation

def Walk.partition (w : Walk) : Partition := .ofFree w.free

/-- Minus the slope of the model along the free variables where the path stops. -/
def pulls (x g : List Float) (b : Curvature) (w : Walk) (free : List Nat) (r : Restriction) :
    List Float :=
  let weighed := b.middle w.behind
  r.spread 1 { weighed with steps := weighed.steps.map (b.scale * ·) } <|
    free.map fun k => -b.scale * (w.point.getD k 0 - x.getD k 0) - g.getD k 0

/-- The step of every free variable to the model's minimum, by the factor of the products. -/
def freeStep (x g : List Float) (b : Curvature) (w : Walk) (free : List Nat) (factor : Triangle) :
    List (Nat × Float) :=
  let r := b.restrict free
  let pulls := pulls x g b w free r
  let weights := Overlap.weights factor (r.lift b.scale pulls)
  free.zip ((r.spread b.scale weights pulls).map (· * (1 / b.scale)))

/-- Each step taken on its own, as far as the variable's range allows. -/
def intoBox (box : List (Float × Float)) (z : List Float) (step : List (Nat × Float)) :
    List Float :=
  step.foldl (fun z (k, d) => z.set k (settleInto (box.getD k (0, 0)) (z.getD k 0 + d))) z

def meetsEnd (box : List (Float × Float)) (z : List Float) (k : Nat) : Bool :=
  let bounds := box.getD k (0, 0)
  z.getD k 0 == bounds.1 || z.getD k 0 == bounds.2

/-- The share of a step up to the first end met, and the variable that meets it. -/
def firstEnd (box : List (Float × Float)) (z : List Float) (step : List (Nat × Float)) :
    Float × Option Nat :=
  step.foldl (fun (share, meeting) (k, d) =>
    let part := shareWithin (box.getD k (0, 0)) (z.getD k 0) d share
    if part < share then (part, some k) else (share, meeting)) (1, none)

/-- The step cut short at the first end met; the variable that meets it stands there exactly. -/
def cutBack (box : List (Float × Float)) (z : List Float) (step : List (Nat × Float)) :
    List Float :=
  let (share, meeting) := firstEnd box z step
  step.foldl (fun z (k, d) =>
    if meeting = some k then
      let bounds := box.getD k (0, 0)
      z.set k (if 0 < d then bounds.2 else if d < 0 then bounds.1 else z.getD k 0)
    else z.set k (z.getD k 0 + share * d)) z

/-- The point brought into the box variable by variable, unless it met an end and the function rises
towards it; then the step cut short. -/
def subspacePoint (box : List (Float × Float)) (x g : List Float) (b : Curvature) (w : Walk)
    (free : List Nat) (factor : Triangle) : List Float :=
  let step := freeStep x g b w free factor
  let z := intoBox box w.point step
  let rise := Summation.dot (List.zipWith (· - ·) z x) g
  if step.any (fun (k, _) => meetsEnd box z k) && 0 < rise then cutBack box w.point step else z

end BinaryQuadratic.Relaxation
