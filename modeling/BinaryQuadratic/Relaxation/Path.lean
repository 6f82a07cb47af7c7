import BinaryQuadratic.Relaxation.Box
import BinaryQuadratic.Relaxation.Curvature
import BinaryQuadratic.Relaxation.Earliest

/-!
# The projected path of steepest descent

From a point in a box every variable moves against its gradient until it meets an end of its range
and stays there. Along this path a model of the function is followed, the slope from the gradient
and the bending from a curvature, up to the first point where the model stops falling.

* `Heading`: where one variable goes and when it meets an end;
* `follow`: from one end met to the next;
* `cauchyPoint`: where the path stops, and which variables are free there.
-/

namespace BinaryQuadratic.Relaxation

/-- How close two numbers may lie relative to their size: 2^-52. -/
def spacing : Float := 2.220446049250313e-16

/-- A variable's direction, whether it counts as free, and when it meets an end of its range. -/
structure Heading where
  direction : Float
  free : Bool
  meets : Option Float
  deriving DecidableEq, Repr

namespace Heading

def stuck : Heading := ⟨0, false, none⟩

def resting : Heading := ⟨0, true, none⟩

def moving (bounds : Float × Float) (v direction : Float) : Heading :=
  if direction < 0 then ⟨direction, true, some ((v - bounds.1) / -direction)⟩
  else if 0 < direction then ⟨direction, true, some ((bounds.2 - v) / direction)⟩
  else ⟨direction, true, none⟩

/-- A range without room, or an end that the direction points out of, holds a variable. -/
def ofGradient (bounds : Float × Float) (v g : Float) : Heading :=
  let direction := -g
  if bounds.2 - bounds.1 ≤ 0 then stuck
  else if v - bounds.1 ≤ 0 then
    if direction ≤ 0 then stuck else moving bounds v direction
  else if bounds.2 - v ≤ 0 then
    if 0 ≤ direction then stuck else moving bounds v direction
  else if Scalar.abs direction ≤ 0 then resting
  else moving bounds v direction

/-- Neither stuck nor resting; a direction that is not a number counts as moving. -/
def isMoving (h : Heading) : Bool := h.free && !(h.direction == 0)

end Heading

/-- Where a path stands: the ends met so far, the directions left, the model's slope and bending,
the directions and the way lifted to the corrections, and the time. -/
structure Walk where
  point : List Float
  directions : List Float
  free : List Bool
  slope : Float
  bending : Float
  ahead : Lifted
  behind : Lifted
  time : Float
  deriving DecidableEq, Repr

namespace Walk

/-- The time from the last end met to where the model stops falling. -/
def rest (w : Walk) : Float := -w.slope / w.bending

/-- The end of a path some time after the last end met; the way there is not lifted yet. -/
def finish (w : Walk) (rest : Float) : Walk :=
  let rest := if rest ≤ 0 then 0 else rest
  let time := w.time + rest
  let point := if time == 0 then w.point
    else List.zipWith (fun v d => v + time * d) w.point w.directions
  { w with point := point, behind := w.behind.plus rest w.ahead, time := time }

/-- One variable arrives at an end of its range and stays there. -/
def halt (w : Walk) (bounds : Float × Float) (i : Nat) (time : Float) : Walk :=
  let goal := if 0 < w.directions.getD i 0 then bounds.2 else bounds.1
  { w with
    point := w.point.set i goal
    directions := w.directions.set i 0
    free := w.free.set i false
    time := w.time + time }

/-- The model after one variable has halted `way` from where it started. The bending stays above a
small part of what it was at first. -/
def turn (b : Curvature) (w : Walk) (least : Float) (i : Nat) (time direction way : Float) : Walk :=
  let slope := w.slope + time * w.bending + direction * direction - b.scale * direction * way
  let bending := w.bending - b.scale * (direction * direction)
  if b.count = 0 then { w with slope := slope, bending := greater least bending }
  else
    let behind := w.behind.plus time w.ahead
    let row := b.row i
    let weighed := b.middle row
    let bending := bending + 2 * direction * w.ahead.dot weighed
      - direction * direction * row.dot weighed
    { w with
      slope := slope + direction * behind.dot weighed
      bending := greater least bending
      ahead := w.ahead.plus (-direction) row
      behind := behind }

end Walk

/-- From one end met to the next, up to where the model stops falling between two of them. `all`
says that every variable meets an end. -/
def follow (box : List (Float × Float)) (x : List Float) (b : Curvature) (least : Float)
    (all : Bool) (last rest : Float) (w : Walk) : List (Float × Nat) → Walk
  | [] => w.finish rest
  | (meets, i) :: later =>
    let time := meets - last
    if rest < time then w.finish rest
    else
      let direction := w.directions.getD i 0
      let halted := w.halt (box.getD i (0, 0)) i time
      if later.isEmpty && all then { halted with behind := w.behind.plus time w.ahead }
      else
        let way := halted.point.getD i 0 - x.getD i 0
        let turned := Walk.turn b halted least i time direction way
        if later.isEmpty then turned.finish 0
        else follow box x b least all meets turned.rest turned later

/-- The point where the path stops, with the variables that are free there and the way lifted to the
corrections. -/
def cauchyPoint (box : List (Float × Float)) (x g : List Float) (b : Curvature) : Walk :=
  let headings := List.zipWith (fun (e : (Float × Float) × Float) g => Heading.ofGradient e.1 e.2 g)
    (box.zip x) g
  let directions := headings.map Heading.direction
  let slope := directions.foldl (fun slope d => slope - d * d) 0
  let ahead := b.lift directions
  let model := -b.scale * slope
  let bending := if b.count = 0 then model else model - (b.middle ahead).dot ahead
  let start : Walk :=
    ⟨x, directions, headings.map Heading.free, slope, bending, ahead, Lifted.zero b.count, 0⟩
  let arrivals := headings.zipIdx.filterMap fun (h, i) => h.meets.map fun t => (t, i)
  if headings.any Heading.isMoving then
    follow box x b (spacing * model) (arrivals.length = x.length) 0 start.rest start
      (Earliest.inOrder arrivals)
  else start

end BinaryQuadratic.Relaxation
