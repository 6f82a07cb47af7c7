import BinaryQuadratic.Scalar

/-!
# Boxes

A box gives every variable a lower and an upper end.

* `clampInto`, `clampAll`: values moved into their ranges, what is not a number kept;
* `greater`, `lesser`: the one of two values that is a number, or the greater or lesser of two;
* `settleInto`: a value moved into its range, the lower end for what is not a number;
* `pinned?`: the one point of a box without room;
* `projected`: how far a variable can still fall along its gradient;
* `shareWithin`: the part of a step that stays in the range.
-/

namespace BinaryQuadratic.Relaxation

/-- Moves a value into its range; what is not a number stays. -/
def clampInto (bounds : Float × Float) (v : Float) : Float :=
  if v < bounds.1 then bounds.1 else if bounds.2 < v then bounds.2 else v

def clampAll (box : List (Float × Float)) (x : List Float) : List Float :=
  List.zipWith clampInto box x

/-- The greater of two values; one that is not a number gives way to the other. -/
def greater (a b : Float) : Float :=
  if Scalar.isNaN a then b else if Scalar.isNaN b then a else if b < a then a else b

/-- The lesser of two values; one that is not a number gives way to the other. -/
def lesser (a b : Float) : Float :=
  if Scalar.isNaN a then b else if Scalar.isNaN b then a else if a < b then a else b

/-- Moves a value into its range; what is not a number goes to the lower end. -/
def settleInto (bounds : Float × Float) (v : Float) : Float := lesser bounds.2 (greater bounds.1 v)

/-- All ranges are single numbers: their values. -/
def pinned? (box : List (Float × Float)) : Option (List Float) :=
  if box.all fun b => Scalar.agree b.1 b.2 then some (box.map Prod.fst) else none

/-- The part of a gradient entry along which a variable can still fall within its range. -/
def projected (bounds : Float × Float) (v g : Float) : Float :=
  if g < 0 then
    let room := v - bounds.2
    if g < room then room else g
  else
    let room := v - bounds.1
    if room < g then room else g

/-- The largest share of a step, up to a given one, that stays in the range. -/
def shareWithin (bounds : Float × Float) (v step share : Float) : Float :=
  if step < 0 then
    let room := bounds.1 - v
    if 0 ≤ room then 0 else if step * share < room then room / step else share
  else if 0 < step then
    let room := bounds.2 - v
    if room ≤ 0 then 0 else if room < step * share then room / step else share
  else share

end BinaryQuadratic.Relaxation
