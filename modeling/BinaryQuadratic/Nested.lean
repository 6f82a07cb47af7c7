import BinaryQuadratic.Plain

/-!
# Nested lists as arrays

A nested list is an array when all its lists of one depth have one length and hold either lists
only or values only.

* `Nested.firstPath`: the lengths of the lists on the way to the first value;
* `Nested.departure`: the least depth at which a value is not shaped like that;
* `Nested.ofPlain`: the extents and all values in order, or where the shape breaks;
* `Nested.floats`: the same with every value read as a double.
-/

namespace BinaryQuadratic

/-- The extents of an array, outermost first, and its values in order. -/
structure Nested (α : Type) where
  extents : List Nat
  values : List α

namespace Nested

def depthLimit : Nat := 64

/-- The lengths of the lists on the way to the first value. -/
def firstPath : Plain → List Nat
  | .list items => items.length :: ofFirst items
  | _ => []
where
  /-- The path in the first item, of which there may be none. -/
  ofFirst : List Plain → List Nat
    | [] => []
    | item :: _ => firstPath item

def shallower : Option Nat → Option Nat → Option Nat
  | some a, some b => some (min a b)
  | some a, none => some a
  | none, later => later

/-- The least depth at which a value is not shaped by the extents: a list of another length, a value
in place of a list, or a list in place of a value. -/
def departure : List Nat → Plain → Option Nat
  | n :: rest, .list items =>
    if items.length = n then (ofItems rest items).map (· + 1) else some 0
  | _ :: _, _ => some 0
  | [], .list _ => some 0
  | [], _ => none
where
  /-- The least depth at which one of the items is not shaped by the extents. -/
  ofItems (shape : List Nat) : List Plain → Option Nat
    | [] => none
    | item :: rest => shallower (departure shape item) (ofItems shape rest)

def leaves : Plain → List Plain
  | .list items => ofItems items
  | value => [value]
where
  /-- The values of all items. -/
  ofItems : List Plain → List Plain
    | [] => []
    | item :: rest => leaves item ++ ofItems rest

/-- A nested list as an array. A list that goes on where the first path ends at the limit is too
deep; any other departure leaves an array of fewer extents with uneven items. -/
def ofPlain (value : Plain) : Except Fault (Nested Plain) :=
  let shape := (firstPath value).take depthLimit
  match departure shape value with
  | none => .ok ⟨shape, leaves value⟩
  | some depth =>
    if depth = depthLimit then .error (.deepArray depthLimit)
    else .error (.unevenArray (shape.take depth))

/-- The double of a value; null is not a number. -/
def number : Plain → Except Fault Float
  | .null => .ok (0 / 0)
  | value => value.toFloat

def floats (value : Plain) : Except Fault (Nested Float) := do
  let array ← ofPlain value
  let numbers ← array.values.mapM number
  pure ⟨array.extents, numbers⟩

def rows {α : Type} (width : Nat) : Nat → List α → List (List α)
  | 0, _ => []
  | height + 1, values => values.take width :: rows width height (values.drop width)

end Nested

end BinaryQuadratic
