import BinaryQuadratic.Sparse.Shape

/-!
# Coordinates

A matrix as values with a row and a column each, in any order.

* `Coordinates.extents`: the shape, or what the greatest coordinates say of it;
* `Coordinates.build`, `Coordinates.buildColumns`: the matrix by sorted rows or columns with
  repeated coordinates added up, or the first flaw.
-/

namespace BinaryQuadratic

structure Coordinates (α : Type) where
  values : List α
  rows : List Int
  columns : List Int
  shape : Option (Int × Int)
  deriving DecidableEq, Repr

namespace Coordinates

variable {α : Type}

/-- The given shape, or one that reaches the greatest coordinates. -/
def extents (parts : Coordinates α) : Except Fault (Nat × Nat) :=
  match parts.shape, reach parts.rows, reach parts.columns with
  | some shape, _, _ => checkShape shape.1 shape.2
  | none, some height, some width => checkShape height width
  | none, _, _ => .error .noExtent

/-- Refuses a coordinate beyond its axis, and after that a negative one. -/
def checkAxis (axis extent : Nat) : List Int → Except Fault Unit
  | [] => .ok ()
  | p :: rest =>
    let largest := rest.foldl max p
    let least := rest.foldl min p
    if extent ≤ largest then .error (.coordinateTooLarge axis largest extent)
    else if least < 0 then .error (.coordinateNegative axis least)
    else .ok ()

/-- Each value at one coordinate in the line of the other one, in the order given. -/
def lines (values : List α) (downs acrosses : List Int) (height : Nat) : List (List (Nat × α)) :=
  (downs.zip (acrosses.zip values)).foldl
    (fun lines e => lines.modify e.1.toNat (· ++ [(e.2.1.toNat, e.2.2)]))
    (List.replicate height [])

def check (parts : Coordinates α) : Except Fault (Nat × Nat) := do
  let (height, width) ← parts.extents
  if parts.rows.length ≠ parts.values.length || parts.columns.length ≠ parts.values.length then
    throw .coordinateCount
  else do
    checkAxis 0 height parts.rows
    checkAxis 1 width parts.columns
    pure (height, width)

/-- The sorted lines of a width, repeated positions added up. -/
def merge [Scalar α] (width : Nat) (lines : List (List (Nat × α))) : Except Fault (Sparse α) :=
  match Sparse.ofLines? width lines with
  | some m => .ok m.merged
  | none => .error .positionTooLarge

/-- The rows sorted by column, repeated coordinates added up. -/
def build [Scalar α] (parts : Coordinates α) : Except Fault (Sparse α) := do
  let (height, width) ← parts.check
  merge width (lines parts.values parts.rows parts.columns height)

/-- The columns sorted by row, repeated coordinates added up. -/
def buildColumns [Scalar α] (parts : Coordinates α) : Except Fault (Sparse α) := do
  let (height, width) ← parts.check
  merge height (lines parts.values parts.columns parts.rows width)

end Coordinates

end BinaryQuadratic
