import BinaryQuadratic.Sparse.Shape

/-!
# Compressed lines

A matrix as three lists: the values line after line, their positions, and the offset at which every
line starts.

* `Compressed.shape`: the extents, or what offsets and positions say of them;
* `Compressed.build`: the matrix, its entries kept as they are, or the first flaw.
-/

namespace BinaryQuadratic

/-- Lines one after another: values, their positions, where each line starts, and how far the
lines and the positions go. -/
structure Compressed (α : Type) where
  values : List α
  positions : List Int
  offsets : List Int
  extents : Option (Int × Int)
  deriving DecidableEq, Repr

namespace Compressed

variable {α : Type}

/-- The lines between one offset and the next. -/
def cut (entries : List (Nat × α)) : List Nat → List (List (Nat × α))
  | start :: stop :: rest =>
    ((entries.drop start).take (stop - start)) :: cut entries (stop :: rest)
  | _ => []

/-- How many lines, and how far the positions go: as given, or one line for each offset but the
last, and positions up to the greatest. -/
def shape (parts : Compressed α) : Except Fault (Nat × Nat) :=
  match parts.extents, reach parts.positions with
  | some extents, _ => checkShape extents.1 extents.2
  | none, some width => checkShape (parts.offsets.length - 1) width
  | none, none => .error .noDimensions

/-- The entries up to the last offset, if all their positions can be one. -/
def entries? (parts : Compressed α) : Option (List (Nat × α)) :=
  let count := (parts.offsets.getLastD 0).toNat
  let positions := parts.positions.take count
  if positions.any (· < 0) then none
  else some ((positions.map Int.toNat).zip (parts.values.take count))

/-- The lines as they are; what lies behind the last offset is cut off and not looked at. -/
def build (parts : Compressed α) : Except Fault (Sparse α) := do
  let (height, width) ← parts.shape
  if parts.offsets.length ≠ height + 1 then
    throw (.offsetCount parts.offsets.length (height + 1))
  else if parts.offsets.head? ≠ some 0 then throw .offsetStart
  else if parts.positions.length ≠ parts.values.length then throw .entryCount
  else if parts.positions.length < parts.offsets.getLastD 0 then throw .offsetEnd
  else
    let lines := parts.entries?.map fun entries => cut entries (parts.offsets.map Int.toNat)
    match lines.bind (Sparse.ofLines? width) with
    | some m => pure m
    | none => throw .positionTooLarge

end Compressed

end BinaryQuadratic
