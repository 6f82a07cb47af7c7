import BinaryQuadratic.Nested
import BinaryQuadratic.Sparse.Compressed
import BinaryQuadratic.Sparse.Coordinates
import BinaryQuadratic.Sparse.Dense

/-!
# Matrices from their descriptions

* `Stored`: a matrix by rows or by columns, and the other reading of it;
* `Source`: the descriptions a matrix is built from;
* `CellKind`: what the cells of a full matrix are taken for, and how each is read;
* `Source.build`, `Source.buildColumns`: the matrix by rows or by columns, or the first flaw of its
  description.
-/

namespace BinaryQuadratic

/-- A sparse matrix and which of its lines it keeps together. -/
inductive Stored (α : Type)
  | rows (m : Sparse α)
  | columns (m : Sparse α)
  deriving DecidableEq

namespace Stored

variable {α : Type}

def byRows : Stored α → Sparse α
  | rows m => m
  | columns m => m.regroup

def byColumns : Stored α → Sparse α
  | rows m => m.regroup
  | columns m => m

end Stored

/-- The descriptions of a matrix; numbers are given as plain data. A matrix of
`numbers` differs from a `dense` one in that every cell is read before it is looked at. -/
inductive Source
  | dense (value : Plain)
  | numbers (value : Plain)
  | identity (n : Int) (scale : Float) (keepZeros : Bool)
  | zeros (height width : Int)
  | rows (values : Plain) (positions offsets : List Int) (shape : Option (Int × Int))
  | columns (values : Plain) (positions offsets : List Int) (shape : Option (Int × Int))
  | coordinates (values : Plain) (rows columns : List Int) (shape : Option (Int × Int))
  | diagonals (values : Plain) (offsets : List Int) (shape : Option (Int × Int))

/-- What the cells of a full matrix are taken for: numbers, texts as soon as one is a text, or loose
values as soon as one is neither a text nor a number of ordinary size. -/
inductive CellKind
  | numbers
  | texts
  | loose
  deriving DecidableEq, Repr

namespace CellKind

/-- The kind of a single cell. An integer beyond 64 bits is a loose value. -/
def ofPlain : Plain → CellKind
  | .bool _ | .float _ => .numbers
  | .integer i => if -0x8000000000000000 ≤ i && i < 0x10000000000000000 then .numbers else .loose
  | .text _ => .texts
  | .null | .list _ | .map _ => .loose

def join : CellKind → CellKind → CellKind
  | loose, _ | _, loose => loose
  | texts, _ | _, texts => texts
  | numbers, numbers => numbers

def ofCells (cells : List Plain) : CellKind :=
  cells.foldl (fun kind cell => kind.join (ofPlain cell)) numbers

/-- The number a text among texts stands for; an empty one is missing, a zero is not. -/
def readText (s : String) : Except Fault (Option Float) :=
  if s.isEmpty then .ok none
  else
    match Decimal.readFloat s with
    | some x => .ok (some x)
    | none => .error (.notFloatCell (Text.quoted s))

/-- The number of a cell, or nothing where it is missing. Among numbers the zeros are missing. Among
texts every other value is taken as it is written. Among loose values the empty ones are missing. -/
def read : CellKind → Plain → Except Fault (Option Float)
  | numbers, value => value.toFloat.map Sparse.nonzero
  | texts, .text s => readText s
  | texts, .bool b => (Plain.bool b).shown.bind readText
  | texts, value => value.toFloat.map some
  | loose, value => if value.isEmpty then .ok none else value.toFloat.map some

end CellKind

namespace Source

/-- A scalar is a single cell, a list of scalars one row, a list of such lists their rows. -/
def ofCells (extents : List Nat) (cells : List (Option Float)) : Except Fault (Sparse Float) :=
  match extents with
  | [] => .ok (Sparse.ofDense 1 [cells])
  | [width] => .ok (Sparse.ofDense width [cells])
  | [height, width] => .ok (Sparse.ofDense width (Nested.rows width height cells))
  | extents => .error (.tooManyAxes extents.length)

/-- Cells of one kind. The extents are refused before a cell is read. -/
def buildDense (value : Plain) : Except Fault (Sparse Float) :=
  match Nested.ofPlain value with
  | .error _ => .error (value.refusal .raggedRows)
  | .ok array => do
    let _ ← ofCells array.extents []
    let cells ← array.values.mapM (CellKind.ofCells array.values).read
    ofCells array.extents cells

/-- Cells that are numbers; one that is missing is not a number. -/
def buildNumbers (value : Plain) : Except Fault (Sparse Float) := do
  let array ← Nested.floats value
  ofCells array.extents (array.values.map Sparse.nonzero)

/-- How many lines there are with one entry each on the diagonal. Where the lines are made
beforehand a size has to be an index, otherwise the size of an array. -/
def identitySize (n : Int) (keepZeros : Bool) : Except Fault Nat :=
  if n < 0 then .error (if keepZeros then .negativeSize else .diagonalOutside)
  else if keepZeros && !isIndex n then .error .wideIndex
  else checkSize n

/-- One value along the diagonal; a zero is left out unless the lines are made beforehand. -/
def buildIdentity (n : Int) (scale : Float) (keepZeros : Bool) : Except Fault (Sparse Float) := do
  let size ← identitySize n keepZeros
  if scale == 0 && !keepZeros then
    pure (Sparse.empty size size)
  else
    pure (Sparse.scaled size scale)

/-- Lines one after another; once the extents are right, the values have to come as one list. -/
def buildCompressed (values : Plain) (positions offsets : List Int) (shape : Option (Int × Int)) :
    Except Fault (Sparse Float) := do
  let array ← Nested.floats values
  let parts : Compressed Float := ⟨array.values, positions, offsets, shape⟩
  let _ ← parts.shape
  if array.extents.length = 1 then parts.build else throw .flatParts

/-- Values with coordinates. Of nested values only the outermost list is counted before they are
refused. -/
def readCoordinates (values : Plain) (downs acrosses : List Int) (shape : Option (Int × Int)) :
    Except Fault (Coordinates Float) := do
  let array ← Nested.floats values
  let parts : Coordinates Float := ⟨array.values, downs, acrosses, shape⟩
  match array.extents with
  | [_] => pure parts
  | extents => do
    let _ ← parts.extents
    match extents with
    | [] => throw .unsizedValues
    | outer :: _ =>
      if outer = downs.length && outer = acrosses.length then throw .flatCoordinates
      else throw .coordinateCount

/-- Diagonals from a list of lists; a single list or number is one diagonal. The extents are checked
before the diagonals are told apart. -/
def buildDiagonals (values : Plain) (offsets : List Int) (shape : Option (Int × Int)) :
    Except Fault (Sparse Float) := do
  let array ← Nested.floats values
  let _ ← Diagonals.extents shape
  match array.extents with
  | [] | [_] => Diagonals.build ⟨[array.values], offsets, shape⟩
  | [height, width] => Diagonals.build ⟨Nested.rows width height array.values, offsets, shape⟩
  | _ => throw .diagonalRank

def build : Source → Except Fault (Stored Float)
  | dense value => (buildDense value).map .rows
  | numbers value => (buildNumbers value).map .rows
  | identity n scale keepZeros => (buildIdentity n scale keepZeros).map .rows
  | zeros height width => (checkShape height width).map fun shape =>
      .rows (Sparse.empty shape.1 shape.2)
  | rows values positions offsets shape =>
    (buildCompressed values positions offsets shape).map .rows
  | columns values positions offsets shape =>
    (buildCompressed values positions offsets (shape.map Prod.swap)).map .columns
  | coordinates values downs acrosses shape => do
    let parts ← readCoordinates values downs acrosses shape
    parts.build.map .rows
  | diagonals values offsets shape => (buildDiagonals values offsets shape).map .rows

/-- The matrix by columns; coordinates are laid out by columns at once. -/
def buildColumns : Source → Except Fault (Sparse Float)
  | coordinates values downs acrosses shape => do
    let parts ← readCoordinates values downs acrosses shape
    parts.buildColumns
  | source => source.build.map Stored.byColumns

end Source

end BinaryQuadratic
