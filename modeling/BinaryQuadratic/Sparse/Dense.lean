import BinaryQuadratic.Sparse.Shape

/-!
# Matrices by all their cells

* `Sparse.ofDense`: the matrix of full rows, from which missing values are left out;
* `nonzero`: a value, missing if it is zero;
* `Sparse.scaled`: one value along the diagonal;
* `Diagonals.build`: the matrix of some of its diagonals, or the first flaw.
-/

namespace BinaryQuadratic

namespace Sparse

variable {α : Type}

/-- The entries of a line given by all its values: what is missing is not stored. -/
def denseLine (first : Nat) : List (Option α) → List (Nat × α)
  | [] => []
  | none :: rest => denseLine (first + 1) rest
  | some v :: rest => (first, v) :: denseLine (first + 1) rest

theorem denseLine_lt {first : Nat} {values : List (Option α)} {e : Nat × α}
    (h : e ∈ denseLine first values) : e.1 < first + values.length := by
  induction values generalizing first with
  | nil => simp [denseLine] at h
  | cons v rest ih =>
    have later : e ∈ denseLine (first + 1) rest → e.1 < first + (v :: rest).length := by
      intro he
      have := ih he
      simp only [List.length_cons]
      omega
    cases v with
    | none => exact later h
    | some v =>
      rcases List.mem_cons.1 h with rfl | h
      · simp
      · exact later h

def nonzero [BEq α] [Zero α] (v : α) : Option α := if v == 0 then none else some v

/-- The matrix of the given rows, each cut to the width. -/
def ofDense (width : Nat) (rows : List (List (Option α))) : Sparse α where
  width := width
  lines := rows.map fun row => denseLine 0 (row.take width)
  bounded := by
    intro line hline entry hentry
    obtain ⟨row, _, rfl⟩ := List.mem_map.1 hline
    have := denseLine_lt hentry
    simp only [List.length_take] at this
    omega

def scaled (n : Nat) (v : α) : Sparse α where
  width := n
  lines := (List.range n).map fun i => [(i, v)]
  bounded := by
    intro line hline entry hentry
    obtain ⟨i, hi, rfl⟩ := List.mem_map.1 hline
    obtain rfl := List.mem_singleton.1 hentry
    exact List.mem_range.1 hi

end Sparse

/-- Diagonals, each a list of values by column, and how far right of the main one they lie. -/
structure Diagonals (α : Type) where
  values : List (List α)
  offsets : List Int
  shape : Option (Int × Int)
  deriving DecidableEq, Repr

namespace Diagonals

variable {α : Type}

def entry? (parts : Diagonals α) (i j : Nat) : Option α :=
  (parts.values.zip parts.offsets).findSome? fun (diagonal, offset) =>
    if (j : Int) - i = offset then diagonal[j]? else none

/-- The extents, which have to be given. -/
def extents : Option (Int × Int) → Except Fault (Nat × Nat)
  | none => .error .noShape
  | some shape => checkShape shape.1 shape.2

/-- The rows of the shape; zeros are not stored. -/
def build [BEq α] [Zero α] (parts : Diagonals α) : Except Fault (Sparse α) := do
  let (height, width) ← extents parts.shape
  if parts.values.length ≠ parts.offsets.length then
    throw (.diagonalCount parts.values.length parts.offsets.length)
  else if ¬parts.offsets.Nodup then throw .repeatedOffset
  else pure (Sparse.ofDense width
    ((List.range height).map fun i => (List.range width).map fun j =>
      (parts.entry? i j).bind Sparse.nonzero))

end Diagonals

end BinaryQuadratic
