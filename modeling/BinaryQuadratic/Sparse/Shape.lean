import BinaryQuadratic.Index
import BinaryQuadratic.Sparse.Basic

/-!
# Shapes

* `checkShape`: extents that are given or inferred must not be negative and fit an index;
* `reach`: the least extent that holds every index of a list;
* `Sparse.ofLines?`: a matrix of the given lines, if every position has a column.
-/

namespace BinaryQuadratic

/-- The number of lines and their length; neither may be negative or beyond all indices. -/
def checkShape (height width : Int) : Except Fault (Nat × Nat) :=
  if height < 0 || width < 0 then .error .negativeShape
  else if !isIndex height || !isIndex width then .error .wideIndex
  else .ok (height.toNat, width.toNat)

/-- The greatest index plus one, for at least one index. -/
def reach : List Int → Option Int
  | [] => none
  | p :: rest => some (rest.foldl max p + 1)

def Sparse.ofLines? {α : Type} (width : Nat) (lines : List (List (Nat × α))) : Option (Sparse α) :=
  if h : ∀ line ∈ lines, ∀ entry ∈ line, entry.1 < width then some ⟨width, lines, h⟩ else none

end BinaryQuadratic
