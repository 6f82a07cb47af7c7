/-!
# The order of a line

A line of entries is sorted by position. Where a position is repeated the order of its entries
counts, as they are added up in that order. Lines of at most sixteen entries keep it. Longer ones
are first divided around the median of three of their entries, again and again until the parts are
short; where that takes too long a part is sorted through a heap. What is left is sorted stably.

* `swapHead`, `divide`: one division of a line around its first entry;
* `Heap.sorted`: a line sorted through a heap;
* `arrange`: a line divided into short parts, each before the next;
* `sorted`: the entries by position; `sorted_perm` says that none is lost or made.
-/

namespace BinaryQuadratic.LineOrder

variable {α : Type}

def swapHead (i : Nat) : List (Nat × α) → List (Nat × α)
  | [] => []
  | first :: rest =>
    match i with
    | 0 => first :: rest
    | i + 1 => rest.getD i first :: rest.set i first

theorem set_perm (rest : List (Nat × α)) (i : Nat) (first : Nat × α) :
    (rest.getD i first :: rest.set i first).Perm (first :: rest) := by
  induction rest generalizing i with
  | nil => simp
  | cons e rest ih =>
    cases i with
    | zero => simpa using List.Perm.swap first e rest
    | succ i =>
      simp only [List.getD_cons_succ, List.set_cons_succ]
      exact (List.Perm.swap ..).trans (((ih i).cons e).trans (List.Perm.swap ..))

theorem swapHead_perm (i : Nat) (line : List (Nat × α)) : (swapHead i line).Perm line := by
  cases line with
  | nil => exact .refl _
  | cons first rest =>
    cases i with
    | zero => exact .refl _
    | succ i => exact set_perm rest i first

def below (pivot : Nat) (e : Nat × α) : Bool := decide (e.1 < pivot)

def above (pivot : Nat) (e : Nat × α) : Bool := decide (pivot < e.1)

/-- What comes after the entries below a pivot at the front and before those above it at the end. -/
def core (pivot : Nat) (line : List (Nat × α)) : List (Nat × α) :=
  ((line.dropWhile (below pivot)).reverse.dropWhile (above pivot)).reverse

def back (pivot : Nat) (line : List (Nat × α)) : List (Nat × α) :=
  ((line.dropWhile (below pivot)).reverse.takeWhile (above pivot)).reverse

theorem front_core_back (pivot : Nat) (line : List (Nat × α)) :
    line.takeWhile (below pivot) ++ (core pivot line ++ back pivot line) = line := by
  rw [core, back, ← List.reverse_append, List.takeWhile_append_dropWhile, List.reverse_reverse,
    List.takeWhile_append_dropWhile]

theorem length_core_le (pivot : Nat) (line : List (Nat × α)) :
    (core pivot line).length ≤ line.length := by
  have := congrArg List.length (front_core_back pivot line)
  simp only [List.length_append] at this
  omega

/-- Divides a line around a pivot from both ends: an entry that is not below it and one that is not
above it change places, until the ends meet. -/
def divide (pivot : Nat) (line : List (Nat × α)) : List (Nat × α) × List (Nat × α) :=
  match h : core pivot line with
  | first :: second :: rest =>
    let middle := (second :: rest).dropLast
    let (left, right) := divide pivot middle
    (line.takeWhile (below pivot) ++ (second :: rest).getLast (by simp) :: left,
      right ++ first :: back pivot line)
  | short => (line.takeWhile (below pivot), short ++ back pivot line)
termination_by line.length
decreasing_by
  have := length_core_le pivot line
  rw [h] at this
  simp only [List.length_dropLast, List.length_cons] at this ⊢
  omega

theorem exchange_perm (first last : Nat × α) {left right middle : List (Nat × α)}
    (h : (left ++ right).Perm middle) :
    (last :: left ++ (right ++ [first])).Perm (first :: (middle ++ [last])) := by
  have toFront : (last :: left ++ (right ++ [first])).Perm (first :: last :: (left ++ right)) := by
    rw [← List.append_assoc]
    exact List.perm_append_singleton ..
  have toBack : (first :: (middle ++ [last])).Perm (first :: last :: middle) :=
    (List.perm_append_singleton ..).cons _
  exact toFront.trans (((h.cons last).cons first).trans toBack.symm)

theorem divide_perm (pivot : Nat) (line : List (Nat × α)) :
    ((divide pivot line).1 ++ (divide pivot line).2).Perm line := by
  fun_induction divide pivot line with
  | case1 line first second rest h middle left right hd ih =>
    have whole := front_core_back pivot line
    rw [h] at whole
    have parts : middle ++ [(second :: rest).getLast (by simp)] = second :: rest :=
      List.dropLast_concat_getLast (by simp)
    have same : (left ++ right).Perm middle := by simpa [hd] using ih
    have inner := exchange_perm first ((second :: rest).getLast (by simp)) same
    rw [parts] at inner
    calc _ = line.takeWhile (below pivot)
          ++ (((second :: rest).getLast (by simp) :: left ++ (right ++ [first]))
            ++ back pivot line) := by simp
      _ |>.Perm (line.takeWhile (below pivot) ++ (first :: second :: rest ++ back pivot line)) :=
          (inner.append_right _).append_left _
      _ = line := whole
  | case2 line hshort =>
    simpa using List.Perm.of_eq (front_core_back pivot line)

namespace Heap

theorem swap_perm (heap : Array (Nat × α)) (i j : Nat) : (heap.swapIfInBounds i j).Perm heap := by
  unfold Array.swapIfInBounds
  split
  · split
    · exact Array.swap_perm _ _
    · exact .refl _
  · exact .refl _

def position (heap : Array (Nat × α)) (i : Nat) : Nat := (heap[i]?.map Prod.fst).getD 0

/-- Moves the entry at an index up to the top of its part of the heap, past all that lie below it in
position. -/
def rise (heap : Array (Nat × α)) (top i : Nat) : Array (Nat × α) :=
  if top < i && position heap ((i - 1) / 2) < position heap i then
    rise (heap.swapIfInBounds ((i - 1) / 2) i) top ((i - 1) / 2)
  else heap
termination_by i
decreasing_by
  simp_all only [Bool.and_eq_true, decide_eq_true_eq]
  omega

/-- The child with the greater position, the right one of equal ones. -/
def greaterChild (heap : Array (Nat × α)) (i : Nat) : Nat :=
  if position heap (2 * i + 2) < position heap (2 * i + 1) then 2 * i + 1 else 2 * i + 2

/-- Moves the entry at an index down to the end of the heap, always past the greater child. The heap
has so many entries. Where the entry ends up is returned as well. -/
def sink (size : Nat) (heap : Array (Nat × α)) (i : Nat) : Array (Nat × α) × Nat :=
  if 2 * i + 2 < size then
    sink size (heap.swapIfInBounds i (greaterChild heap i)) (greaterChild heap i)
  else if 2 * i + 2 = size then (heap.swapIfInBounds i (2 * i + 1), 2 * i + 1)
  else (heap, i)
termination_by size - i
decreasing_by
  unfold greaterChild
  split <;> omega

/-- Puts the entry at an index in its place in its part of the heap: to the end and up again. -/
def settle (size : Nat) (heap : Array (Nat × α)) (i : Nat) : Array (Nat × α) :=
  let (heap, hole) := sink size heap i
  rise heap i hole

/-- The entries as a heap with the greatest position on top. -/
def ofLine (line : List (Nat × α)) : Array (Nat × α) :=
  (List.range (line.length / 2)).reverse.foldl (settle line.length) line.toArray

/-- The top changes places with the last entry of a heap, which then holds one less. -/
def extract (heap : Array (Nat × α)) (last : Nat) : Array (Nat × α) :=
  settle last (heap.swapIfInBounds 0 last) 0

/-- A line sorted through a heap: the top is taken off until one entry is left. -/
def sorted (line : List (Nat × α)) : List (Nat × α) :=
  ((List.range' 1 (line.length - 1)).reverse.foldl extract (ofLine line)).toList

theorem rise_perm (heap : Array (Nat × α)) (top i : Nat) : (rise heap top i).Perm heap := by
  fun_induction rise heap top i with
  | case1 heap i h ih => exact ih.trans (swap_perm ..)
  | case2 heap i h => exact .refl _

theorem sink_perm (size : Nat) (heap : Array (Nat × α)) (i : Nat) :
    (sink size heap i).1.Perm heap := by
  fun_induction sink size heap i with
  | case1 heap i h ih => exact ih.trans (swap_perm ..)
  | case2 heap i h h' => exact swap_perm ..
  | case3 heap i h h' => exact .refl _

theorem settle_perm (size : Nat) (heap : Array (Nat × α)) (i : Nat) :
    (settle size heap i).Perm heap :=
  (rise_perm _ _ _).trans (sink_perm size heap i)

theorem foldl_perm {step : Array (Nat × α) → Nat → Array (Nat × α)}
    (h : ∀ heap i, (step heap i).Perm heap) (is : List Nat) (heap : Array (Nat × α)) :
    (is.foldl step heap).Perm heap := by
  induction is generalizing heap with
  | nil => exact .refl _
  | cons i is ih => exact (ih _).trans (h heap i)

theorem sorted_perm (line : List (Nat × α)) : (sorted line).Perm line := by
  have made : (ofLine line).Perm line.toArray := foldl_perm (settle_perm _) _ _
  have taken : ∀ heap : Array (Nat × α), ∀ last, (extract heap last).Perm heap := fun heap last =>
    (settle_perm _ _ _).trans (swap_perm heap 0 last)
  exact ((foldl_perm taken _ _).trans made).toList

end Heap

/-- Lines up to this length are not divided. -/
def shortLength : Nat := 16

/-- Which of three positions has the other two on its sides. -/
def medianOf (a b c : Nat × Nat) : Nat :=
  if a.1 < b.1 then
    if b.1 < c.1 then b.2 else if a.1 < c.1 then c.2 else a.2
  else if a.1 < c.1 then a.2
  else if b.1 < c.1 then c.2
  else b.2

/-- The index of the entry that a line is divided around: the median of its second, its middle and
its last one. -/
def pivotIndex (line : List (Nat × α)) : Nat :=
  let candidate (i : Nat) : Nat × Nat := ((line.map Prod.fst).getD i 0, i)
  medianOf (candidate 1) (candidate (line.length / 2)) (candidate (line.length - 1))

/-- A line divided into short parts, so many times deep at most. -/
def arrange : Nat → List (Nat × α) → List (Nat × α)
  | 0, line => if line.length ≤ shortLength then line else Heap.sorted line
  | depth + 1, line =>
    if line.length ≤ shortLength then line
    else
      match swapHead (pivotIndex line) line with
      | [] => []
      | pivot :: rest =>
        let (left, right) := divide pivot.1 rest
        arrange depth (pivot :: left) ++ arrange depth right

theorem arrange_perm (depth : Nat) (line : List (Nat × α)) : (arrange depth line).Perm line := by
  induction depth generalizing line with
  | zero =>
    unfold arrange
    split
    · exact .refl _
    · exact Heap.sorted_perm line
  | succ depth ih =>
    have swapped := swapHead_perm (pivotIndex line) line
    unfold arrange
    split
    · exact .refl _
    · split
      next h => exact h ▸ swapped
      next pivot rest h =>
        have parts := (divide_perm pivot.1 rest).cons pivot
        exact (((ih _).append (ih _)).trans parts).trans (h ▸ swapped)

/-- The entries by position, arranged down to twice as deep as halving would go. -/
def sorted (line : List (Nat × α)) : List (Nat × α) :=
  (arrange (2 * Nat.log2 line.length) line).mergeSort fun a b => decide (a.1 ≤ b.1)

theorem sorted_perm (line : List (Nat × α)) : (sorted line).Perm line :=
  (List.mergeSort_perm _ _).trans (arrange_perm _ line)

def isSorted : List (Nat × α) → Bool
  | first :: second :: rest => decide (first.1 ≤ second.1) && isSorted (second :: rest)
  | _ => true

end BinaryQuadratic.LineOrder
