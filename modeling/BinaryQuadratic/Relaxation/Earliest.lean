/-!
# The earliest first

Arrivals in the order of their times. The earliest one is taken out first, and the last one fills
its place; the others go through a heap. Arrivals at the same time follow one another as the heap
has it.

* `rise`, `sink`: an arrival moved up from the end of a heap, or down from its top;
* `heap`: a heap of arrivals;
* `inOrder`: all arrivals, the earliest first.
-/

namespace BinaryQuadratic.Relaxation.Earliest

abbrev Arrival := Float × Nat

/-- Fills a hole: later arrivals above it come down, and the arrival goes where they leave off. -/
def rise (arrivals : List Arrival) (a : Arrival) (hole : Nat) : List Arrival :=
  if hole = 0 then arrivals.set 0 a
  else
    let above := arrivals.getD ((hole - 1) / 2) a
    if a.1 < above.1 then rise (arrivals.set hole above) a ((hole - 1) / 2)
    else arrivals.set hole a
termination_by hole

def heap (arrivals : List Arrival) : List Arrival :=
  arrivals.foldl (fun heap a => rise (heap ++ [a]) a heap.length) []

/-- Fills a hole: earlier arrivals below it come up, the earlier of two, the first of equal ones. -/
def sink (arrivals : List Arrival) (a : Arrival) (hole : Nat) : List Arrival :=
  if 2 * hole + 2 < arrivals.length then
    let left := arrivals.getD (2 * hole + 1) a
    let right := arrivals.getD (2 * hole + 2) a
    if right.1 < left.1 then
      if right.1 < a.1 then sink (arrivals.set hole right) a (2 * hole + 2)
      else arrivals.set hole a
    else if left.1 < a.1 then sink (arrivals.set hole left) a (2 * hole + 1)
    else arrivals.set hole a
  else arrivals.set hole a
termination_by arrivals.length - hole
decreasing_by
  all_goals
    simp only [List.length_set]
    omega

def drain : Nat → List Arrival → List Arrival
  | 0, _ => []
  | _ + 1, [] => []
  | count + 1, top :: rest =>
    match rest.getLast? with
    | none => [top]
    | some last => top :: drain count (sink (top :: rest) last 0).dropLast

/-- The first of the earliest arrivals, with where it stands. -/
def earliest : List Arrival → Option (Arrival × Nat)
  | [] => none
  | first :: rest =>
    some ((rest.zipIdx 1).foldl (fun best next => if next.1.1 < best.1.1 then next else best)
      (first, 0))

def inOrder (arrivals : List Arrival) : List Arrival :=
  match earliest arrivals, arrivals.getLast? with
  | some (first, i), some last =>
    first :: drain arrivals.length (heap (arrivals.set i last).dropLast)
  | _, _ => []

end BinaryQuadratic.Relaxation.Earliest
