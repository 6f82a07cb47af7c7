import BinaryQuadratic.Plain

/-!
# The order of keys

Texts compare with texts and numbers with numbers, nothing else compares. Keys are sorted by
comparing them: a stretch that already rises or falls is taken as a run, a short one is filled up
with further keys, each of which looks for its place by halving, and neighbouring runs are merged.
The first two keys that such a comparison meets and that do not compare are the clash of the list.

* `Plain.less?`: whether one key lies below another, if they compare;
* `Plain.nextRun`: the run that a list begins with;
* `Plain.arrange`: the keys in ascending order, or their clash;
* `Plain.sortedKeys`: the same, with the clash as a fault.
-/

namespace BinaryQuadratic.Plain

/-- The double of a key, an infinite one included. -/
def double? : Plain → Option Float
  | float x => some x
  | _ => none

/-- Whether a number lies below another one; only infinite ones have no exact value. -/
def numberBelow? (a b : Plain) : Option Bool :=
  match a.number?, b.number?, a.double?, b.double? with
  | some p, some q, _, _ => some (decide (p < q))
  | none, some _, some x, _ => some (decide (x < 0))
  | some _, none, _, some y => some (decide (0 < y))
  | none, none, some x, some y => some (decide (x < y))
  | _, _, _, _ => none

def less? : Plain → Plain → Option Bool
  | text s, text t => some (Text.below s t)
  | a, b => numberBelow? a b

/-- Two keys that do not compare, the one that was looked at first. -/
abbrev Clash := Plain × Plain

/-- The place of a key among sorted ones between `low` and `high`, behind those that are equal. -/
def placeBetween (key : Plain) (sorted : List Plain) (low high : Nat) : Except Clash Nat :=
  if low < high then
    let middle := low + (high - low) / 2
    match sorted[middle]? with
    | none => .ok low
    | some other =>
      match key.less? other with
      | none => .error (key, other)
      | some true => placeBetween key sorted low middle
      | some false => placeBetween key sorted (middle + 1) high
  else .ok low
termination_by high - low
decreasing_by
  all_goals omega

def placeAll (sorted : List Plain) : List Plain → Except Clash (List Plain)
  | [] => .ok sorted
  | key :: rest =>
    match placeBetween key sorted 0 sorted.length with
    | .ok i => placeAll (sorted.insertIdx i key) rest
    | .error clash => .error clash

/-- Goes along a run, the last key of which heads `run`, as far as it goes on. -/
def followRun (falling : Bool) (run : List Plain) :
    List Plain → Except Clash (List Plain × List Plain)
  | [] => .ok (if falling then run else run.reverse, [])
  | key :: rest =>
    match run.head? with
    | none => .ok ([], key :: rest)
    | some last =>
      match key.less? last with
      | none => .error (key, last)
      | some below =>
        if below = falling then followRun falling (key :: run) rest
        else .ok (if falling then run else run.reverse, key :: rest)

/-- The run at the front in ascending order, and what comes after it. -/
def firstRun : List Plain → Except Clash (List Plain × List Plain)
  | first :: second :: rest =>
    match second.less? first with
    | none => .error (second, first)
    | some falling => followRun falling [second, first] rest
  | short => .ok (short, [])

/-- The run at the front, filled up to a length from what comes after it. -/
def nextRun (length : Nat) (keys : List Plain) : Except Clash (List Plain × List Plain) := do
  let (run, rest) ← firstRun keys
  let missing := length - run.length
  let run ← placeAll run (rest.take missing)
  pure (run, rest.drop missing)

/-- Lists below this length are one run. -/
def shortList : Nat := 64

/-- How long a run has to be at least: the length halved until it is short, and one more if anything
was cut off. -/
def leastRun (length : Nat) (cut : Bool) : Nat :=
  if length < shortList then if cut then length + 1 else length
  else leastRun (length / 2) (cut || length % 2 = 1)
termination_by length
decreasing_by
  simp only [shortList] at *
  omega

/-- A run, how many keys come before it, and how deep the seam to the run after it lies. -/
structure Run where
  keys : List Plain
  start : Nat
  depth : Nat

/-- The first binary digit in which the middles of two neighbouring runs differ, as parts of the
whole. -/
def seamDepth (total : Nat) (first second : Run) : Nat :=
  let near := 2 * first.start + first.keys.length
  let far := near + first.keys.length + second.keys.length
  let digits (middle depth : Nat) : Nat := middle * Nat.pow 2 depth / (2 * total)
  ((List.range (total + 1)).find? fun depth =>
    digits near (depth + 1) != digits far (depth + 1)).elim 0 (· + 1)

/-- Two neighbouring runs as one. The first key of the later one is compared with the first key of
the earlier one; runs that compare there compare everywhere. -/
def mergeRuns (first second : Run) : Except Clash Run :=
  match first.keys.head?, second.keys.head? with
  | some low, some high =>
    match high.less? low with
    | none => .error (high, low)
    | some _ =>
      .ok ⟨first.keys.merge second.keys fun a b => !(b.less? a).getD false, first.start,
        second.depth⟩
  | _, _ => .ok ⟨first.keys ++ second.keys, first.start, second.depth⟩

/-- Merges the last runs, the last of which comes first, as long as the seam before them lies deeper
than the one that follows; that seam's depth is noted on the last run. -/
def settleRuns (depth : Nat) (last : Run) : List Run → Except Clash (List Run)
  | before :: earlier =>
    if depth < before.depth then do
      let merged ← mergeRuns before last
      settleRuns depth merged earlier
    else .ok ({ last with depth := depth } :: before :: earlier)
  | [] => .ok [{ last with depth := depth }]

/-- The runs of a list, the last one first, at most so many. -/
def collectRuns (total least : Nat) (runs : List Run) (start : Nat) :
    Nat → List Plain → Except Clash (List Run)
  | 0, _ => .ok runs
  | _ + 1, [] => .ok runs
  | count + 1, keys => do
    let (run, rest) ← nextRun least keys
    let next : Run := ⟨run, start, 0⟩
    let settled ← match runs with
      | last :: earlier => settleRuns (seamDepth total last next) last earlier
      | [] => pure []
    collectRuns total least (next :: settled) (start + run.length) count rest

/-- Merges runs from the last on, a shorter one before them first. -/
def mergeAll : Nat → List Run → Except Clash (List Plain)
  | 0, _ => .ok []
  | _ + 1, [] => .ok []
  | _ + 1, [run] => .ok run.keys
  | count + 1, last :: before :: earlier =>
    match earlier with
    | third :: earlier =>
      if third.keys.length < last.keys.length then do
        let merged ← mergeRuns third before
        mergeAll count (last :: merged :: earlier)
      else do
        let merged ← mergeRuns before last
        mergeAll count (merged :: third :: earlier)
    | [] => do
      let merged ← mergeRuns before last
      mergeAll count [merged]

def arrange (keys : List Plain) : Except Clash (List Plain) := do
  let runs ← collectRuns keys.length (leastRun keys.length false) [] 0 keys.length keys
  mergeAll (keys.length + 1) runs

def clash? (keys : List Plain) : Option Clash :=
  match arrange keys with
  | .ok _ => none
  | .error clash => some clash

def atMost (a b : Plain) : Bool := !(b.less? a).getD false

/-- The keys in ascending order, unless two of them do not compare. -/
def sortedKeys (keys : List Plain) : Except Fault (List Plain) :=
  match clash? keys with
  | some (left, right) => .error (.incomparable "<" left.kind right.kind)
  | none => .ok (keys.mergeSort atMost)

end BinaryQuadratic.Plain
