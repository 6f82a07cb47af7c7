import BinaryQuadratic.Node
import BinaryQuadratic.Plain.Sum
import BinaryQuadratic.Quadratic
import BinaryQuadratic.Random.Seed
import BinaryQuadratic.Strategy

/-!
# Choosing the variable to branch on

Every strategy picks one of the unfixed variables of a node and fails when there is none.

* `Context`: the form, the strategy, the seed and the number of visited nodes;
* `flips`: for every variable the change of the objective when it alone becomes zero or one;
* `firstNotFixed`, `mostViolated`, `random`, `worstApproximation`, `bestApproximation`;
* `select`: the choice of the strategy in the context;
* `analyse`: all choices and what they are made from.

An incumbent that no candidate has replaced yet is absent, so no number stands in for infinity.
-/

namespace BinaryQuadratic

/-- What a choice depends on besides the node. Seed and number of visited nodes are as they are
given; nothing is asked of them before they are needed. -/
structure Context (α : Type) where
  form : Quadratic α
  strategy : Choice
  seed : Plain
  visited : Plain

namespace Context

variable {α : Type}

def size (context : Context α) : Nat := context.form.size

def generator (context : Context α) : Except Fault Random.Generator := do
  let seed ← context.seed.plus context.visited
  Seed.generator seed

def countVisit (context : Context α) : Except Fault (Context α) :=
  context.visited.successor.map fun visited => { context with visited := visited }

end Context

namespace Branching

variable {α : Type} [Scalar α]

/-- The change of the objective for every variable when it alone becomes zero, and when it alone
becomes one. -/
structure Flips (α : Type) where
  zero : List α
  one : List α
  deriving DecidableEq, Repr

/-- The change along one variable by `step`, where `diagonal` is its square term and `cross` the
part that is linear in it. -/
def change (step diagonal cross : α) : α :=
  (Scalar.half * step) * (step * diagonal + cross)

/-- For every variable what the objective's linear part in it amounts to at a point. Rows and
columns are read apart, so the matrix may be asymmetric. -/
def crossTerms (f : Quadratic α) (x : List α) : List α :=
  Summation.addEach (Summation.addEach (f.matrix.times x) (f.matrix.timesTransposed x))
    (f.linear.map (Scalar.two * ·))

def changes (steps diagonal cross : List α) : List α :=
  List.zipWith (fun step (dc : α × α) => change step dc.1 dc.2) steps (diagonal.zip cross)

def flipsAt (f : Quadratic α) (x : List α) : Flips α :=
  let diagonal := f.matrix.diagonal
  let cross := crossTerms f x
  ⟨changes (x.map (- ·)) diagonal cross, changes (x.map (1 - ·)) diagonal cross⟩

def flips (context : Context α) (node : Node α) : Except Fault (Flips α) := do
  let x ← node.base context.size
  if x.length = context.size then pure (flipsAt context.form x)
  else throw (.pointLength context.size x.length)

def firstNotFixed (context : Context α) (node : Node α) : Except Fault Nat :=
  (node.branchable context.size).map Prod.fst

def violation (v : α) : α := Scalar.abs (v - Scalar.half)

/-- The last candidate whose distance from one half is at most every earlier one and `best`. -/
def nearestHalf (x : List α) (best : α) (index : Nat) : List Nat → Except Fault Nat
  | [] => .ok index
  | i :: rest =>
    match x[i]? with
    | none => .error (.outOfBounds i x.length)
    | some v =>
      if violation v ≤ best then nearestHalf x (violation v) i rest
      else nearestHalf x best index rest

/-- The unfixed variable nearest to one half, the last of several; candidates farther away than one
are passed over. -/
def mostViolated (context : Context α) (node : Node α) : Except Fault Nat := do
  let (first, rest) ← node.branchable context.size
  nearestHalf node.solution 1 first (first :: rest)

/-- The first candidate from `start` on, or the very first one. -/
def fromStart (start first : Nat) (rest : List Nat) : Nat :=
  ((first :: rest).find? fun i => decide (start ≤ i)).getD first

/-- The first unfixed variable from a random one on, around the end. -/
def random (context : Context α) (node : Node α) : Except Fault Nat := do
  let (first, rest) ← node.branchable context.size
  let g ← context.generator
  pure (fromStart (g.next.1.toNat % context.size) first rest)

/-- The smaller of two changes, the first where they do not compare. -/
def lesser (zero one : α) : α := if one < zero then one else zero

/-- The greater of two changes, the first where they do not compare. -/
def greater (zero one : α) : α := if zero < one then one else zero

def scores (score : α → α → α) (f : Flips α) : List α := List.zipWith score f.zero f.one

abbrev Incumbent (α : Type) := Option (α × Nat)

/-- A scan over candidates; a candidate that `replaces` the incumbent takes its place. -/
def scan (replaces : Option α → α → Bool) (scores : List α) (incumbent : Incumbent α) :
    List Nat → Incumbent α
  | [] => incumbent
  | i :: rest =>
    match scores[i]? with
    | some s =>
      if replaces (incumbent.map Prod.fst) s then scan replaces scores (some (s, i)) rest
      else scan replaces scores incumbent rest
    | none => scan replaces scores incumbent rest

/-- Greater than the incumbent; without one, any number above negative infinity. -/
def rises (incumbent : Option α) (s : α) : Bool :=
  match incumbent with
  | some best => decide (best < s)
  | none => !Scalar.isNaN s && !Scalar.isBottom s

/-- At most the incumbent; without one, any number. -/
def falls (incumbent : Option α) (s : α) : Bool :=
  match incumbent with
  | some best => decide (s ≤ best)
  | none => !Scalar.isNaN s

/-- The candidate that a scan of the scores ends with, the first one if none is accepted. -/
def byScore (score : α → α → α) (replaces : Option α → α → Bool) (context : Context α)
    (node : Node α) : Except Fault Nat := do
  let (first, rest) ← node.branchable context.size
  let changes ← flips context node
  pure (((scan replaces (scores score changes) none (first :: rest)).map Prod.snd).getD first)

/-- The first variable whose smaller change is greatest. -/
def worstApproximation (context : Context α) (node : Node α) : Except Fault Nat :=
  byScore lesser rises context node

/-- The last variable whose greater change is least. -/
def bestApproximation (context : Context α) (node : Node α) : Except Fault Nat :=
  byScore greater falls context node

def run (strategy : Strategy) (context : Context α) (node : Node α) : Except Fault Nat :=
  match strategy with
  | .firstNotFixed => firstNotFixed context node
  | .mostViolated => mostViolated context node
  | .random => random context node
  | .worstApproximation => worstApproximation context node
  | .bestApproximation => bestApproximation context node

def select (context : Context α) (node : Node α) : Except Fault Nat := do
  let strategy ← context.strategy.strategy
  run strategy context node

/-- Everything that can be said of a node before branching; each part on its own may fail. -/
structure Analysis (α : Type) where
  choices : List (Strategy × Except Fault Nat)
  unfixed : List Nat
  branchable : Except Fault (Nat × List Nat)
  base : Except Fault (List α)
  flips : Except Fault (Flips α)

def analyse (context : Context α) (node : Node α) : Analysis α where
  choices := Strategy.all.map fun strategy => (strategy, run strategy context node)
  unfixed := node.fixed.unfixed context.size
  branchable := node.branchable context.size
  base := node.base context.size
  flips := flips context node

end Branching

end BinaryQuadratic
