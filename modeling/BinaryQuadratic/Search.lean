import BinaryQuadratic.Branching
import BinaryQuadratic.Options
import BinaryQuadratic.Relaxation.Solve

/-!
# Depth-first branch and bound

A stack of nodes, the best complete point so far, and a relaxation for every node.

* `State`, `start`: what a search holds at a loop head, and how it begins;
* `visit`: takes the top node. One whose relaxation does not stay below the incumbent is dropped; a
  node with as many fixings as variables becomes the incumbent; any other is branched, and of its
  children the one at one comes to lie on top;
* `run`: visits while there are nodes and the clock allows it;
* `solve`: a search from the options' fixings.

The relaxations are a parameter and may answer differently at every visit.
-/

namespace BinaryQuadratic.Search

open Relaxation

variable {α : Type}

structure Incumbent (α : Type) where
  x : List α
  objective : α
  deriving DecidableEq, Repr

/-- What a search holds at a loop head; the head of the stack is its top. -/
structure State (α : Type) where
  stack : List (Node α)
  visited : Nat
  best : Option (Incumbent α)
  deriving DecidableEq, Repr

variable [Scalar α]

/-- The root: the given fixings over the central point. -/
def root (n : Nat) (fixed : Fixings α) : Node α :=
  ⟨none, List.replicate n Scalar.half, fixed⟩

def start (n : Nat) (fixed : Fixings α) : State α := ⟨[root n fixed], 0, none⟩

/-- Not below the incumbent; without one, only an infinite value is not below. -/
def dominated (best : Option (Incumbent α)) (objective : α) : Bool :=
  match best with
  | some incumbent => decide (incumbent.objective ≤ objective)
  | none => Scalar.isTop objective

def context (form : Quadratic α) (options : Options α) (visited : Nat) : Context α :=
  ⟨form, .known options.strategy, .integer options.seed, .integer visited⟩

/-- The two nodes below a node, the one at one first. -/
def children (node : Node α) (i : Nat) : List (Node α) := [node.child i 1, node.child i 0]

/-- Relaxes a node at a visit, counted from one. -/
abbrev Relaxer (α : Type) := Nat → Node α → Except Fault (Relaxed α)

def visit (relax : Relaxer α) (form : Quadratic α) (options : Options α) (state : State α)
    (node : Node α) (rest : List (Node α)) : Except Fault (State α) := do
  let visited := state.visited + 1
  let relaxed ← relax visited node
  if dominated state.best relaxed.objective then pure ⟨rest, visited, state.best⟩
  else if node.fixed.size = form.size then
    pure ⟨rest, visited, some ⟨relaxed.x.map Scalar.round, relaxed.objective⟩⟩
  else do
    let node : Node α := ⟨some relaxed.objective, relaxed.x, node.fixed⟩
    let i ← Branching.select (context form options visited) node
    pure ⟨children node i ++ rest, visited, state.best⟩

/-- Visits until the stack is empty or the clock, asked at every loop head, stops the search; at
most `fuel` visits. -/
def run (relax : Relaxer α) (form : Quadratic α) (options : Options α) (clock : Nat → Bool) :
    Nat → State α → Except Fault (State α)
  | 0, state => .ok state
  | fuel + 1, state =>
    match state.stack with
    | [] => .ok state
    | node :: rest =>
      if clock state.visited then
        match visit relax form options state node rest with
        | .ok next => run relax form options clock fuel next
        | .error fault => .error fault
      else .ok state

/-- More visits than a search of `n` variables can make. -/
def visitLimit (n : Nat) : Nat := Nat.pow 2 (n + 1)

/-- The relaxations of a form over the nodes' boxes, from the nodes' points and under default
settings, by a routine that may change from visit to visit. -/
def relaxer (routine : Nat → Routine α) (form : Quadratic α) : Relaxer α := fun visit node =>
  Relaxation.solve (routine visit) (Program.ofForm form) node (.vector node.solution) .default

def solve (routine : Nat → Routine α) (form : Quadratic α) (options : Options α)
    (clock : Nat → Bool) : Except Fault (State α) :=
  run (relaxer routine form) form options clock (visitLimit form.size)
    (start form.size options.fixed)

end BinaryQuadratic.Search
