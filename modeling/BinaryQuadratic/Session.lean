import BinaryQuadratic.Branching
import BinaryQuadratic.Relaxation.Solve
import BinaryQuadratic.StartingPoint

/-!
# Sessions

A context, a node, the program of its form and a generator that live through many actions.

* `Action`, `Reply`: what can be asked, and what is answered;
* `Session.perform`: one action; a failing one changes nothing;
* `Session.run`: the replies to a list of actions.

The program is made at the start. Taking a form's best common value merges its repeated entries, in
the session's form and not in the program.
-/

namespace BinaryQuadratic

open Relaxation

/-- How many steps of `10^-digits` make one. -/
def gridScale (α : Type) [Scalar α] (digits : Nat) : α := (Nat.pow 10 digits : Nat)

/-- The nearest multiple of `10^-digits`, as a count of such steps. -/
def gridSteps {α : Type} [Scalar α] (digits : Nat) (v : α) : α :=
  Scalar.round (v * gridScale α digits)

inductive Action (α : Type)
  | fix (i : Int) (v : α)
  | unfix (i : Int)
  | moveTo (x : List α)
  | setVisited (count : Plain)
  | countVisit
  | choose (strategy : Choice)
  | reseed (seed : Plain)
  | select
  | dive (v : α)
  | call (strategy : Strategy)
  | analyse
  | flips
  | base
  | unfixed
  | bounds
  | evaluate
  | columns
  | draw (draw : StartingPoint.Draw α)
  | relax (settings : Plain) (start : Start α) (digits : Nat) (store : Bool)

inductive Reply (α : Type)
  | standing (fixed : Fixings α) (visited : Plain)
  | index (i : Nat)
  | indices (is : List Nat)
  | analysis (analysis : Branching.Analysis α)
  | flips (flips : Branching.Flips α)
  | point (x : List α)
  | box (bounds : List (α × α))
  | value (v : α)
  | program (program : Program α)
  | drawn (drawn : StartingPoint.Drawn α)
  | relaxed (relaxed : Relaxed α) (digits : Nat)

structure Session (α : Type) where
  context : Context α
  node : Node α
  program : Program α
  generator : Random.Generator

namespace Session

variable {α : Type} [Scalar α]

def start (context : Context α) (node : Node α) (generator : Random.Generator) : Session α :=
  ⟨context, node, Program.ofForm context.form, generator⟩

def standing (s : Session α) : Reply α := .standing s.node.fixed s.context.visited

def withNode (s : Session α) (node : Node α) : Session α := { s with node := node }

def withContext (s : Session α) (context : Context α) : Session α := { s with context := context }

def changed (s : Session α) : Except Fault (Reply α × Session α) := .ok (s.standing, s)

/-- An answer that changes nothing. -/
def answered (s : Session α) (reply : Except Fault (Reply α)) :
    Except Fault (Reply α × Session α) := reply.map fun reply => (reply, s)

/-- The chosen variable fixed to a value, and one more visited node. -/
def dive (s : Session α) (v : α) : Except Fault (Reply α × Session α) := do
  let i ← Branching.select s.context s.node
  let context ← s.context.countVisit
  pure (.index i, {
    s with
    node := { s.node with fixed := s.node.fixed.insert i v }
    context := context })

/-- A relaxation of the node; where it is stored, its point in the steps of the answer becomes the
node's point, and zero has no sign there. -/
def relax (routine : Routine α) (s : Session α) (settings : Plain) (start : Start α)
    (digits : Nat) (store : Bool) : Except Fault (Reply α × Session α) := do
  let settings ← Settings.ofPlain settings
  let relaxed ← Relaxation.solve routine s.program s.node start settings
  let x := relaxed.x.map fun v => (gridSteps digits v + 0) / gridScale α digits
  pure (.relaxed relaxed digits,
    if store then { s with node := { s.node with solution := x } } else s)

def draw (s : Session α) (draw : StartingPoint.Draw α) : Except Fault (Reply α × Session α) := do
  let (drawn, form, g) := draw.run s.context.form s.generator
  let drawn ← drawn
  pure (.drawn drawn, { s with context := { s.context with form := form }, generator := g })

def perform (routine : Routine α) (s : Session α) :
    Action α → Except Fault (Reply α × Session α)
  | .fix i v => changed (s.withNode { s.node with fixed := s.node.fixed.insert i v })
  | .unfix i => changed (s.withNode { s.node with fixed := s.node.fixed.erase i })
  | .moveTo x => changed (s.withNode { s.node with solution := x })
  | .setVisited count => changed (s.withContext { s.context with visited := count })
  | .countVisit => s.context.countVisit.bind fun context => changed (s.withContext context)
  | .choose strategy => changed (s.withContext { s.context with strategy := strategy })
  | .reseed seed => changed (s.withContext { s.context with seed := seed })
  | .select => s.answered ((Branching.select s.context s.node).map .index)
  | .dive v => s.dive v
  | .call strategy => s.answered ((Branching.run strategy s.context s.node).map .index)
  | .analyse => s.answered (.ok (.analysis (Branching.analyse s.context s.node)))
  | .flips => s.answered ((Branching.flips s.context s.node).map .flips)
  | .base => s.answered ((s.node.base s.context.size).map .point)
  | .unfixed => s.answered (.ok (.indices (s.node.fixed.unfixed s.context.size)))
  | .bounds => s.answered ((s.node.bounds s.context.size).map .box)
  | .evaluate => s.answered do
      let x ← s.node.base s.context.size
      (s.context.form.evaluate x).map .value
  | .columns => s.answered (.ok (.program (Program.ofForm s.context.form)))
  | .draw draw => s.draw draw
  | .relax settings start digits store => s.relax routine settings start digits store

/-- The replies to actions one after another; after a failure the session goes on as it was. -/
def run (routine : Routine α) (s : Session α) : List (Action α) → List (Except Fault (Reply α))
  | [] => []
  | action :: rest =>
    match s.perform routine action with
    | .ok (reply, next) => .ok reply :: run routine next rest
    | .error fault => .error fault :: run routine s rest

end Session

end BinaryQuadratic
