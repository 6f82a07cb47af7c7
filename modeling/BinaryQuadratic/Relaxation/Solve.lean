import BinaryQuadratic.Node
import BinaryQuadratic.Relaxation.Program
import BinaryQuadratic.Relaxation.Settings

/-!
# Relaxations of a node

The form is minimised over the box of a node. The minimising routine is a parameter: whatever it
answers, the objective is computed here, at the point that it returns.

* `Start.project`: the start with the fixed values written over it;
* `Problem`, `Outcome`, `Routine`: what the routine is asked and what it answers;
* `solve`: checks of box and start, the routine, and the status its answer amounts to.
-/

namespace BinaryQuadratic.Relaxation

inductive Status
  | optimal
  | maxIterations
  | numericalError
  deriving DecidableEq, Repr

namespace Status

def all : List Status := [optimal, maxIterations, numericalError]

def name : Status → String
  | optimal => "optimal"
  | maxIterations => "max_iterations"
  | numericalError => "numerical_error"

end Status

/-- A start as it arrives: none, a number alone, a list of numbers, or a list of lists. One that
cannot be read is refused when it is laid out. -/
inductive Start (α : Type)
  | central
  | scalar (v : α)
  | vector (x : List α)
  | nested (outer : Nat)
  | flawed (fault : Fault)
  deriving DecidableEq, Repr

namespace Start

variable {α : Type} [Scalar α]

/-- The starting vector with the fixed values in their places. -/
def project (start : Start α) (fixed : Fixings α) (n : Nat) : Except Fault (List α) :=
  let laid (x : List α) : Except Fault (List α) :=
    (fixed.overlay id x).mapError fun k => .misplaced k x.length
  match start with
  | central => laid (List.replicate n Scalar.half)
  | scalar v => if fixed.size = 0 then .ok [v] else .error .scalarStart
  | vector x => laid x
  | nested outer => do
    let _ ← laid (List.replicate outer 0)
    throw .nestedStart
  | flawed fault => .error fault

/-- A start read from plain data; null leaves it open. -/
def ofPlain : Plain → Start Float
  | .null => central
  | value =>
    match Nested.floats value with
    | .error fault => flawed fault
    | .ok array =>
      match array.extents, array.values with
      | [], values => scalar (values.headD 0)
      | [_], values => vector values
      | outer :: _, _ => nested outer

end Start

/-- What a minimising routine is asked. -/
structure Problem (α : Type) where
  rows : List (List α)
  linear : List α
  box : List (α × α)
  start : List α
  method : String
  options : List (Plain × Plain)

/-- What a minimising routine answers. -/
structure Outcome (α : Type) where
  x : List α
  converged : Bool
  iterations : Int
  deriving DecidableEq, Repr

abbrev Routine (α : Type) := Problem α → Except Fault (Outcome α)

def Outcome.status {α : Type} (outcome : Outcome α) (maxIterations : Int) : Status :=
  if outcome.converged then .optimal
  else if maxIterations ≤ outcome.iterations then .maxIterations
  else .numericalError

structure Relaxed (α : Type) where
  x : List α
  objective : α
  status : Status
  iterations : Int
  deriving DecidableEq, Repr

variable {α : Type} [Scalar α]

/-- The problem of a node; the box is checked before the start is laid out, and the start's length
after it. The single range of one variable serves a start of any length. -/
def problem (program : Program α) (node : Node α) (start : Start α) (settings : Settings) :
    Except Fault (Problem α) := do
  let n := program.size
  let box ← node.bounds n
  let x ← start.project node.fixed n
  if n = 0 then throw .emptyBox
  else if x.length ≠ n && n ≠ 1 then throw .startLength
  else pure {
    rows := program.dense
    linear := program.linear
    box := box
    start := x
    method := settings.method
    options := layered (toleranceMethods.contains settings.method)
      (.integer settings.maxIterations) (.float settings.tolerance) settings.further }

/-- The minimum of the form over the box of a node, as far as the routine finds it. -/
def solve (routine : Routine α) (program : Program α) (node : Node α) (start : Start α)
    (settings : Settings) : Except Fault (Relaxed α) := do
  let problem ← problem program node start settings
  let outcome ← routine problem
  pure {
    x := outcome.x
    objective := program.objective outcome.x
    status := outcome.status settings.maxIterations
    iterations := outcome.iterations }

end BinaryQuadratic.Relaxation
