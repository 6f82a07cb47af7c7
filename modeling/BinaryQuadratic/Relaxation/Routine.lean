import BinaryQuadratic.Relaxation.BoxMinimum
import BinaryQuadratic.Relaxation.Descent
import BinaryQuadratic.Relaxation.Method

/-!
# A minimising routine on doubles

* `exactMinimum?`: the minimum over the box or everywhere, computed exactly and rounded once;
* `leap`: that minimum as an answer;
* `Method.run`: the answer of one method;
* `checkOptions`: options that a method cannot be called with;
* `routine`: unknown methods refused, a box without room answered at once, and the method asked.
-/

namespace BinaryQuadratic.Relaxation

def rationals (xs : List Float) : Option (List Rat) := xs.mapM Double.toRational?

def symmetricPart (rows : List (List Rat)) : List (List Rat) :=
  (List.range rows.length).map fun i => (List.range rows.length).map fun j =>
    ((rows.getD i []).getD j 0 + (rows.getD j []).getD i 0) / 2

def exactMinimum? (p : Problem Float) (boxed : Bool) : Option (List Float) := do
  let rows ← p.rows.mapM rationals
  let linear ← rationals p.linear
  let lows ← rationals (p.box.map Prod.fst)
  let highs ← rationals (p.box.map Prod.snd)
  let ranges : List Range :=
    if boxed then (lows.zip highs).map some else List.replicate linear.length none
  let x ← (BoxProblem.minimum ⟨symmetricPart rows, linear, ranges⟩)
  pure (x.map Double.ofRational)

/-- The minimum at once; where the form has no single one, a descent within the box. -/
def leap (p : Problem Float) (boxed : Bool) : Except Fault (Outcome Float) :=
  match exactMinimum? p boxed with
  | some z => .ok ⟨z, true, 1⟩
  | none => if boxed then descend p .default else .ok ⟨p.start, false, 0⟩

/-- A start of another length than the vector cannot be multiplied with the matrix. -/
def checkStart (p : Problem Float) : Except Fault Unit :=
  if p.start.length = p.linear.length then .ok () else .error (.startProduct p.start.length)

/-- A descent needs a box without infinite ends. -/
def checkRanges (box : List (Float × Float)) : Except Fault Unit :=
  match box.find? fun bounds => Scalar.isInfinite bounds.1 with
  | some bounds => .error (.boundlessRange (bounds.1 < 0))
  | none => .ok ()

def Method.run (method : Method) (p : Problem Float) : Except Fault (Outcome Float) :=
  match method with
  | .dogleg => .error .doglegHessian
  | .trustExact => .error .exactHessian
  | .trustNewton => .error (.curvatureRequired "Newton-CG")
  | .trustKrylov => .error (.curvatureRequired "Krylov")
  | .boundedQuasiNewton => do
    let _ ← checkStart p
    let _ ← checkRanges p.box
    let limits ← Limits.ofOptions p.linear.length p.options
    descend p limits
  | other => do
    let _ ← checkStart p
    if other = .linearApproximation && (pinned? p.box).isSome then throw .nothingFree
    leap p !other.ignoresBox

def firstNamed (names : List String) (options : List (Plain × Plain)) : Option String :=
  options.findSome? fun pair =>
    match pair.1 with
    | .text name => if names.contains name then some name else none
    | _ => none

/-- Refuses options that repeat an argument of the method, and names that are no texts: first the
arguments that are passed by name, last those that are passed in order. -/
def checkOptions (method : Method) (options : List (Plain × Plain)) : Except Fault Unit :=
  let call := method.call
  match firstNamed call.byName options with
  | some name => .error (.repeatedKeyword (call.path ++ "." ++ call.title) name)
  | none =>
    if !options.all fun pair => pair.1.isText then .error .optionNames
    else
      match firstNamed call.inOrder options with
      | some name => .error (.repeatedArgument call.title name)
      | none => .ok ()

def routine : Routine Float := fun p => do
  let some method := Method.ofName? p.method | throw (.unknownMethod p.method)
  match method.takesPinned, pinned? p.box with
  | true, some x => do
    let _ ← checkStart p
    pure ⟨x, true, 0⟩
  | _, _ => do
    checkOptions method p.options
    method.run p

end BinaryQuadratic.Relaxation
