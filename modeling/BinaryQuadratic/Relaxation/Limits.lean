import BinaryQuadratic.Index
import BinaryQuadratic.Plain.Sum
import BinaryQuadratic.Relaxation.Settings

/-!
# Limits of a descent

* `Limits`: when a descent stops, and how much it remembers;
* `Limits.ofOptions`: the limits among the options of a minimising routine, in the order in which
  they are refused;
* `Limits.overspent`: more evaluations than allowed.
-/

namespace BinaryQuadratic.Relaxation

/-- The limit on evaluations is first looked at when it is compared. -/
structure Limits where
  maxIterations : Int
  maxEvaluations : Plain
  lineSteps : Nat
  slope : Float
  decrease : Float
  memory : Int

namespace Limits

def option (name : String) (default : Plain) (options : List (Plain × Plain)) : Plain :=
  (Plain.get? name options).getD default

/-- Counts lie below 2^31. -/
def countBound : Int := 0x80000000

/-- A count, which has to be whole. -/
def count (value : Plain) : Except Fault Int :=
  match value.operand? with
  | some (.inl i) =>
    if !isIndex i then .error .wideCount
    else if countBound ≤ i then .error .largeCount
    else .ok i
  | _ => .error (.notCount value.kind)

def double (value : Plain) : Except Fault Float :=
  match value.operand? with
  | some _ => value.toFloat
  | none => .error (.notNumber value.kind)

/-- How many steps of a line may be tried; at least one. -/
def checkLineSteps (value : Plain) : Except Fault Unit :=
  match value.operand? with
  | some (.inl i) => if 0 < i then .ok () else .error .lineSearchSteps
  | some (.inr x) => if 0 < x then .ok () else .error .lineSearchSteps
  | none => .error (.incomparable ">" value.kind "int")

/-- How many doubles a descent works on, for so many variables and recorded steps. -/
def workSize (size : Nat) (memory : Int) : Int :=
  2 * memory * size + 5 * size + 11 * memory * memory + 8 * memory

/-- The same in doubles, from left to right. -/
def workSizeOf (size : Nat) (memory : Float) : Float :=
  2 * memory * Float.ofNat size + Float.ofNat (5 * size) + 11 * memory * memory + 8 * memory

/-- The work size has to be a whole number that fits. -/
def checkMemory (size : Nat) : Plain → Except Fault Unit
  | .text _ => .error (.notConcatenable "str" "int")
  | .list _ => .error (.notConcatenable "list" "int")
  | value =>
    match value.operand? with
    | some (.inl memory) => (checkSize (workSize size memory)).map fun _ => ()
    | some (.inr memory) => .error (.fractionalShape (Decimal.float (workSizeOf size memory)))
    | none => .error (.inoperable "*" "int" value.kind)

def default : Limits := ⟨15000, .integer 15000, 20, 1e-5, 2.2204460492503131e-09, 10⟩

def ofOptions (size : Nat) (options : List (Plain × Plain)) : Except Fault Limits := do
  let lineSteps := option "maxls" (.integer default.lineSteps) options
  let memory := option "maxcor" (.integer default.memory) options
  let slope := option "gtol" (.float default.slope) options
  let iterations := option Settings.maxIterationsName (.integer default.maxIterations) options
  let tolerance := option Settings.toleranceName (.float default.decrease) options
  let _ ← checkLineSteps lineSteps
  let _ ← checkMemory size memory
  let memory ← count memory
  let decrease ← double tolerance
  let slope ← double slope
  let lineSteps ← count lineSteps
  let iterations ← iterations.toInteger
  pure {
    maxIterations := iterations
    maxEvaluations := option "maxfun" default.maxEvaluations options
    lineSteps := lineSteps.toNat
    slope := slope
    decrease := decrease
    memory := memory }

/-- The recorded steps are read off the front of the work, as rows of one entry for each variable.
For a negative memory that is all of the work but so many rows, and of those rows so many fewer;
there must be none left. -/
def checkHistory (limits : Limits) (size : Nat) : Except Fault Unit :=
  if 0 ≤ limits.memory then .ok ()
  else
    let missing := limits.memory.natAbs
    let left := (workSize size limits.memory).toNat - missing * size
    if left % size ≠ 0 then .error (.unevenHistory left size)
    else if missing < left / size then .error .historyShape
    else .ok ()

def overspent (limits : Limits) (evaluations : Nat) : Except Fault Bool :=
  match limits.maxEvaluations.operand? with
  | some (.inl i) => .ok (decide (i < evaluations))
  | some (.inr x) => .ok (decide (x < Float.ofNat evaluations))
  | none => .error (.incomparable ">" "int" limits.maxEvaluations.kind)

end Limits

end BinaryQuadratic.Relaxation
