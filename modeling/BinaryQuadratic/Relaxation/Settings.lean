import BinaryQuadratic.Plain

/-!
# Settings of a relaxation

* `Settings`: the method, the limit on iterations, the tolerance, and further options as they are;
* `Settings.ofPlain`: settings from a map of plain values, checked in that order;
* `layered`, `routineOptions`: what the minimising routine is told; a tolerance only where the
  method takes one, and further options stand above both.
-/

namespace BinaryQuadratic.Relaxation

structure Settings where
  method : String
  maxIterations : Int
  tolerance : Float
  further : List (Plain × Plain)

namespace Settings

def default : Settings := ⟨"L-BFGS-B", 1000, 1e-9, []⟩

def methodName : String := "method"

def maxIterationsName : String := "maxiter"

def toleranceName : String := "ftol"

/-- The settings in a map; what is missing takes its default. -/
def ofPairs (pairs : List (Plain × Plain)) : Except Fault Settings := do
  let method ← (Plain.get? methodName pairs).elim (.ok default.method) Plain.asText
  let maxIterations ←
    (Plain.get? maxIterationsName pairs).elim (.ok default.maxIterations) Plain.toInteger
  let tolerance ← (Plain.get? toleranceName pairs).elim (.ok default.tolerance) Plain.toFloat
  let further := Plain.without methodName
    (Plain.without maxIterationsName (Plain.without toleranceName pairs))
  pure ⟨method, maxIterations, tolerance, further⟩

/-- The settings in a value that can be read as a map; an empty value sets nothing. -/
def ofPlain (value : Plain) : Except Fault Settings :=
  if value.isEmpty then .ok default
  else do
    let pairs ← value.toPairs
    ofPairs pairs

end Settings

/-- The methods that take a tolerance, written exactly so. -/
def toleranceMethods : List String := ["L-BFGS-B", "SLSQP"]

/-- Whether a value names a method that takes a tolerance; lists and maps cannot be looked up. -/
def takesTolerance : Plain → Except Fault Bool
  | .text method => .ok (toleranceMethods.contains method)
  | value => if value.isKey then .ok false else .error (.unhashable value.kind)

/-- The limits for the minimising routine, and the further options above them, in order. -/
def layered (tolerant : Bool) (maxIterations tolerance : Plain) (further : List (Plain × Plain)) :
    List (Plain × Plain) :=
  let limits := [(Plain.text Settings.maxIterationsName, maxIterations)]
  let own := if tolerant then limits ++ [(.text Settings.toleranceName, tolerance)] else limits
  further.foldl (fun options pair => Plain.put pair.1 pair.2 options) own

/-- The options for the minimising routine from plain data; empty further options add nothing. -/
def routineOptions (method maxIterations tolerance further : Plain) :
    Except Fault (List (Plain × Plain)) := do
  let tolerant ← takesTolerance method
  if further.isEmpty then pure (layered tolerant maxIterations tolerance [])
  else do
    let pairs ← further.toPairs
    pure (layered tolerant maxIterations tolerance pairs)

end BinaryQuadratic.Relaxation
