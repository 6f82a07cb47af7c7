import BinaryQuadratic.Fixings
import BinaryQuadratic.KeyOrder
import BinaryQuadratic.Strategy

/-!
# Options of a search

* `Options`: the variables fixed from the start, the strategy, the time limit and the seed;
* `Options.ofPlain`: options from a map of plain values. The strategy is read first, then the time
  limit, the seed, the check that no other name is there, and the fixed variables.
-/

namespace BinaryQuadratic

structure Options (α : Type) where
  fixed : Fixings α
  strategy : Strategy
  maxTime : α
  seed : Int
  deriving DecidableEq, Repr

/-- Nothing fixed, the most violated variable, a hundred seconds, seed zero. -/
def Options.default : Options Float := ⟨Fixings.empty, .mostViolated, 100, 0⟩

namespace Options

def fixedName : String := "fixed_variables"

def strategyName : String := "branch_strategy"

def maxTimeName : String := "max_time"

def seedName : String := "seed"

def names : List String := [fixedName, strategyName, maxTimeName, seedName]

def readStrategy : Option Plain → Except Fault Strategy
  | none => .ok default.strategy
  | some value => do
    let text ← value.asText
    match Strategy.ofName? text with
    | some strategy => pure strategy
    | none => throw (.unknownStrategy (Text.quoted text))

def unknownKeys (pairs : List (Plain × Plain)) : List Plain :=
  (pairs.filter fun pair => !names.any fun name => pair.1.sameKey (.text name)).map Prod.fst

def checkNames (pairs : List (Plain × Plain)) : Except Fault Unit :=
  match unknownKeys pairs with
  | [] => .ok ()
  | keys => do
    let sorted ← Plain.sortedKeys keys
    let shown ← sorted.mapM Plain.shown
    throw (.unknownOptions shown)

/-- An index and its value, the index first. -/
def readFixing (pair : Plain × Plain) : Except Fault (Int × Float) := do
  let k ← pair.1.toInteger
  let v ← pair.2.toFloat
  pure (k, v)

/-- The fixed variables; a missing or empty value fixes none. -/
def readFixed : Option Plain → Except Fault (Fixings Float)
  | none => .ok Fixings.empty
  | some value =>
    if value.isEmpty then .ok Fixings.empty
    else do
      let pairs ← value.toPairs
      let fixings ← pairs.mapM readFixing
      pure (Fixings.ofList fixings)

/-- The options in a map; what is missing takes its default. -/
def ofPairs (pairs : List (Plain × Plain)) : Except Fault (Options Float) := do
  let strategy ← readStrategy (Plain.get? strategyName pairs)
  let maxTime ← (Plain.get? maxTimeName pairs).elim (.ok default.maxTime) Plain.toFloat
  let seed ← (Plain.get? seedName pairs).elim (.ok default.seed) Plain.toInteger
  checkNames pairs
  let fixed ← readFixed (Plain.get? fixedName pairs)
  pure ⟨fixed, strategy, maxTime, seed⟩

/-- The options in a value that can be read as a map. -/
def ofPlain (value : Plain) : Except Fault (Options Float) := do
  let pairs ← value.toPairs
  ofPairs pairs

end Options

end BinaryQuadratic
