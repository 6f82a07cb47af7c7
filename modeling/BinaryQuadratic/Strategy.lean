import BinaryQuadratic.Plain

/-!
# Branching strategies

* `Strategy`: how the variable to branch on is chosen, each with a name;
* `Strategy.ofName?`: the strategy of a name, and of nothing else;
* `Choice`: a strategy, or a value that names none.
-/

namespace BinaryQuadratic

inductive Strategy
  /-- The lowest unfixed index. -/
  | firstNotFixed
  /-- The unfixed variable nearest to one half. -/
  | mostViolated
  /-- The first unfixed variable from a random one on. -/
  | random
  /-- The greatest of the smaller estimated changes. -/
  | worstApproximation
  /-- The least of the greater estimated changes. -/
  | bestApproximation
  deriving DecidableEq, Repr

namespace Strategy

def all : List Strategy :=
  [firstNotFixed, mostViolated, random, worstApproximation, bestApproximation]

def name : Strategy → String
  | firstNotFixed => "first_not_fixed"
  | mostViolated => "most_violated"
  | random => "random"
  | worstApproximation => "worst_approximation"
  | bestApproximation => "best_approximation"

def ofName? (s : String) : Option Strategy := all.find? fun strategy => strategy.name = s

theorem ofName?_name (strategy : Strategy) : ofName? strategy.name = some strategy := by
  cases strategy <;> decide

end Strategy

/-- A choice of strategy that nobody checked yet. -/
inductive Choice
  | known (strategy : Strategy)
  | unknown (value : Plain)

namespace Choice

/-- The choice a plain value makes: only the text of a name chooses a strategy. -/
def ofPlain : Plain → Choice
  | .text s => (Strategy.ofName? s).elim (.unknown (.text s)) .known
  | value => .unknown value

def strategy : Choice → Except Fault Strategy
  | known strategy => .ok strategy
  | unknown value => .error (value.refusal .unknownStrategy)

end Choice

end BinaryQuadratic
