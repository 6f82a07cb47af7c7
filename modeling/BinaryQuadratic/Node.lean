import BinaryQuadratic.Fixings
import BinaryQuadratic.Index
import BinaryQuadratic.Scalar

/-!
# Nodes

A node of the search tree: a point, the variables fixed there, and a bound on what its subtree can
reach. The fixed values stand above the entries of the point.

* `Node.base`: the point with the fixed values written over it;
* `Node.branchable`: the unfixed variables, of which there must be one;
* `Node.bounds`: the box of the node, `[0, 1]` for every variable that is not fixed.
-/

namespace BinaryQuadratic

structure Node (α : Type) where
  /-- Nothing is known below any number when there is none. -/
  lowerBound : Option α
  solution : List α
  fixed : Fixings α
  deriving DecidableEq, Repr

namespace Node

variable {α : Type}

/-- The first `n` entries of the point with the fixed values in their places. -/
def base (node : Node α) (n : Nat) : Except Fault (List α) :=
  let x := node.solution.take n
  (node.fixed.overlay id x).mapError fun k => .misplaced k x.length

/-- The first unfixed variable and the others, all ascending. -/
def branchable (node : Node α) (n : Nat) : Except Fault (Nat × List Nat) :=
  match node.fixed.unfixed n with
  | [] => .error (.exhausted n)
  | first :: rest => .ok (first, rest)

def bounds [Zero α] [One α] (node : Node α) (n : Nat) : Except Fault (List (α × α)) :=
  (node.fixed.overlay (fun v => (v, v)) (List.replicate n (0, 1))).mapError .misplacedBound

/-- The node below this one where variable `i` has the value `v`; point and bound stay. -/
def child (node : Node α) (i : Nat) (v : α) : Node α :=
  { node with fixed := node.fixed.insert i v }

end Node

end BinaryQuadratic
