import BinaryQuadratic.Proofs.Assignments
import BinaryQuadratic.Proofs.StrongBranching

/-!
# Estimates along a path

Variables are fixed one after another, each at zero or one, and for every one of them the change is
estimated before it is fixed.

* `Move`, `descend`, `estimated`: a path below a node, the node at its end, and its estimates added
  up;
* `Open`: paths that can be taken;
* `base_child`: fixing an unfixed variable sets one entry of the base point;
* `estimate_exact`: what one move adds, and `estimated_eq`: what a whole path does;
* `settle_perm`: the entries of a path may be set in any order;
* `estimates_add_up`: so the estimates of a path are what the form changes by, in whatever order the
  variables are fixed.
-/

namespace BinaryQuadratic

namespace Fixings

variable {β : Type}

theorem write_append (x : List β) (earlier later : List (Int × β)) :
    write x (earlier ++ later) = write x earlier >>= fun y => write y later := by
  induction earlier generalizing x with
  | nil => rfl
  | cons e rest ih =>
    rw [List.cons_append, write, write]
    cases place x.length e.1 with
    | none => rfl
    | some p => exact ih _

end Fixings

namespace Branching

open Fixings

/-- A variable to be fixed, and on which side: at one or at zero. -/
structure Move where
  index : Nat
  up : Bool
  deriving DecidableEq, Repr

section

variable {α : Type} [Scalar α]

namespace Move

def value (move : Move) : α := if move.up then 1 else 0

def child (move : Move) (node : Node α) : Node α := node.child move.index move.value

def estimate? (move : Move) (estimates : Flips α) : Option α :=
  (if move.up then estimates.one else estimates.zero)[move.index]?

end Move

def descend (node : Node α) (path : List Move) : Node α :=
  path.foldl (fun node move => move.child node) node

/-- The estimates of a path added up, each taken at the node that its move starts from. -/
def estimated (context : Context α) : Node α → List Move → Except Fault α
  | _, [] => .ok 0
  | node, move :: rest => do
    let estimates ← flips context node
    match move.estimate? estimates with
    | some change => (estimated context (move.child node) rest).map (change + ·)
    | none => throw (.outOfBounds move.index context.size)

/-- Every move is about another one of the unfixed variables. -/
structure Open (f : Fixings α) (n : Nat) (path : List Move) : Prop where
  free : ∀ move ∈ path, move.index ∈ f.unfixed n
  distinct : (path.map Move.index).Nodup

def settle (x : List α) (path : List Move) : List α :=
  path.foldl (fun x move => x.set move.index move.value) x

variable {node : Node α} {n : Nat} {x : List α} {path other : List Move}

omit [Scalar α] in
/-- Fixing an unfixed variable sets its entry, whatever was written before. -/
theorem base_child (hbase : node.base n = .ok x) (hx : x.length = n) {i : Nat}
    (hi : i ∈ node.fixed.unfixed n) (v : α) : (node.child i v).base n = .ok (x.set i v) := by
  obtain ⟨hlt, hfree⟩ := mem_unfixed.1 hi
  have hplace : place x.length (i : Int) = some i := place_eq_some_iff.2 ⟨hx ▸ hlt, .inl rfl⟩
  have hwrite : write (node.solution.take n) (node.fixed.entries.map fun e => (e.1, id e.2))
      = .ok x := Node.base_eq_ok_iff.1 hbase
  rw [Node.base_eq_ok_iff, Node.child, overlay, entries_insert hfree, List.map_append, write_append,
    hwrite]
  change write x [((i : Int), v)] = .ok (x.set i v)
  rw [write, hplace]
  rfl

omit [Scalar α] in
theorem Open.tail {f : Fixings α} {move : Move} (h : Open f n (move :: path)) (v : α) :
    Open (f.insert move.index v) n path := by
  obtain ⟨hfree, hdistinct⟩ := h
  obtain ⟨hmove, hrest⟩ := List.forall_mem_cons.1 hfree
  obtain ⟨hother, hdistinct⟩ := List.nodup_cons.1 hdistinct
  refine ⟨fun later hlater => ?_, hdistinct⟩
  obtain ⟨hlt, hunfixed⟩ := mem_unfixed.1 (hrest later hlater)
  have hne : later.index ≠ move.index := fun heq => hother (heq ▸ List.mem_map_of_mem hlater)
  rw [mem_unfixed, indices_insert (mem_unfixed.1 hmove).2, List.mem_append, List.mem_singleton]
  exact ⟨hlt, not_or.2 ⟨hunfixed, fun heq => hne (Int.ofNat.inj heq)⟩⟩

omit [Scalar α] in
theorem Open.perm {f : Fixings α} (h : Open f n path) (hperm : other.Perm path) :
    Open f n other :=
  ⟨fun move hmove => h.free move (hperm.mem_iff.1 hmove),
    (hperm.map Move.index).nodup_iff.2 h.distinct⟩

theorem descend_base (hbase : node.base n = .ok x) (hx : x.length = n)
    (hopen : Open node.fixed n path) : (descend node path).base n = .ok (settle x path) := by
  induction path generalizing node x with
  | nil => exact hbase
  | cons move rest ih =>
    have hchild := base_child hbase hx (hopen.free move List.mem_cons_self) move.value
    exact ih hchild (by rw [List.length_set, hx]) (hopen.tail move.value)

theorem length_settle (x : List α) (path : List Move) : (settle x path).length = x.length := by
  induction path generalizing x with
  | nil => rfl
  | cons move rest ih => exact (ih _).trans List.length_set

/-- Moves about different variables do not touch each other's entries. -/
theorem settle_perm (hperm : other.Perm path) (hdistinct : (path.map Move.index).Nodup)
    (x : List α) : settle x other = settle x path := by
  refine (hperm.symm.foldl_eq' ?_ x).symm
  intro first hfirst second hsecond x
  -- A move commutes with itself, and different moves are about different variables.
  by_cases heq : first = second
  · rw [heq]
  · have hne : first.index ≠ second.index := fun hindex =>
      heq (List.inj_on_of_nodup_map hdistinct hfirst hsecond hindex)
    exact List.set_comm _ _ hne

end

section Exact

variable {context : Context Rat} {node : Node Rat} {x : List Rat} {path : List Move}

/-- The estimate for a move is what the form changes by along its variable. -/
theorem estimate_exact (f : Quadratic Rat) (hx : x.length = f.size) {move : Move}
    (hi : move.index < f.size) : move.estimate? (flipsAt f x)
      = some (f.value (x.set move.index move.value) - f.value x) := by
  have hlt : move.index < x.length := hx ▸ hi
  unfold Move.estimate? Move.value
  cases move.up with
  | true =>
    refine change_exact f hx (by rw [List.length_map, hx]) hi ?_
    simp [List.getD_eq_getElem?_getD, hlt]
  | false =>
    refine change_exact f hx (by rw [List.length_map, hx]) hi ?_
    simp [List.getD_eq_getElem?_getD, hlt]

/-- The estimates of an open path add up to a difference of two values of the form. -/
theorem estimated_eq (hbase : node.base context.size = .ok x) (hx : x.length = context.size)
    (hopen : Open node.fixed context.size path) : estimated context node path
      = .ok (context.form.value (settle x path) - context.form.value x) := by
  -- Node and base point change together, so each estimate is taken where the moves before it lead.
  induction path generalizing node x with
  | nil => exact congrArg Except.ok (sub_self _).symm
  | cons move rest ih =>
    have hmove := hopen.free move List.mem_cons_self
    have hflips : flips context node = .ok (flipsAt context.form x) :=
      bind_eq_ok_iff.2 ⟨x, hbase, if_pos hx⟩
    have hstep := estimate_exact context.form hx (mem_unfixed.1 hmove).1
    have hlater := ih (base_child hbase hx hmove move.value) (by rw [List.length_set, hx])
      (hopen.tail move.value)
    refine bind_eq_ok_iff.2 ⟨_, hflips, ?_⟩
    simp only [hstep]
    refine map_eq_ok_iff.2 ⟨_, hlater, ?_⟩
    change _ = context.form.value (settle (x.set move.index move.value) rest)
      - context.form.value x
    ring

/-- **Estimates add up along every path.** Variables that are unfixed at a node are fixed one after
another, each at zero or one, and before each of them its change is estimated at the node that was
reached. The estimates add up to what the form changes by from the base point of the first node to
that of the last. So they do in every other order in which the same variables are fixed. -/
theorem estimates_add_up (context : Context Rat) {node : Node Rat} {path : List Move}
    (hlong : context.size ≤ node.solution.length)
    (hfit : ∀ k ∈ node.fixed.indices, -context.size ≤ k ∧ k < context.size)
    (hopen : Open node.fixed context.size path) :
    ∃ x y here there, node.base context.size = .ok x ∧
      (descend node path).base context.size = .ok y ∧
      context.form.evaluate x = .ok here ∧ context.form.evaluate y = .ok there ∧
      estimated context node path = .ok (there - here) ∧
      ∀ other, other.Perm path → estimated context node other = .ok (there - here) := by
  obtain ⟨x, hbase, hx⟩ := node.base_succeeds hlong hfit
  have hy : (settle x path).length = context.size := by rw [length_settle, hx]
  refine ⟨x, settle x path, context.form.value x, context.form.value (settle x path), hbase,
    descend_base hbase hx hopen, if_pos hx, if_pos hy, estimated_eq hbase hx hopen, ?_⟩
  intro other hperm
  rw [estimated_eq hbase hx (hopen.perm hperm), settle_perm hperm hopen.distinct]

/-- Three variables, every two of which meet in the matrix, some of them in both of its halves. -/
def windingContext : Context Rat where
  form := ⟨⟨3, [[(2, 1), (0, 3), (2, 2)], [(0, -4), (1, -2)], [(0, 5), (1, 1)]], by decide⟩,
    [1, -1, 1 / 2], rfl, rfl⟩
  strategy := .known .bestApproximation
  seed := .integer 0
  visited := .integer 0

/-- The variable in the middle is fixed, at what is no binary value. -/
def windingNode : Node Rat := ⟨none, [1 / 2, 9, 1 / 3], ⟨[(1, 3)], by decide⟩⟩

theorem estimates_add_up_winding :
    windingContext.size ≤ windingNode.solution.length ∧
    (∀ k ∈ windingNode.fixed.indices, -windingContext.size ≤ k ∧ k < windingContext.size) ∧
    Open windingNode.fixed windingContext.size [⟨2, true⟩, ⟨0, false⟩] ∧
    ∃ total, estimated windingContext windingNode [⟨2, true⟩, ⟨0, false⟩] = .ok total ∧
      estimated windingContext windingNode [⟨0, false⟩, ⟨2, true⟩] = .ok total := by
  have hlong : windingContext.size ≤ windingNode.solution.length := by decide
  have hfit : ∀ k ∈ windingNode.fixed.indices,
      -windingContext.size ≤ k ∧ k < windingContext.size := by decide
  have hopen : Open windingNode.fixed windingContext.size [⟨2, true⟩, ⟨0, false⟩] :=
    ⟨by decide, by decide⟩
  obtain ⟨-, -, here, there, -, -, -, -, htotal, hother⟩ :=
    estimates_add_up windingContext hlong hfit hopen
  exact ⟨hlong, hfit, hopen, there - here, htotal, hother _ (.swap _ _ _)⟩

end Exact

end Branching

end BinaryQuadratic
