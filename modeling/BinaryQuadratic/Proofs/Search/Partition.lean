import BinaryQuadratic.Proofs.Search.Visits

/-!
# No assignment is lost

Whatever the relaxations answer, open and closed nodes share out the assignments below the root.

* `Completes`: the assignments below given fixings;
* `Partitioned`: at a loop head each of them agrees with exactly one node, open or closed;
* `closed_step`, `branched_step`: both ways a visit can go keep this;
* `assignments_partitioned`: it holds at every loop head.
-/

namespace BinaryQuadratic

/-- The fixed values, and zero or one for every variable that is not fixed. -/
def Fixings.Completes {α : Type} [Zero α] [One α] (f : Fixings α) (n : Nat) (y : List α) : Prop :=
  y.length = n ∧ f.Holds y ∧
    ∀ i < n, (i : Int) ∉ f.indices → y[i]? = some 0 ∨ y[i]? = some 1

namespace Search

open Relaxation Fixings

variable {α : Type} [Scalar α]

/-- The fixings of all nodes of a search that were not branched: those on the stack, and those that
were closed. -/
def maps (n : Nat) (state : State α) (past : List (Visit α)) : List (Fixings α) :=
  state.stack.map Node.fixed ++ closed n past

/-- Every assignment below the root agrees with exactly one node that was not branched. -/
structure Partitioned [DecidableEq α] (base : Fixings α) (n : Nat) (state : State α)
    (past : List (Visit α)) : Prop where
  once : ∀ y, base.Completes n y → (maps n state past).countP (fun f => f.Holds y) = 1
  below : ∀ f ∈ maps n state past, base.Extends f n
  balance : state.visited + state.stack.length = 1 + 2 * branchings n past

theorem closed_append (n : Nat) (past : List (Visit α)) (v : Visit α) :
    closed n (past ++ [v]) = closed n past ++ if v.closes n then [v.node.fixed] else [] := by
  unfold closed
  rw [List.filter_append, List.map_append]
  cases hv : v.closes n <;> simp [hv]

theorem branchings_append (n : Nat) (past : List (Visit α)) (v : Visit α) :
    branchings n (past ++ [v]) = branchings n past + if v.closes n then 0 else 1 := by
  unfold branchings
  rw [List.countP_append]
  cases hv : v.closes n <;> simp [hv]

variable [DecidableEq α] {base : Fixings α} {n : Nat} {state : State α} {past : List (Visit α)}
  {v : Visit α} {rest : List (Node α)}

theorem partitioned_start (base : Fixings α) (n : Nat) :
    Partitioned base n (start n base) [] where
  once y hy := by simp [maps, start, root, closed, hy.2.1]
  below f hf := by
    obtain rfl : f = base := by simpa [maps, start, root, closed] using hf
    exact .refl f n
  balance := rfl

/-- A closed node moves from the stack to the closed ones. -/
theorem closed_step (h : Partitioned base n state past) (hstack : state.stack = v.node :: rest)
    (hcloses : v.closes n = true) (best : Option (Incumbent α)) :
    Partitioned base n ⟨rest, state.visited + 1, best⟩ (past ++ [v]) := by
  have moved : (maps n ⟨rest, state.visited + 1, best⟩ (past ++ [v])).Perm (maps n state past) := by
    unfold maps
    rw [closed_append, if_pos hcloses, hstack, ← List.append_assoc, List.map_cons,
      List.cons_append]
    exact List.perm_append_singleton _ _
  refine ⟨fun y hy => ?_, fun f hf => h.below f (moved.mem_iff.1 hf), ?_⟩
  · rw [moved.countP_eq, h.once y hy]
  · have := h.balance
    rw [hstack, List.length_cons] at this
    rw [branchings_append, if_pos hcloses]
    simp only
    omega

/-- An assignment that agrees with a node agrees with exactly one of its children. -/
theorem countP_children (h01 : (0 : α) ≠ 1) (node : Node α) {i : Nat}
    (hfree : (i : Int) ∉ node.fixed.indices) {y : List α}
    (hbinary : y[i]? = some 0 ∨ y[i]? = some 1) :
    ((children node i).map Node.fixed).countP (fun f => f.Holds y)
      = [node.fixed].countP fun f => f.Holds y := by
  have h10 : ¬(1 : α) = 0 := fun h => h01 h.symm
  have hone := holds_insert hfree 1 y
  have hzero := holds_insert hfree 0 y
  simp only [children, Node.child, List.map_cons, List.map_nil, List.countP_cons, List.countP_nil,
    hone, hzero]
  rcases hbinary with hy | hy <;> by_cases hnode : node.fixed.Holds y <;> simp [hy, hnode, h01, h10]

/-- The children of a branched node take its place. -/
theorem branched_step (h01 : (0 : α) ≠ 1) (h : Partitioned base n state past)
    (hstack : state.stack = v.node :: rest) (hopen : v.closes n = false) (node : Node α)
    (hnode : node.fixed = v.node.fixed) {i : Nat} (hi : i ∈ node.fixed.unfixed n) :
    Partitioned base n ⟨children node i ++ rest, state.visited + 1, state.best⟩ (past ++ [v]) := by
  obtain ⟨hlt, hfree⟩ := mem_unfixed.1 hi
  have before : maps n state past = node.fixed :: (rest.map Node.fixed ++ closed n past) := by
    rw [maps, hstack, List.map_cons, hnode, List.cons_append]
  have after : maps n ⟨children node i ++ rest, state.visited + 1, state.best⟩ (past ++ [v])
      = (children node i).map Node.fixed ++ (rest.map Node.fixed ++ closed n past) := by
    rw [maps, closed_append, hopen, List.map_append]
    simp
  have hbelow := h.below
  rw [before, List.forall_mem_cons] at hbelow
  refine ⟨fun y hy => ?_, ?_, ?_⟩
  · have hfreeRoot := hbelow.1.not_mem hfree
    rw [after, List.countP_append, countP_children h01 node hfree (hy.2.2 i hlt hfreeRoot),
      ← List.countP_append, List.singleton_append, ← before, h.once y hy]
  · rw [after, List.forall_mem_append]
    refine ⟨?_, hbelow.2⟩
    simp only [children, Node.child, List.map_cons, List.map_nil, List.forall_mem_cons]
    exact ⟨hbelow.1.insert hi (.inr rfl), hbelow.1.insert hi (.inl rfl), List.forall_mem_nil _⟩
  · have := h.balance
    rw [hstack, List.length_cons] at this
    rw [branchings_append, hopen]
    simp only [children, List.length_append, List.length_cons, List.length_nil]
    simp only [Bool.false_eq_true, if_false]
    omega

theorem visit_partitioned (h01 : (0 : α) ≠ 1) {node : Node α} {relaxed : Relaxed α}
    {next : State α} (h : Partitioned base n state past) (hstack : state.stack = node :: rest)
    (hleaves : Leaves n state node rest relaxed next) :
    Partitioned base n next (past ++ [⟨node, relaxed, state.best⟩]) := by
  cases hleaves with
  | pruned hd => exact closed_step h hstack (by simp [Visit.closes, hd]) _
  | complete _ hsize => exact closed_step h hstack (by simp [Visit.closes, hsize]) _
  | branched hd hsize i hi =>
    have hopen : (⟨node, relaxed, state.best⟩ : Visit α).closes n = false := by
      simp [Visit.closes, hd, hsize]
    exact branched_step h01 h hstack hopen ⟨some relaxed.objective, relaxed.x, node.fixed⟩ rfl hi

/-- **No assignment is lost, and none is explored twice.** At every loop head, however the clock
stops the search and whatever the relaxations answer, the nodes on the stack and the closed ones
share out the assignments below the root: each agrees with exactly one of them. All of them fix the
root's variables as the root does and further ones at zero or one, and visited and stacked nodes are
the root and two for each branched one. The search fails only where a relaxation does. -/
theorem assignments_partitioned (h01 : (0 : α) ≠ 1) (relax : Relaxer α) (form : Quadratic α)
    (options : Options α) (clock : Nat → Bool) (fuel : Nat) (hseed : 0 ≤ options.seed)
    (hfixed : options.fixed.Within form.size)
    (hx : ∀ v ∈ journal relax form options clock fuel (start form.size options.fixed),
      v.relaxed.x.length = form.size) :
    (∀ s, run relax form options clock fuel (start form.size options.fixed) = .ok s →
      Partitioned options.fixed form.size s
        (journal relax form options clock fuel (start form.size options.fixed)) ∧
      ∀ f ∈ maps form.size s
        (journal relax form options clock fuel (start form.size options.fixed)),
        f.Within form.size) ∧
    (∀ fault, run relax form options clock fuel (start form.size options.fixed) = .error fault →
      ∃ count node, relax count node = .error fault) := by
  have step : ∀ state past node rest relaxed, Partitioned options.fixed form.size state past →
      state.stack = node :: rest → relax (state.visited + 1) node = .ok relaxed →
      relaxed.x.length = form.size →
      ∃ next, visit relax form options state node rest = .ok next ∧
        Partitioned options.fixed form.size next (past ++ [⟨node, relaxed, state.best⟩]) := by
    intro state past node rest relaxed h hstack hrelax hlength
    have hnode : node.fixed ∈ maps form.size state past := by
      rw [maps, hstack]
      exact List.mem_append_left _ List.mem_cons_self
    have hin := (h.below _ hnode).within hfixed
    obtain ⟨next, hnext, hleaves⟩ := visit_spec hrelax hlength hin hseed
    exact ⟨next, hnext, visit_partitioned h01 h hstack hleaves⟩
  obtain ⟨kept, failed⟩ := run_keeps (Partitioned options.fixed form.size) step
    [] (partitioned_start options.fixed form.size) hx
  refine ⟨fun s hs => ?_, failed⟩
  have h := kept s hs
  rw [List.nil_append] at h
  exact ⟨h, fun f hf => (h.below f hf).within hfixed⟩

/-- Two variables that gain apart. -/
def pairForm : Quadratic Float := ⟨⟨2, [[(1, 2)], []], by decide⟩, [-1, -1], rfl, rfl⟩

/-- The second variable is fixed outside zero and one. -/
def pairOptions : Options Float := ⟨⟨[(1, 5)], by decide⟩, .worstApproximation, 10, 3⟩

/-- Points and objectives that are not numbers, so that no comparison drops a node. -/
def wildRelaxer : Relaxer Float := fun _ _ => .ok ⟨[0 / 0, 0 / 0], 0 / 0, .optimal, 0⟩

def wildVisits : List (Visit Float) := journal wildRelaxer pairForm pairOptions
  (fun count => decide (count < 2)) 8 (start 2 pairOptions.fixed)

theorem assignments_partitioned_wild : (0 : Float) ≠ 1 ∧ 0 ≤ pairOptions.seed ∧
    pairOptions.fixed.Within pairForm.size ∧ (∀ v ∈ wildVisits, v.relaxed.x.length = 2) ∧
    ∃ s, run wildRelaxer pairForm pairOptions (fun count => decide (count < 2)) 8
        (start 2 pairOptions.fixed) = .ok s ∧
      Partitioned pairOptions.fixed 2 s wildVisits := by
  have apart : (0 : Float) ≠ 1 := by decide
  have seeded : 0 ≤ pairOptions.seed := by decide
  have within : pairOptions.fixed.Within pairForm.size := by unfold Fixings.Within; decide
  have long : ∀ v ∈ wildVisits, v.relaxed.x.length = 2 := by
    intro v hv
    obtain ⟨count, hrelax⟩ := journal_relaxed hv
    rw [← Except.ok.inj hrelax]
    rfl
  obtain ⟨kept, failed⟩ := assignments_partitioned apart wildRelaxer pairForm pairOptions
    (fun count => decide (count < 2)) 8 seeded within long
  refine ⟨apart, seeded, within, long, ?_⟩
  cases hrun : run wildRelaxer pairForm pairOptions (fun count => decide (count < 2)) 8
      (start 2 pairOptions.fixed) with
  | ok s => exact ⟨s, rfl, (kept s hrun).1⟩
  | error fault =>
    obtain ⟨_, _, hfault⟩ := failed fault hrun
    cases hfault

end Search

end BinaryQuadratic
