import BinaryQuadratic.Proofs.Assignments
import BinaryQuadratic.Proofs.Selection
import BinaryQuadratic.Search

/-!
# Visits of a search

* `Visit`, `journal`: the visits of a run in order, each with its node and its relaxation;
* `Leaves`, `visit_spec`: what one visit leaves behind, and that it fails only where its relaxation
  does;
* `visit_cases`, `visit_leaves`: what a visit that goes through has done;
* `Turn`, `run_turn`: the ways a run can go on at a loop head;
* `run_invariant`: what visits that go through keep holds wherever a run stops;
* `run_keeps`: and where they cannot fail otherwise, only a relaxation fails a run.
-/

namespace BinaryQuadratic.Search

open Relaxation Fixings

variable {α : Type}

/-- A visit: its node, the relaxation there, and the incumbent before it. -/
structure Visit (α : Type) where
  node : Node α
  relaxed : Relaxed α
  best : Option (Incumbent α)
  deriving DecidableEq

variable [Scalar α]

/-- No children follow: the node is dropped, or it has a value for every variable. -/
def Visit.closes (v : Visit α) (n : Nat) : Bool :=
  dominated v.best v.relaxed.objective || decide (v.node.fixed.size = n)

/-- The visits that `run` makes from a state on. -/
def journal (relax : Relaxer α) (form : Quadratic α) (options : Options α) (clock : Nat → Bool) :
    Nat → State α → List (Visit α)
  | 0, _ => []
  | fuel + 1, state =>
    match state.stack with
    | [] => []
    | node :: rest =>
      if clock state.visited then
        match relax (state.visited + 1) node with
        | .ok relaxed => ⟨node, relaxed, state.best⟩ ::
            match visit relax form options state node rest with
            | .ok next => journal relax form options clock fuel next
            | .error _ => []
        | .error _ => []
      else []

def closed (n : Nat) (visits : List (Visit α)) : List (Fixings α) :=
  (visits.filter fun v => v.closes n).map fun v => v.node.fixed

def branchings (n : Nat) (visits : List (Visit α)) : Nat := visits.countP fun v => !v.closes n

/-- What a visit leaves behind. -/
inductive Leaves (n : Nat) (state : State α) (node : Node α) (rest : List (Node α))
    (relaxed : Relaxed α) : State α → Prop
  | pruned (h : dominated state.best relaxed.objective = true) :
      Leaves n state node rest relaxed ⟨rest, state.visited + 1, state.best⟩
  | complete (h : dominated state.best relaxed.objective = false) (hsize : node.fixed.size = n) :
      Leaves n state node rest relaxed
        ⟨rest, state.visited + 1, some ⟨relaxed.x.map Scalar.round, relaxed.objective⟩⟩
  | branched (h : dominated state.best relaxed.objective = false) (hsize : node.fixed.size ≠ n)
      (i : Nat) (hi : i ∈ node.fixed.unfixed n) :
      Leaves n state node rest relaxed
        ⟨children ⟨some relaxed.objective, relaxed.x, node.fixed⟩ i ++ rest, state.visited + 1,
          state.best⟩

variable {relax : Relaxer α} {form : Quadratic α} {options : Options α} {clock : Nat → Bool}
  {state : State α} {node : Node α} {rest : List (Node α)} {relaxed : Relaxed α}

/-- A search can choose a variable wherever one is left. -/
theorem select_returns (node : Node α) (hopen : node.fixed.size ≠ form.size)
    (hlong : form.size ≤ node.solution.length) (hin : node.fixed.Within form.size)
    (hseed : 0 ≤ options.seed) (visited : Nat) :
    ∃ i, Branching.select (context form options visited) node = .ok i := by
  change (context form options visited).size ≤ node.solution.length at hlong
  have hfree : node.fixed.unfixed (context form options visited).size ≠ [] :=
    fun h => hopen ((unfixed_eq_nil_iff_size hin).1 h)
  have hfit : ∀ k ∈ node.fixed.indices, -(context form options visited).size ≤ k ∧
      k < (context form options visited).size := by
    intro k hk
    have : 0 ≤ k ∧ k < (context form options visited).size := hin k hk
    omega
  have hsum : (context form options visited).seed.plus (context form options visited).visited
      = .ok (.integer (options.seed + visited)) := rfl
  rw [Branching.select_known rfl]
  exact Branching.run_returns hfree hlong hfit hsum (by omega) options.strategy

/-- A child fixes one more variable than its node, at one or at zero. -/
theorem children_extend {n i : Nat} (hi : i ∈ node.fixed.unfixed n) {m : Node α}
    (hm : m ∈ children ⟨some relaxed.objective, relaxed.x, node.fixed⟩ i) :
    node.fixed.Extends m.fixed n := by
  rw [children, List.mem_pair] at hm
  rcases hm with rfl | rfl
  · exact (Extends.refl _ _).insert hi (.inr rfl)
  · exact (Extends.refl _ _).insert hi (.inl rfl)

/-- A visit once its node is relaxed. -/
theorem visit_relaxed (hrelax : relax (state.visited + 1) node = .ok relaxed) :
    visit relax form options state node rest =
      if dominated state.best relaxed.objective then .ok ⟨rest, state.visited + 1, state.best⟩
      else if node.fixed.size = form.size then
        .ok ⟨rest, state.visited + 1, some ⟨relaxed.x.map Scalar.round, relaxed.objective⟩⟩
      else
        (Branching.select (context form options (state.visited + 1))
          ⟨some relaxed.objective, relaxed.x, node.fixed⟩).map fun i =>
            ⟨children ⟨some relaxed.objective, relaxed.x, node.fixed⟩ i ++ rest,
              state.visited + 1, state.best⟩ := by
  simp only [visit, hrelax]
  rfl

/-- A visit goes through once its node is relaxed: while a variable is left, one is chosen. -/
theorem visit_spec (hrelax : relax (state.visited + 1) node = .ok relaxed)
    (hx : relaxed.x.length = form.size) (hin : node.fixed.Within form.size)
    (hseed : 0 ≤ options.seed) :
    ∃ next, visit relax form options state node rest = .ok next ∧
      Leaves form.size state node rest relaxed next := by
  rw [visit_relaxed hrelax]
  cases hd : dominated state.best relaxed.objective with
  | true => exact ⟨_, rfl, .pruned hd⟩
  | false =>
    by_cases hsize : node.fixed.size = form.size
    · exact ⟨_, if_pos hsize, .complete hd hsize⟩
    · obtain ⟨i, hi⟩ := select_returns ⟨some relaxed.objective, relaxed.x, node.fixed⟩ hsize
        (Nat.le_of_eq hx.symm) hin hseed (state.visited + 1)
      have hmem : i ∈ node.fixed.unfixed form.size := Branching.run_mem hi
      rw [if_neg Bool.false_ne_true, if_neg hsize, hi]
      exact ⟨_, rfl, .branched hd hsize i hmem⟩

/-- A visit that goes through has relaxed its node, and then went one of three ways. -/
theorem visit_cases {next : State α} (h : visit relax form options state node rest = .ok next) :
    ∃ relaxed, relax (state.visited + 1) node = .ok relaxed ∧
      ((dominated state.best relaxed.objective = true ∧
          next = ⟨rest, state.visited + 1, state.best⟩) ∨
        (dominated state.best relaxed.objective = false ∧ node.fixed.size = form.size ∧
          next = ⟨rest, state.visited + 1,
            some ⟨relaxed.x.map Scalar.round, relaxed.objective⟩⟩) ∨
        (dominated state.best relaxed.objective = false ∧ node.fixed.size ≠ form.size ∧
          ∃ i, Branching.select (context form options (state.visited + 1))
              ⟨some relaxed.objective, relaxed.x, node.fixed⟩ = .ok i ∧
            next = ⟨children ⟨some relaxed.objective, relaxed.x, node.fixed⟩ i ++ rest,
              state.visited + 1, state.best⟩)) := by
  obtain ⟨relaxed, hrelax, -⟩ := bind_eq_ok_iff.1 h
  rw [visit_relaxed hrelax] at h
  refine ⟨relaxed, hrelax, ?_⟩
  cases hd : dominated state.best relaxed.objective with
  | true =>
    rw [hd, if_pos rfl] at h
    exact .inl ⟨rfl, (Except.ok.inj h).symm⟩
  | false =>
    rw [hd, if_neg Bool.false_ne_true] at h
    by_cases hsize : node.fixed.size = form.size
    · rw [if_pos hsize] at h
      exact .inr (.inl ⟨rfl, hsize, (Except.ok.inj h).symm⟩)
    · rw [if_neg hsize] at h
      obtain ⟨i, hi, hnext⟩ := map_eq_ok_iff.1 h
      exact .inr (.inr ⟨rfl, hsize, i, hi, hnext.symm⟩)

/-- A visit that goes through leaves what its relaxation decides. -/
theorem visit_leaves {next : State α} (h : visit relax form options state node rest = .ok next) :
    ∃ relaxed, relax (state.visited + 1) node = .ok relaxed ∧
      Leaves form.size state node rest relaxed next := by
  obtain ⟨relaxed, hrelax, hways⟩ := visit_cases h
  refine ⟨relaxed, hrelax, ?_⟩
  rcases hways with ⟨hd, rfl⟩ | ⟨hd, hsize, rfl⟩ | ⟨hd, hsize, i, hi, rfl⟩
  · exact .pruned hd
  · exact .complete hd hsize
  · rw [Branching.select_known rfl] at hi
    exact .branched hd hsize i (Branching.run_mem hi)

theorem visit_failed {fault : Fault} (h : relax (state.visited + 1) node = .error fault) :
    visit relax form options state node rest = .error fault := by
  simp only [visit, h]
  rfl

/-- How a run goes on at a loop head, and which visits it makes. -/
inductive Turn (relax : Relaxer α) (form : Quadratic α) (options : Options α) (clock : Nat → Bool)
    (fuel : Nat) (state : State α) : Prop
  | stopped (why : state.stack = [] ∨ clock state.visited = false)
      (hrun : run relax form options clock (fuel + 1) state = .ok state)
      (hjournal : journal relax form options clock (fuel + 1) state = [])
  | unrelaxed {node : Node α} {fault : Fault}
      (hrelax : relax (state.visited + 1) node = .error fault)
      (hrun : run relax form options clock (fuel + 1) state = .error fault)
      (hjournal : journal relax form options clock (fuel + 1) state = [])
  | failed {node : Node α} {rest : List (Node α)} {relaxed : Relaxed α} {fault : Fault}
      (hstack : state.stack = node :: rest)
      (hrelax : relax (state.visited + 1) node = .ok relaxed)
      (hvisit : visit relax form options state node rest = .error fault)
      (hrun : run relax form options clock (fuel + 1) state = .error fault)
      (hjournal : journal relax form options clock (fuel + 1) state = [⟨node, relaxed, state.best⟩])
  | visited {node : Node α} {rest : List (Node α)} {relaxed : Relaxed α} {next : State α}
      (hstack : state.stack = node :: rest)
      (hrelax : relax (state.visited + 1) node = .ok relaxed)
      (hvisit : visit relax form options state node rest = .ok next)
      (hrun : run relax form options clock (fuel + 1) state =
        run relax form options clock fuel next)
      (hjournal : journal relax form options clock (fuel + 1) state =
        ⟨node, relaxed, state.best⟩ :: journal relax form options clock fuel next)

theorem run_turn (relax : Relaxer α) (form : Quadratic α) (options : Options α)
    (clock : Nat → Bool) (fuel : Nat) (state : State α) :
    Turn relax form options clock fuel state := by
  cases hstack : state.stack with
  | nil =>
    refine .stopped (.inl hstack) ?_ ?_
    · simp only [run, hstack]
    · simp only [journal, hstack]
  | cons node rest =>
    cases hclock : clock state.visited with
    | false =>
      refine .stopped (.inr hclock) ?_ ?_
      · simp only [run, hstack, hclock, Bool.false_eq_true, if_false]
      · simp only [journal, hstack, hclock, Bool.false_eq_true, if_false]
    | true =>
      cases hrelax : relax (state.visited + 1) node with
      | error fault =>
        refine .unrelaxed hrelax ?_ ?_
        · simp only [run, hstack, hclock, if_true, visit_failed hrelax]
        · simp only [journal, hstack, hclock, if_true, hrelax]
      | ok relaxed =>
        cases hvisit : visit relax form options state node rest with
        | error fault =>
          refine .failed hstack hrelax hvisit ?_ ?_
          · simp only [run, hstack, hclock, if_true, hvisit]
          · simp only [journal, hstack, hclock, if_true, hrelax, hvisit]
        | ok next =>
          refine .visited hstack hrelax hvisit ?_ ?_
          · simp only [run, hstack, hclock, if_true, hvisit]
          · simp only [journal, hstack, hclock, if_true, hrelax, hvisit]

/-- Every visit has its node's own relaxation. -/
theorem journal_relaxed {fuel : Nat} {v : Visit α}
    (h : v ∈ journal relax form options clock fuel state) :
    ∃ count, relax count v.node = .ok v.relaxed := by
  induction fuel generalizing state with
  | zero => cases h
  | succ fuel ih =>
    cases run_turn relax form options clock fuel state with
    | stopped _ _ hjournal => rw [hjournal] at h; cases h
    | unrelaxed _ _ hjournal => rw [hjournal] at h; cases h
    | failed _ hrelax _ _ hjournal =>
      rw [hjournal] at h
      obtain rfl := List.mem_singleton.1 h
      exact ⟨_, hrelax⟩
    | visited _ hrelax _ _ hjournal =>
      rw [hjournal] at h
      rcases List.mem_cons.1 h with rfl | hlater
      · exact ⟨_, hrelax⟩
      · exact ih hlater

/-- What every visit that goes through keeps holds wherever a run stops. -/
theorem run_invariant (P : State α → List (Visit α) → Prop) {Q : Visit α → Prop}
    (hstep : ∀ state past node rest relaxed next, P state past → state.stack = node :: rest →
      relax (state.visited + 1) node = .ok relaxed → Q ⟨node, relaxed, state.best⟩ →
      visit relax form options state node rest = .ok next →
      P next (past ++ [⟨node, relaxed, state.best⟩]))
    {fuel : Nat} (past : List (Visit α)) (hP : P state past)
    (hQ : ∀ v ∈ journal relax form options clock fuel state, Q v) {s : State α}
    (hs : run relax form options clock fuel state = .ok s) :
    P s (past ++ journal relax form options clock fuel state) := by
  -- Past and journal to come are one list, so the step is asked of the past alone.
  induction fuel generalizing state past with
  | zero =>
    cases hs
    rwa [journal, List.append_nil]
  | succ fuel ih =>
    cases run_turn relax form options clock fuel state with
    | stopped _ hrun hjournal =>
      obtain rfl : state = s := Except.ok.inj (hrun.symm.trans hs)
      rwa [hjournal, List.append_nil]
    | unrelaxed _ hrun _ => rw [hrun] at hs; cases hs
    | failed _ _ _ hrun _ => rw [hrun] at hs; cases hs
    | visited hstack hrelax hvisit hrun hjournal =>
      rw [hjournal, List.forall_mem_cons] at hQ
      rw [hrun] at hs
      have kept := hstep state past _ _ _ _ hP hstack hrelax hQ.1 hvisit
      have later := ih _ kept hQ.2 hs
      rwa [List.append_assoc, List.singleton_append, ← hjournal] at later

/-- What every visit keeps holds wherever a run stops, of all visits up to there; and where visits
go through, a run that fails was failed by a relaxation. -/
theorem run_keeps (P : State α → List (Visit α) → Prop) {Q : Visit α → Prop}
    (hstep : ∀ state past node rest relaxed, P state past → state.stack = node :: rest →
      relax (state.visited + 1) node = .ok relaxed → Q ⟨node, relaxed, state.best⟩ →
      ∃ next, visit relax form options state node rest = .ok next ∧
        P next (past ++ [⟨node, relaxed, state.best⟩]))
    {fuel : Nat} (past : List (Visit α)) (hP : P state past)
    (hQ : ∀ v ∈ journal relax form options clock fuel state, Q v) :
    (∀ s, run relax form options clock fuel state = .ok s →
      P s (past ++ journal relax form options clock fuel state)) ∧
    (∀ fault, run relax form options clock fuel state = .error fault →
      ∃ count node, relax count node = .error fault) := by
  constructor
  · intro s hs
    refine run_invariant P (fun state past node rest relaxed next h hstack hrelax hv hvisit => ?_)
      past hP hQ hs
    obtain ⟨next', hnext, kept⟩ := hstep state past node rest relaxed h hstack hrelax hv
    obtain rfl : next' = next := Except.ok.inj (hnext.symm.trans hvisit)
    exact kept
  · intro fault hfault
    induction fuel generalizing state past with
    | zero => cases hfault
    | succ fuel ih =>
      cases run_turn relax form options clock fuel state with
      | stopped _ hrun _ => rw [hrun] at hfault; cases hfault
      | unrelaxed hrelax hrun _ =>
        obtain rfl := Except.error.inj (hrun.symm.trans hfault)
        exact ⟨_, _, hrelax⟩
      | failed hstack hrelax hvisit _ hjournal =>
        have hv := hQ _ (hjournal ▸ List.mem_singleton_self _)
        obtain ⟨next, hnext, -⟩ := hstep state past _ _ _ hP hstack hrelax hv
        rw [hvisit] at hnext
        cases hnext
      | visited hstack hrelax hvisit hrun hjournal =>
        rw [hjournal, List.forall_mem_cons] at hQ
        rw [hrun] at hfault
        obtain ⟨next', hnext, kept⟩ := hstep state past _ _ _ hP hstack hrelax hQ.1
        obtain rfl := Except.ok.inj (hnext.symm.trans hvisit)
        exact ih _ kept hQ.2 hfault

end BinaryQuadratic.Search
