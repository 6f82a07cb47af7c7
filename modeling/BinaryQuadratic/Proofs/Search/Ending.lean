import Mathlib.Algebra.Order.Ring.Nat
import BinaryQuadratic.Proofs.Search.Visits

/-!
# A search ends

Whatever the relaxations answer, and also where no comparison ever drops a node.

* `Below`: a node so many branchings below the root;
* `reserve`: how many visits the nodes of a stack can still take, each with all below it;
* `Shallow`: no node of a stack lies less deep than there are nodes under it;
* `Frugal`, `closed_frugal`, `branched_frugal`: what is spent and reserved never grows, and both
  ways a visit can go keep the stack shallow;
* `run_stops`: a run that is not stopped uses up its visits or its stack;
* `search_ends`: the stack runs empty, and until then every choice that is asked for succeeds.
-/

namespace BinaryQuadratic.Search

open Relaxation Fixings

variable {α : Type} [Scalar α]

/-- A node so many branchings below the root: the root itself, or a child of a node that was visited
and branched. -/
inductive Below (n : Nat) (base : Fixings α) (past : List (Visit α)) : Nat → Node α → Prop
  | root : Below n base past 0 (root n base)
  | child {level i : Nat} {v : Visit α} {m : Node α} (hv : v ∈ past) (hopen : v.closes n = false)
      (habove : Below n base past level v.node) (hi : i ∈ v.node.fixed.unfixed n)
      (hm : m ∈ children ⟨some v.relaxed.objective, v.relaxed.x, v.node.fixed⟩ i) :
      Below n base past (level + 1) m

/-- How many visits a node can take together with all nodes below it. -/
def subtreeVisits (n : Nat) (f : Fixings α) : Nat := 2 ^ (n - f.size + 1) - 1

/-- How many visits the nodes of a stack can take together with all nodes below them. -/
def reserve (n : Nat) (stack : List (Node α)) : Nat :=
  (stack.map fun node => subtreeVisits n node.fixed).sum

/-- Every node of a stack lies at least as many levels down as there are nodes under it. -/
def Shallow (base : Fixings α) : List (Node α) → Prop
  | [] => True
  | node :: rest => rest.length + base.size ≤ node.fixed.size ∧ Shallow base rest

/-- What a search keeps at its loop heads. -/
structure Frugal (base : Fixings α) (n : Nat) (state : State α) (past : List (Visit α)) : Prop where
  stacked : ∀ node ∈ state.stack, ∃ level, Below n base past level node
  visited : ∀ v ∈ past, ∃ level, Below n base past level v.node
  shallow : Shallow base state.stack
  spent : state.visited + reserve n state.stack ≤ subtreeVisits n base

variable {base : Fixings α} {n level : Nat} {past : List (Visit α)} {node : Node α}

omit [Scalar α] in
theorem size_insert {f : Fixings α} {i : Nat} (hi : i ∈ f.unfixed n) (v : α) :
    (f.insert i v).size = f.size + 1 := by
  unfold size
  rw [entries_insert (mem_unfixed.1 hi).2, List.length_append, List.length_singleton]

theorem size_of_mem_children (node : Node α) {m : Node α} {i : Nat}
    (hi : i ∈ node.fixed.unfixed n) (hm : m ∈ children node i) :
    m.fixed.size = node.fixed.size + 1 := by
  rw [children, List.mem_pair] at hm
  rcases hm with rfl | rfl
  · exact size_insert hi 1
  · exact size_insert hi 0

namespace Below

theorem weaken {further : List (Visit α)} (h : Below n base past level node) :
    Below n base (past ++ further) level node := by
  induction h with
  | root => exact .root
  | child hv hopen _ hi hm ih => exact .child (List.mem_append_left _ hv) hopen ih hi hm

/-- Each level fixes one variable. -/
theorem size_eq (h : Below n base past level node) : node.fixed.size = base.size + level := by
  induction h with
  | root => rfl
  | @child _ _ v _ _ _ _ hi hm ih =>
    have := size_of_mem_children ⟨some v.relaxed.objective, v.relaxed.x, v.node.fixed⟩ hi hm
    simp only at this
    omega

theorem extends_base (h : Below n base past level node) : base.Extends node.fixed n := by
  induction h with
  | root => exact .refl base n
  | child _ _ _ hi hm ih => exact ih.trans (children_extend hi hm)

/-- The tree is no deeper than the root leaves variables open. -/
theorem level_le (hb : base.Within n) (h : Below n base past level node) :
    base.size + level ≤ n := by
  have := length_unfixed_add_size (h.extends_base.within hb)
  have := h.size_eq
  omega

end Below

omit [Scalar α] in
theorem subtreeVisits_pos (n : Nat) (f : Fixings α) : 0 < subtreeVisits n f := by
  have : 2 ≤ 2 ^ (n - f.size + 1) := Nat.le_self_pow (by omega) 2
  unfold subtreeVisits
  omega

omit [Scalar α] in
/-- A branched node takes one visit, and its two children all the others. -/
theorem subtreeVisits_eq {f g : Fixings α} (hsize : f.size < n) (hg : g.size = f.size + 1) :
    subtreeVisits n f = 1 + 2 * subtreeVisits n g := by
  have hlevels : n - f.size = n - g.size + 1 := by omega
  have : 0 < 2 ^ (n - g.size + 1) := Nat.pow_pos (by decide)
  unfold subtreeVisits
  rw [hlevels, Nat.pow_succ]
  omega

omit [Scalar α] in
theorem Shallow.length_le {stack : List (Node α)} (h : Shallow base stack)
    (hsize : ∀ node ∈ stack, node.fixed.size ≤ n) : stack.length ≤ n - base.size + 1 := by
  cases stack with
  | nil => exact Nat.zero_le _
  | cons node rest =>
    have := h.1
    have := hsize node List.mem_cons_self
    rw [List.length_cons]
    omega

variable {state : State α} {rest : List (Node α)} {v : Visit α}

theorem frugal_start (base : Fixings α) (n : Nat) : Frugal base n (start n base) [] where
  stacked node hnode := ⟨0, List.mem_singleton.1 hnode ▸ .root⟩
  visited := nofun
  shallow := ⟨by simp [root], trivial⟩
  spent := by simp [start, reserve, root]

/-- Visited nodes keep their levels, and the node of the visit has the one it had on the stack. -/
theorem levels_kept (h : Frugal base n state past) (hstack : state.stack = v.node :: rest) :
    (∀ node ∈ rest, ∃ level, Below n base (past ++ [v]) level node) ∧
      ∀ w ∈ past ++ [v], ∃ level, Below n base (past ++ [v]) level w.node := by
  have hstacked := h.stacked
  rw [hstack, List.forall_mem_cons] at hstacked
  refine ⟨fun node hnode => ?_, fun w hw => ?_⟩
  · obtain ⟨level, hlevel⟩ := hstacked.2 node hnode
    exact ⟨level, hlevel.weaken⟩
  · rcases List.mem_append.1 hw with hpast | hnew
    · obtain ⟨level, hlevel⟩ := h.visited w hpast
      exact ⟨level, hlevel.weaken⟩
    · obtain rfl := List.mem_singleton.1 hnew
      obtain ⟨level, hlevel⟩ := hstacked.1
      exact ⟨level, hlevel.weaken⟩

/-- A closed node gives up what was reserved for it. -/
theorem closed_frugal (h : Frugal base n state past) (hstack : state.stack = v.node :: rest)
    (best : Option (Incumbent α)) :
    Frugal base n ⟨rest, state.visited + 1, best⟩ (past ++ [v]) := by
  obtain ⟨hrest, hvisited⟩ := levels_kept h hstack
  have hshallow := h.shallow
  have hspent := h.spent
  rw [hstack] at hshallow hspent
  refine ⟨hrest, hvisited, hshallow.2, ?_⟩
  have := subtreeVisits_pos n v.node.fixed
  simp only [reserve, List.map_cons, List.sum_cons] at hspent ⊢
  omega

/-- The children of a branched node share what was reserved for it. -/
theorem branched_frugal (hb : base.Within n) (h : Frugal base n state past)
    (hstack : state.stack = v.node :: rest) (hopen : v.closes n = false) {i : Nat}
    (hi : i ∈ v.node.fixed.unfixed n) :
    Frugal base n ⟨children ⟨some v.relaxed.objective, v.relaxed.x, v.node.fixed⟩ i ++ rest,
      state.visited + 1, state.best⟩ (past ++ [v]) := by
  obtain ⟨hrest, hvisited⟩ := levels_kept h hstack
  obtain ⟨level, hlevel⟩ := hvisited v (List.mem_append_right _ (List.mem_singleton_self v))
  have hshallow := h.shallow
  have hspent := h.spent
  rw [hstack] at hshallow hspent
  have hone := size_insert hi 1
  have hzero := size_insert hi 0
  refine ⟨?_, hvisited, ?_, ?_⟩
  · rw [List.forall_mem_append]
    refine ⟨fun m hm => ⟨level + 1, ?_⟩, hrest⟩
    exact .child (List.mem_append_right _ (List.mem_singleton_self v)) hopen hlevel hi hm
  · have hunder := hshallow.1
    simp only [children, Node.child, List.cons_append, List.nil_append, Shallow, hone, hzero,
      List.length_cons]
    exact ⟨by omega, by omega, hshallow.2⟩
  · have hbelow : v.node.fixed.size < n := by
      have hsize := length_unfixed_add_size (hlevel.extends_base.within hb)
      have := List.length_pos_of_mem hi
      omega
    have first := subtreeVisits_eq hbelow hone
    have second := subtreeVisits_eq hbelow hzero
    simp only [reserve, children, Node.child, List.cons_append, List.nil_append, List.map_cons,
      List.sum_cons] at hspent ⊢
    omega

theorem visit_frugal {relaxed : Relaxed α} {next : State α} (hb : base.Within n)
    (h : Frugal base n state past) (hstack : state.stack = node :: rest)
    (hleaves : Leaves n state node rest relaxed next) :
    Frugal base n next (past ++ [⟨node, relaxed, state.best⟩]) := by
  cases hleaves with
  | pruned => exact closed_frugal h hstack _
  | complete => exact closed_frugal h hstack _
  | branched hd hsize i hi =>
    have hopen : (⟨node, relaxed, state.best⟩ : Visit α).closes n = false := by
      simp [Visit.closes, hd, hsize]
    exact branched_frugal hb h hstack hopen hi

variable {relax : Relaxer α} {form : Quadratic α} {options : Options α} {clock : Nat → Bool}

/-- A run goes on until the stack is empty, the clock stops it or its visits are used up. -/
theorem run_stops {fuel : Nat} {s : State α} (h : run relax form options clock fuel state = .ok s) :
    s.stack = [] ∨ clock s.visited = false ∨ s.visited = state.visited + fuel := by
  induction fuel generalizing state with
  | zero => cases h; exact .inr (.inr rfl)
  | succ fuel ih =>
    cases run_turn relax form options clock fuel state with
    | stopped why hrun _ =>
      obtain rfl : state = s := Except.ok.inj (hrun.symm.trans h)
      exact why.imp id .inl
    | unrelaxed _ hrun _ => rw [hrun] at h; cases h
    | failed _ _ _ hrun _ => rw [hrun] at h; cases h
    | @visited _ _ _ next _ _ hvisit hrun _ =>
      have counted : next.visited = state.visited + 1 := by
        obtain ⟨_, _, hleaves⟩ := visit_leaves hvisit
        cases hleaves <;> rfl
      rw [hrun] at h
      rcases ih h with hempty | hclock | hused
      · exact .inl hempty
      · exact .inr (.inl hclock)
      · exact .inr (.inr (by omega))

theorem journal_long (hrelax : ∀ count node, ∃ relaxed, relax count node = .ok relaxed ∧
    relaxed.x.length = form.size) (clock : Nat → Bool) (fuel : Nat) (state : State α) :
    ∀ v ∈ journal relax form options clock fuel state, v.relaxed.x.length = form.size := by
  intro v hv
  obtain ⟨count, hv⟩ := journal_relaxed hv
  obtain ⟨relaxed, hok, hlength⟩ := hrelax count v.node
  obtain rfl := Except.ok.inj (hok.symm.trans hv)
  exact hlength

/-- A search whose relaxations answer goes through, and keeps to what is reserved. -/
theorem run_frugal (hseed : 0 ≤ options.seed) (hfixed : options.fixed.Within form.size)
    (hrelax : ∀ count node, ∃ relaxed, relax count node = .ok relaxed ∧
      relaxed.x.length = form.size) (clock : Nat → Bool) (fuel : Nat) :
    ∃ s, run relax form options clock fuel (start form.size options.fixed) = .ok s ∧
      Frugal options.fixed form.size s
        (journal relax form options clock fuel (start form.size options.fixed)) := by
  have step : ∀ state past node rest relaxed, Frugal options.fixed form.size state past →
      state.stack = node :: rest → relax (state.visited + 1) node = .ok relaxed →
      relaxed.x.length = form.size →
      ∃ next, visit relax form options state node rest = .ok next ∧
        Frugal options.fixed form.size next (past ++ [⟨node, relaxed, state.best⟩]) := by
    intro state past node rest relaxed h hstack hrelaxed hlength
    obtain ⟨level, hlevel⟩ := h.stacked node (hstack ▸ List.mem_cons_self)
    obtain ⟨next, hnext, hleaves⟩ := visit_spec hrelaxed hlength
      (hlevel.extends_base.within hfixed) hseed
    exact ⟨next, hnext, visit_frugal hfixed h hstack hleaves⟩
  obtain ⟨kept, failed⟩ := run_keeps (Frugal options.fixed form.size) step []
    (frugal_start options.fixed form.size) (journal_long hrelax clock fuel _)
  cases hrun : run relax form options clock fuel (start form.size options.fixed) with
  | ok s => exact ⟨s, rfl, kept s hrun⟩
  | error fault =>
    obtain ⟨count, node, hfault⟩ := failed fault hrun
    obtain ⟨relaxed, hok, -⟩ := hrelax count node
    cases hfault.symm.trans hok

/-- **A search ends.** Relaxations that answer at every visit, with whatever points and objectives,
let a search that no clock stops run out of nodes: with `m` variables left open at its root after at
most `2 ^ (m + 1) - 1` visits, which are fewer than `solve` allows. At every loop head, also of a
search that is stopped, the stack holds at most `m + 1` nodes. A visited node lies at most `m`
levels below the root, a branched one fewer, and there the choice of a variable succeeds. -/
theorem search_ends (relax : Relaxer α) (form : Quadratic α) (options : Options α)
    (hseed : 0 ≤ options.seed) (hfixed : options.fixed.Within form.size)
    (hrelax : ∀ count node, ∃ relaxed, relax count node = .ok relaxed ∧
      relaxed.x.length = form.size) :
    (2 ^ (form.size - options.fixed.size + 1) - 1 < visitLimit form.size ∧
      ∀ fuel, 2 ^ (form.size - options.fixed.size + 1) - 1 ≤ fuel →
        ∃ s, run relax form options (fun _ => true) fuel (start form.size options.fixed) = .ok s ∧
          s.stack = [] ∧ s.visited ≤ 2 ^ (form.size - options.fixed.size + 1) - 1) ∧
    ∀ clock fuel,
      ∃ s, run relax form options clock fuel (start form.size options.fixed) = .ok s ∧
        s.stack.length ≤ form.size - options.fixed.size + 1 ∧
        ∀ v ∈ journal relax form options clock fuel (start form.size options.fixed),
          ∃ level, Below form.size options.fixed
              (journal relax form options clock fuel (start form.size options.fixed)) level v.node ∧
            level ≤ form.size - options.fixed.size ∧
            (v.closes form.size = false → level < form.size - options.fixed.size ∧
              ∀ count, ∃ i, Branching.select (context form options count)
                ⟨some v.relaxed.objective, v.relaxed.x, v.node.fixed⟩ = .ok i) := by
  refine ⟨⟨?_, fun fuel hfuel => ?_⟩, fun clock fuel => ?_⟩
  · have : 2 ^ (form.size - options.fixed.size + 1) ≤ 2 ^ (form.size + 1) :=
      Nat.pow_le_pow_right (by decide) (by omega)
    have : 0 < 2 ^ (form.size - options.fixed.size + 1) := Nat.pow_pos (by decide)
    change _ < 2 ^ (form.size + 1)
    omega
  · obtain ⟨s, hrun, h⟩ := run_frugal hseed hfixed hrelax (fun _ => true) fuel
    have hspent : s.visited + reserve form.size s.stack
        ≤ 2 ^ (form.size - options.fixed.size + 1) - 1 := h.spent
    refine ⟨s, hrun, ?_, by omega⟩
    rcases run_stops hrun with hempty | hclock | hused
    · exact hempty
    · cases hclock
    · -- All visits are used up, so that nothing is left in reserve for a further node.
      have hused : s.visited = 0 + fuel := hused
      cases hstack : s.stack with
      | nil => rfl
      | cons node rest =>
        have := subtreeVisits_pos form.size node.fixed
        simp only [reserve, hstack, List.map_cons, List.sum_cons] at hspent
        omega
  · obtain ⟨s, hrun, h⟩ := run_frugal hseed hfixed hrelax clock fuel
    refine ⟨s, hrun, ?_, fun v hv => ?_⟩
    · refine h.shallow.length_le fun node hnode => ?_
      obtain ⟨level, hlevel⟩ := h.stacked node hnode
      have := length_unfixed_add_size (hlevel.extends_base.within hfixed)
      omega
    · obtain ⟨level, hlevel⟩ := h.visited v hv
      have hdepth := hlevel.level_le hfixed
      have hsize := hlevel.size_eq
      refine ⟨level, hlevel, by omega, fun hopen => ?_⟩
      have hleft : v.node.fixed.size ≠ form.size := by
        simp only [Visit.closes, Bool.or_eq_false_iff, decide_eq_false_iff_not] at hopen
        exact hopen.2
      refine ⟨by omega, fun count => ?_⟩
      have hlong := journal_long hrelax clock fuel _ v hv
      exact select_returns ⟨some v.relaxed.objective, v.relaxed.x, v.node.fixed⟩ hleft
        (Nat.le_of_eq hlong.symm) (hlevel.extends_base.within hfixed) hseed count

/-- Three variables, one of them fixed outside zero and one. -/
def blindForm : Quadratic Float :=
  ⟨⟨3, [[(1, 2)], [(2, -1)], [(0, 4)]], by decide⟩, [-1, 0, 1], rfl, rfl⟩

def blindOptions : Options Float := ⟨⟨[(2, 7)], by decide⟩, .mostViolated, 10, 5⟩

/-- Objectives that are not numbers, so that no node is ever dropped. -/
def blindRelaxer : Relaxer Float := fun count _ =>
  .ok ⟨[0 / 0, Float.ofNat count, 1 / 0], 0 / 0, .numericalError, count⟩

theorem search_ends_blind : 0 ≤ blindOptions.seed ∧ blindOptions.fixed.Within blindForm.size ∧
    (∀ count node, ∃ relaxed, blindRelaxer count node = .ok relaxed ∧
      relaxed.x.length = blindForm.size) ∧
    ∃ s, run blindRelaxer blindForm blindOptions (fun _ => true) 7
        (start 3 blindOptions.fixed) = .ok s ∧ s.stack = [] ∧ s.visited ≤ 7 := by
  have seeded : 0 ≤ blindOptions.seed := by decide
  have within : blindOptions.fixed.Within blindForm.size := by unfold Fixings.Within; decide
  have answered : ∀ count node, ∃ relaxed, blindRelaxer count node = .ok relaxed ∧
      relaxed.x.length = blindForm.size := fun _ _ => ⟨_, rfl, rfl⟩
  obtain ⟨⟨-, ends⟩, -⟩ := search_ends blindRelaxer blindForm blindOptions seeded within answered
  exact ⟨seeded, within, answered, ends 7 (Nat.le_refl 7)⟩

end BinaryQuadratic.Search
