import Mathlib.Data.List.Lex
import BinaryQuadratic.Proofs.Search.Optimum

/-!
# Ties between optima

Searches over the rationals that branch on the first unfixed variable. They meet the binary points
in descending order of lists, so of several optima the greatest is found first, and a later one does
not replace it.

* `minimisers`: the optima below the root;
* `Tight`: what is asked of a relaxation; its points do not matter where a variable is left;
* `children_descending`: all points at one come before all points at zero;
* `Descending`: what a visit keeps. The incumbent is ahead of all points on the stack, and every
  point that is on the stack no more is beaten by it;
* `ties_settled`: an emptied stack leaves the greatest of all optima, whatever the relaxations were.
-/

namespace BinaryQuadratic

namespace Fixings

variable {α : Type} {f : Fixings α} {n : Nat}

/-- The variables before the first unfixed one are fixed. -/
theorem fixed_of_lt_first {i j : Nat} {later : List Nat} (h : f.unfixed n = i :: later)
    (hj : j < i) : (j : Int) ∈ f.indices := by
  have ascending : (i :: later).Pairwise (· < ·) := by
    rw [← h]
    exact List.Pairwise.filter _ List.pairwise_lt_range
  have hi : i < n := (mem_unfixed.1 (h ▸ List.mem_cons_self)).1
  by_contra hfree
  have hmem : j ∈ i :: later := h ▸ mem_unfixed.2 ⟨hj.trans hi, hfree⟩
  rcases List.mem_cons.1 hmem with rfl | hlater
  · exact Nat.lt_irrefl _ hj
  · exact Nat.lt_asymm hj (List.rel_of_pairwise_cons ascending hlater)

/-- With the first unfixed variable at one a point comes after all with it at zero. -/
theorem children_descending {f : Fixings Rat} {i : Nat} {later : List Nat}
    (h : f.unfixed n = i :: later) {y z : List Rat} (hy : y ∈ (f.insert i 1).binaryPoints n)
    (hz : z ∈ (f.insert i 0).binaryPoints n) : z < y := by
  obtain ⟨hi, hfree⟩ := mem_unfixed.1 (h ▸ List.mem_cons_self : i ∈ f.unfixed n)
  obtain ⟨hylength, -, hyholds⟩ := hy
  obtain ⟨hzlength, -, hzholds⟩ := hz
  obtain ⟨hybefore, hyone⟩ := (holds_insert hfree 1 y).1 hyholds
  obtain ⟨hzbefore, hzzero⟩ := (holds_insert hfree 0 z).1 hzholds
  obtain ⟨hiz, hzero⟩ := List.getElem?_eq_some_iff.1 hzzero
  obtain ⟨hiy, hone⟩ := List.getElem?_eq_some_iff.1 hyone
  refine List.lt_iff_exists.2 (.inr ⟨i, hiz, hiy, fun j hj => ?_, ?_⟩)
  · have := hzbefore.agree hybefore (fixed_of_lt_first h hj)
    rwa [List.getElem?_eq_getElem (hj.trans hiz), List.getElem?_eq_getElem (hj.trans hiy),
      Option.some.injEq] at this
  · rw [hzero, hone]
    exact zero_lt_one

end Fixings

namespace Search

open Relaxation Fixings

/-- The binary points below the root at which a form takes its least value there. -/
def minimisers (form : Quadratic Rat) (base : Fixings Rat) : Set (List Rat) :=
  {y ∈ base.binaryPoints form.size | ∀ z ∈ base.binaryPoints form.size, form.value y ≤ form.value z}

/-- What is asked of a relaxation: an objective that no binary point below the node undercuts, and
where every variable is fixed the point that is fixed, with its value. -/
structure Tight (form : Quadratic Rat) (v : Visit Rat) : Prop where
  support : ∀ y ∈ v.node.fixed.binaryPoints form.size, v.relaxed.objective ≤ form.value y
  pinned : (∀ i < form.size, (i : Int) ∈ v.node.fixed.indices) →
    v.relaxed.x.length = form.size ∧ v.node.fixed.Holds v.relaxed.x ∧
      v.relaxed.objective = form.value v.relaxed.x

/-- An incumbent beats a point of greater value, and one of its own value that does not come after
it. -/
def Beats (form : Quadratic Rat) (best : Incumbent Rat) (y : List Rat) : Prop :=
  best.objective < form.value y ∨ best.objective = form.value y ∧ y ≤ best.x

/-- What every visit keeps. -/
structure Descending (form : Quadratic Rat) (base : Fixings Rat) (state : State Rat) : Prop where
  below : ∀ node ∈ state.stack, base.Extends node.fixed form.size
  covered : ∀ y ∈ base.binaryPoints form.size,
    (∃ best ∈ state.best, Beats form best y) ∨
      ∃ node ∈ state.stack, y ∈ node.fixed.binaryPoints form.size
  descending : state.stack.Pairwise fun upper lower =>
    ∀ y ∈ upper.fixed.binaryPoints form.size, ∀ z ∈ lower.fixed.binaryPoints form.size, z < y
  ahead : ∀ best ∈ state.best, ∀ node ∈ state.stack,
    ∀ z ∈ node.fixed.binaryPoints form.size, z < best.x
  incumbent : ∀ best ∈ state.best,
    best.x ∈ base.binaryPoints form.size ∧ form.evaluate best.x = .ok best.objective

variable {form : Quadratic Rat} {base : Fixings Rat} {node : Node Rat} {rest : List (Node Rat)}
  {relaxed : Relaxed Rat} {visited : Nat} {best : Option (Incumbent Rat)}

theorem descending_start (form : Quadratic Rat) (base : Fixings Rat) :
    Descending form base (start form.size base) where
  below node hnode := by
    obtain rfl := List.mem_singleton.1 hnode
    exact .refl base form.size
  covered y hy := .inr ⟨_, List.mem_singleton_self _, hy⟩
  descending := List.pairwise_singleton _ _
  ahead best hbest := by cases hbest
  incumbent best hbest := by cases hbest

/-- The points of a dropped node are beaten: they come after the incumbent and do not undercut
it. -/
theorem pruned_descending (h : Descending form base ⟨node :: rest, visited, best⟩)
    (ht : Tight form ⟨node, relaxed, best⟩) (hd : dominated best relaxed.objective = true) :
    Descending form base ⟨rest, visited + 1, best⟩ := by
  refine ⟨fun m hm => h.below m (List.mem_cons_of_mem _ hm), fun y hy => ?_, h.descending.of_cons,
    fun b hb m hm => h.ahead b hb m (List.mem_cons_of_mem _ hm), h.incumbent⟩
  rcases h.covered y hy with hbeaten | ⟨m, hm, hmy⟩
  · exact .inl hbeaten
  · rcases List.mem_cons.1 hm with rfl | hm
    · obtain ⟨b, hb, hle⟩ := dominated_iff.1 hd
      have hbehind : y ≤ b.x := le_of_lt (h.ahead b hb m List.mem_cons_self y hmy)
      rcases lt_or_eq_of_le (hle.trans (ht.support y hmy)) with hlt | heq
      · exact .inl ⟨b, hb, .inl hlt⟩
      · exact .inl ⟨b, hb, .inr ⟨heq, hbehind⟩⟩
    · exact .inr ⟨m, hm, hmy⟩

/-- A new incumbent undercuts all that the old one beat, and is ahead of the rest of the stack. -/
theorem complete_descending (h : Descending form base ⟨node :: rest, visited, best⟩)
    (hd : dominated best relaxed.objective = false) {x : List Rat}
    (hx : x ∈ node.fixed.binaryPoints form.size) (hvalue : relaxed.objective = form.value x)
    (honly : ∀ y ∈ node.fixed.binaryPoints form.size, y = x) :
    Descending form base ⟨rest, visited + 1, some ⟨x, relaxed.objective⟩⟩ := by
  refine ⟨fun m hm => h.below m (List.mem_cons_of_mem _ hm), fun y hy => ?_, h.descending.of_cons,
    ?_, ?_⟩
  · rcases h.covered y hy with ⟨b, hb, hbeaten⟩ | ⟨m, hm, hmy⟩
    · have hle : b.objective ≤ form.value y := by
        rcases hbeaten with hlt | ⟨heq, -⟩
        · exact le_of_lt hlt
        · exact le_of_eq heq
      exact .inl ⟨_, rfl, .inl (lt_of_lt_of_le (undercuts hd b hb) hle)⟩
    · rcases List.mem_cons.1 hm with rfl | hm
      · obtain rfl := honly y hmy
        exact .inl ⟨_, rfl, .inr ⟨hvalue, le_refl y⟩⟩
      · exact .inr ⟨m, hm, hmy⟩
  · rintro b hb m hm z hz
    cases hb
    exact List.rel_of_pairwise_cons h.descending hm x hx z hz
  · rintro b hb
    cases hb
    refine ⟨(h.below node List.mem_cons_self).binaryPoints_subset hx, ?_⟩
    rw [Quadratic.evaluate, if_pos hx.1, hvalue]

/-- The children take their node's place, with the points at one before those at zero. -/
theorem branched_descending (h : Descending form base ⟨node :: rest, visited, best⟩) {i : Nat}
    {later : List Nat} (hfirst : node.fixed.unfixed form.size = i :: later) :
    Descending form base ⟨children ⟨some relaxed.objective, relaxed.x, node.fixed⟩ i ++ rest,
      visited + 1, best⟩ := by
  have hi : i ∈ node.fixed.unfixed form.size := hfirst ▸ List.mem_cons_self
  have child {m : Node Rat} (hm : m ∈ children ⟨some relaxed.objective, relaxed.x, node.fixed⟩ i) :
      node.fixed.Extends m.fixed form.size := children_extend hi hm
  obtain ⟨hunder, hrest⟩ := List.pairwise_cons.1 h.descending
  refine ⟨?_, fun y hy => ?_, ?_, fun b hb => ?_, h.incumbent⟩
  · rw [List.forall_mem_append]
    refine ⟨fun m hm => ?_, fun m hm => h.below m (List.mem_cons_of_mem _ hm)⟩
    exact (h.below node List.mem_cons_self).trans (child hm)
  · rcases h.covered y hy with hbeaten | hstack
    · exact .inl hbeaten
    · exact .inr (children_cover hi hstack)
  · rw [List.pairwise_append]
    refine ⟨?_, hrest, fun m hm m' hm' y hy z hz => ?_⟩
    · rw [children, List.pairwise_pair]
      exact fun y hy z hz => children_descending hfirst hy hz
    · exact hunder m' hm' y ((child hm).binaryPoints_subset hy) z hz
  · rw [List.forall_mem_append]
    refine ⟨fun m hm z hz => ?_, fun m hm => h.ahead b hb m (List.mem_cons_of_mem _ hm)⟩
    exact h.ahead b hb node List.mem_cons_self z ((child hm).binaryPoints_subset hz)

theorem select_first {options : Options Rat} (hstrategy : options.strategy = .firstNotFixed)
    {i : Nat} (h : Branching.select (context form options visited) node = .ok i) :
    ∃ later, node.fixed.unfixed form.size = i :: later := by
  rw [Branching.select_known rfl, hstrategy] at h
  change Except.map Prod.fst (node.branchable form.size) = .ok i at h
  cases hu : node.fixed.unfixed form.size with
  | nil =>
    rw [branchable_exhausted hu] at h
    cases h
  | cons first later =>
    rw [branchable_of_unfixed hu] at h
    cases h
    exact ⟨later, rfl⟩

theorem visit_descending {relax : Relaxer Rat} {options : Options Rat}
    (hstrategy : options.strategy = .firstNotFixed) (hb : base.Binary form.size)
    {state next : State Rat} (h : Descending form base state) (hstack : state.stack = node :: rest)
    (hrelax : relax (state.visited + 1) node = .ok relaxed)
    (ht : Tight form ⟨node, relaxed, state.best⟩)
    (hvisit : visit relax form options state node rest = .ok next) :
    Descending form base next := by
  obtain ⟨stack, visited, best⟩ := state
  obtain rfl : stack = node :: rest := hstack
  obtain ⟨relaxed', hrelax', hways⟩ := visit_cases hvisit
  obtain rfl : relaxed' = relaxed := Except.ok.inj (hrelax'.symm.trans hrelax)
  rcases hways with ⟨hd, rfl⟩ | ⟨hd, hsize, rfl⟩ | ⟨-, -, i, hi, rfl⟩
  · exact pruned_descending h ht hd
  · have hbinary := (h.below node List.mem_cons_self).binary hb
    have hfull : ∀ i < form.size, (i : Int) ∈ node.fixed.indices :=
      unfixed_eq_nil_iff.1 ((unfixed_eq_nil_iff_size hbinary.within).2 hsize)
    obtain ⟨hlength, hholds, hvalue⟩ := ht.pinned hfull
    have hx : relaxed'.x ∈ node.fixed.binaryPoints form.size :=
      binary_of_agrees hbinary hsize hlength fun i _ v hv => hholds.getElem? hv
    rw [map_round_binary hx.2.1]
    exact complete_descending h hd hx hvalue fun y hy =>
      hy.2.2.unique hholds hy.1 hlength hfull
  · obtain ⟨later, hfirst⟩ := select_first hstrategy hi
    exact branched_descending h hfirst

/-- Once the stack is empty the incumbent is the greatest of all optima. -/
theorem Descending.greatest {state : State Rat} (h : Descending form base state)
    (hb : base.Binary form.size) (hempty : state.stack = []) :
    ∃ best, state.best = some best ∧ IsGreatest (minimisers form base) best.x ∧
      form.evaluate best.x = .ok best.objective := by
  have beaten : ∀ y ∈ base.binaryPoints form.size, ∃ best ∈ state.best, Beats form best y := by
    intro y hy
    rcases h.covered y hy with hbest | ⟨m, hm, -⟩
    · exact hbest
    · rw [hempty] at hm
      cases hm
  obtain ⟨y, hy⟩ := binaryPoints_nonempty hb
  obtain ⟨best, hbest, -⟩ := beaten y hy
  obtain ⟨hx, hvalue⟩ := h.incumbent best hbest
  have own : ∀ z ∈ base.binaryPoints form.size, Beats form best z := by
    intro z hz
    obtain ⟨b, hb, hbeats⟩ := beaten z hz
    rwa [Option.mem_unique hb hbest] at hbeats
  have least : ∀ z ∈ base.binaryPoints form.size, form.value best.x ≤ form.value z := by
    intro z hz
    rw [evaluate_eq_ok hvalue]
    rcases own z hz with hlt | ⟨heq, -⟩
    · exact le_of_lt hlt
    · exact le_of_eq heq
  refine ⟨best, hbest, ⟨⟨hx, least⟩, fun z hz => ?_⟩, hvalue⟩
  rcases own z hz.1 with hlt | ⟨-, hle⟩
  · have hother := hz.2 best.x hx
    rw [evaluate_eq_ok hvalue] at hother
    exact absurd hlt (not_lt.2 hother)
  · exact hle

theorem exists_greatest_minimiser (form : Quadratic Rat) (hb : base.Binary form.size) :
    ∃ x, IsGreatest (minimisers form base) x := by
  obtain ⟨optimum, ⟨y, hy, rfl⟩, hleast⟩ := exists_optimum hb form.value
  have hmin : y ∈ minimisers form base :=
    ⟨hy, fun z hz => hleast (Set.mem_image_of_mem form.value hz)⟩
  have hfinite : (minimisers form base).Finite :=
    (binaryPoints_finite base form.size).subset fun _ hz => hz.1
  obtain ⟨x, hx, hgreatest⟩ := Set.exists_max_image (minimisers form base) id hfinite ⟨y, hmin⟩
  exact ⟨x, hx, hgreatest⟩

/-- **Ties are settled by the form alone.** Let a search branch on the first unfixed variable, and
let its relaxations answer as they like, below all binary points of their nodes and with the one
point that is left at a complete node. When its stack is empty, its incumbent is the greatest of all
optima in the order of lists, where the first variable in which two points differ decides. So any
two such searches end with the same point and the same value. -/
theorem ties_settled (form : Quadratic Rat) (options : Options Rat)
    (hstrategy : options.strategy = .firstNotFixed) (hfixed : options.fixed.Binary form.size) :
    ∃ x value, IsGreatest (minimisers form options.fixed) x ∧ form.evaluate x = .ok value ∧
      ∀ (relax : Relaxer Rat) clock fuel s,
        (∀ v ∈ journal relax form options clock fuel (start form.size options.fixed),
          Tight form v) →
        run relax form options clock fuel (start form.size options.fixed) = .ok s →
        s.stack = [] → s.best = some ⟨x, value⟩ := by
  obtain ⟨x, hx⟩ := exists_greatest_minimiser form hfixed
  have hvalue : form.evaluate x = .ok (form.value x) := if_pos hx.1.1.1
  refine ⟨x, form.value x, hx, hvalue, fun relax clock fuel s htight hrun hempty => ?_⟩
  have kept : Descending form options.fixed s :=
    run_invariant (fun state _ => Descending form options.fixed state)
      (fun _ _ _ _ _ _ h hstack hrelax ht hvisit =>
        visit_descending hstrategy hfixed h hstack hrelax ht hvisit)
      [] (descending_start form options.fixed) htight hrun
  obtain ⟨⟨y, value⟩, hbest, hgreatest, hobjective⟩ := kept.greatest hfixed hempty
  obtain rfl : y = x := hgreatest.unique hx
  obtain rfl : form.value y = value := Except.ok.inj (hvalue.symm.trans hobjective)
  exact hbest

/-- Two variables that gain alone and lose together: two points have the least value. -/
def rivalForm : Quadratic Rat := ⟨⟨2, [[(1, 4)], []], by decide⟩, [-1, -1], rfl, rfl⟩

def rivalOptions : Options Rat := ⟨Fixings.empty, .firstNotFixed, 10, 0⟩

/-- Answers a complete node with its point, and any other far below, at the point it has. -/
def looseRelaxer : Relaxer Rat := fun _ node =>
  if node.fixed.unfixed 2 = [] then
    let x := (List.range 2).map fun i => (node.fixed.get? i).getD 0
    .ok ⟨x, rivalForm.value x, .optimal, 0⟩
  else .ok ⟨node.solution, -7, .optimal, 0⟩

def rivalVisits : List (Visit Rat) := journal looseRelaxer rivalForm rivalOptions
  (fun _ => true) 8 (start 2 rivalOptions.fixed)

theorem rivalVisits_tight : ∀ v ∈ rivalVisits, Tight rivalForm v := by
  have checked : ∀ v ∈ rivalVisits,
      (∀ y ∈ corners 2, v.node.fixed.Holds y → v.relaxed.objective ≤ rivalForm.value y) ∧
      ((∀ i : Nat, i < 2 → (i : Int) ∈ v.node.fixed.indices) →
        v.relaxed.x.length = 2 ∧ v.node.fixed.Holds v.relaxed.x ∧
          v.relaxed.objective = rivalForm.value v.relaxed.x) := by
    decide +kernel
  intro v hv
  obtain ⟨support, pinned⟩ := checked v hv
  exact ⟨fun y hy => support y (mem_corners.2 ⟨hy.1, hy.2.1⟩) hy.2.2, pinned⟩

/-- Both points with one variable at one are optimal, and the search ends with the greater. -/
theorem ties_settled_rival : rivalOptions.strategy = .firstNotFixed ∧
    rivalOptions.fixed.Binary rivalForm.size ∧ (∀ v ∈ rivalVisits, Tight rivalForm v) ∧
    rivalForm.value [0, 1] = rivalForm.value [1, 0] ∧
    ∃ s, run looseRelaxer rivalForm rivalOptions (fun _ => true) 8 (start 2 rivalOptions.fixed)
        = .ok s ∧ s.stack = [] ∧ s.best = some ⟨[1, 0], -1⟩ ∧
      IsGreatest (minimisers rivalForm rivalOptions.fixed) [1, 0] := by
  have binary : rivalOptions.fixed.Binary rivalForm.size := nofun
  have finish : run looseRelaxer rivalForm rivalOptions (fun _ => true) 8
      (start 2 rivalOptions.fixed) = .ok ⟨[], 7, some ⟨[1, 0], -1⟩⟩ := by
    decide +kernel
  obtain ⟨x, value, hgreatest, -, settled⟩ := ties_settled rivalForm rivalOptions rfl binary
  have same := settled looseRelaxer (fun _ => true) 8 _ rivalVisits_tight finish rfl
  obtain ⟨rfl, rfl⟩ := Incumbent.mk.inj (Option.some.inj same)
  exact ⟨rfl, binary, rivalVisits_tight, by decide +kernel, _, finish, rfl, rfl, hgreatest⟩

end Search

end BinaryQuadratic
