import Mathlib.Order.WithBotTop
import Mathlib.Tactic.NormNum
import BinaryQuadratic.Proofs.BinaryPoints
import BinaryQuadratic.Proofs.Columns
import BinaryQuadratic.Proofs.Search.Visits

/-!
# The optimum stays in sight

Searches over the rationals, where every relaxation answers with a point of its box and with a value
that no binary point below the node undercuts.

* `Supports`: what is asked of a relaxation;
* `Bounded`: what a visit keeps. Every binary point below the root is worse than the incumbent, or
  lies below a node on the stack, whose bound it respects;
* `leaf_binary`: the point at a complete node is the one binary point there;
* `optimum_bracketed`: at every loop head the least value of all lies between the least bound and
  the incumbent's value.
-/

namespace BinaryQuadratic.Search

open Relaxation Fixings

/-- The rationals and an infinity on both sides. -/
abbrev Extended := WithBotTop Rat

/-- The bound of a node; minus infinity is no bound. -/
def bound (node : Node Rat) : Extended :=
  match node.lowerBound with
  | some b => b
  | none => ⊥

def State.leastBound (state : State Rat) : Extended :=
  state.stack.foldr (fun node least => min (bound node) least) ⊤

def State.bestObjective (state : State Rat) : Extended :=
  match state.best with
  | some best => best.objective
  | none => ⊤

/-- What is asked of a relaxation: a point in the box of its node, and an objective that no binary
point below the node undercuts. -/
structure Supports (form : Quadratic Rat) (v : Visit Rat) : Prop where
  length : v.relaxed.x.length = form.size
  inside : ∀ box, v.node.bounds form.size = .ok box →
    List.Forall₂ (fun range e => range.1 ≤ e ∧ e ≤ range.2) box v.relaxed.x
  support : ∀ y ∈ v.node.fixed.binaryPoints form.size, v.relaxed.objective ≤ form.value y

/-- What every visit keeps: no binary point below the root is lost that the incumbent does not
undercut. -/
structure Bounded (form : Quadratic Rat) (base : Fixings Rat) (state : State Rat) : Prop where
  below : ∀ node ∈ state.stack, base.Extends node.fixed form.size
  bounds : ∀ node ∈ state.stack, ∀ b ∈ node.lowerBound,
    ∀ y ∈ node.fixed.binaryPoints form.size, b ≤ form.value y
  covered : ∀ y ∈ base.binaryPoints form.size,
    (∃ best ∈ state.best, best.objective ≤ form.value y) ∨
      ∃ node ∈ state.stack, y ∈ node.fixed.binaryPoints form.size
  incumbent : ∀ best ∈ state.best,
    best.x ∈ base.binaryPoints form.size ∧ form.evaluate best.x = .ok best.objective

theorem isTop_rational (a : Rat) : Scalar.isTop a = false := by
  simp [Scalar.isTop, Scalar.isInfinite, Scalar.isNaN]

theorem dominated_iff {best : Option (Incumbent Rat)} {objective : Rat} :
    dominated best objective = true ↔ ∃ b ∈ best, b.objective ≤ objective := by
  cases best with
  | none => simp [dominated, isTop_rational]
  | some b => simp [dominated]

/-- What is not dominated undercuts the incumbent. -/
theorem undercuts {best : Option (Incumbent Rat)} {objective : Rat}
    (h : dominated best objective = false) : ∀ b ∈ best, objective < b.objective := by
  intro b hb
  by_contra hover
  have hdropped := dominated_iff.2 ⟨b, hb, not_lt.1 hover⟩
  rw [h] at hdropped
  cases hdropped

/-- Whole numbers round to themselves. -/
theorem round_whole (k : Int) : Scalar.round (k : Rat) = k := by
  change (Scalar.roundRational (k : Rat) : Rat) = k
  have hsmall : (0 : Rat) < 1 / 2 := by norm_num
  simp only [Scalar.roundRational, Rat.floor_intCast, sub_self, if_pos hsmall]

theorem map_round_whole {x : List Rat} (h : ∀ v ∈ x, ∃ k : Int, v = k) :
    x.map Scalar.round = x := by
  refine (List.map_congr_left fun v hv => ?_).trans (List.map_id x)
  obtain ⟨k, rfl⟩ := h v hv
  exact round_whole k

theorem map_round_binary {x : List Rat} (h : ∀ v ∈ x, v = 0 ∨ v = 1) : x.map Scalar.round = x := by
  refine map_round_whole fun v hv => ?_
  rcases h v hv with rfl | rfl
  · exact ⟨0, Int.cast_zero.symm⟩
  · exact ⟨1, Int.cast_one.symm⟩

variable {routine : Nat → Routine Rat} {form : Quadratic Rat} {count : Nat} {node : Node Rat}
  {relaxed : Relaxed Rat}

/-- A relaxation that answers has asked its routine about the node's box, and takes its point. -/
theorem relaxer_asks (h : relaxer routine form count node = .ok relaxed) :
    ∃ problem outcome, node.bounds form.size = .ok problem.box ∧
      routine count problem = .ok outcome ∧ relaxed.x = outcome.x ∧
      relaxed.objective = (Program.ofForm form).objective outcome.x := by
  obtain ⟨problem, hproblem, h⟩ := bind_eq_ok_iff.1 h
  obtain ⟨outcome, houtcome, h⟩ := bind_eq_ok_iff.1 h
  obtain ⟨box, hbox, hproblem⟩ := bind_eq_ok_iff.1 hproblem
  obtain ⟨x, -, hproblem⟩ := bind_eq_ok_iff.1 hproblem
  cases h
  refine ⟨problem, outcome, ?_, houtcome, rfl, rfl⟩
  split at hproblem
  · cases hproblem
  · split at hproblem
    · cases hproblem
    · cases hproblem
      exact hbox

/-- A relaxation that answers has a box, and its objective is the form's value at its point. -/
theorem relaxer_answers (h : relaxer routine form count node = .ok relaxed)
    (hx : relaxed.x.length = form.size) :
    (∃ box, node.bounds form.size = .ok box) ∧ relaxed.objective = form.value relaxed.x := by
  obtain ⟨problem, outcome, hbox, -, hpoint, hobjective⟩ := relaxer_asks h
  rw [hobjective, hpoint]
  exact ⟨⟨problem.box, hbox⟩, Program.objective_ofForm form (hpoint ▸ hx)⟩

/-- A point in the box of a node has the value left at each place, and a value of the unit range
where there is none. -/
theorem inside_entry {n : Nat} {box : List (Rat × Rat)} (hbox : node.bounds n = .ok box)
    {x : List Rat} (hx : List.Forall₂ (fun range e => range.1 ≤ e ∧ e ≤ range.2) box x) {i : Nat}
    (hi : i < n) : ∃ e, x[i]? = some e ∧
      (∀ v, pinned n i node.fixed.entries = some v → e = v) ∧
      (pinned n i node.fixed.entries = none → 0 ≤ e ∧ e ≤ 1) := by
  have hrange := Node.getElem?_bounds hbox hi
  obtain ⟨hlt, hends⟩ := List.getElem?_eq_some_iff.1 hrange
  have hlt' : i < x.length := hx.length_eq ▸ hlt
  have hentry := hx.get hlt hlt'
  simp only [List.get_eq_getElem, hends] at hentry
  refine ⟨x[i], List.getElem?_eq_getElem hlt', fun v hv => ?_, fun hnone => ?_⟩
  · rw [hv] at hentry
    exact le_antisymm hentry.2 hentry.1
  · rw [hnone] at hentry
    exact hentry

/-- A point in the box of a node has the fixed values. -/
theorem inside_agrees {n : Nat} {box : List (Rat × Rat)} (hbox : node.bounds n = .ok box)
    (hin : node.fixed.Within n) {x : List Rat}
    (hx : List.Forall₂ (fun range e => range.1 ≤ e ∧ e ≤ range.2) box x) :
    ∀ i < n, ∀ v, node.fixed.get? i = some v → x[i]? = some v := by
  intro i hi v hv
  obtain ⟨e, he, hfixed, -⟩ := inside_entry hbox hx hi
  rw [he, hfixed v (by rw [pinned_eq_get? hin hi, hv])]

/-- **A complete node has one point.** Where every variable is fixed, the relaxation's point is the
binary point that is left, and rounding keeps it. -/
theorem leaf_binary (h : relaxer routine form count node = .ok relaxed)
    {best : Option (Incumbent Rat)} (hs : Supports form ⟨node, relaxed, best⟩)
    (hbinary : node.fixed.Binary form.size) (hfull : node.fixed.size = form.size) :
    relaxed.x.map Scalar.round ∈ node.fixed.binaryPoints form.size ∧
      form.evaluate (relaxed.x.map Scalar.round) = .ok relaxed.objective := by
  obtain ⟨⟨box, hbox⟩, hvalue⟩ := relaxer_answers h hs.length
  have hagrees := inside_agrees hbox hbinary.within (hs.inside box hbox)
  have hmem : relaxed.x ∈ node.fixed.binaryPoints form.size :=
    binary_of_agrees hbinary hfull hs.length hagrees
  rw [map_round_binary hmem.2.1]
  refine ⟨hmem, ?_⟩
  rw [Quadratic.evaluate, if_pos hs.length, hvalue]

/-- A point below a node on the stack lies below one of the children that take the node's place. -/
theorem children_cover {n i : Nat} (hi : i ∈ node.fixed.unfixed n) {rest : List (Node Rat)}
    {y : List Rat} (h : ∃ m ∈ node :: rest, y ∈ m.fixed.binaryPoints n) :
    ∃ m ∈ children ⟨some relaxed.objective, relaxed.x, node.fixed⟩ i ++ rest,
      y ∈ m.fixed.binaryPoints n := by
  obtain ⟨m, hm, hmy⟩ := h
  rcases List.mem_cons.1 hm with rfl | hm
  · rcases binaryPoints_split hi hmy with hzero | hone
    · exact ⟨_, List.mem_cons_of_mem _ List.mem_cons_self, hzero⟩
    · exact ⟨_, List.mem_cons_self, hone⟩
  · exact ⟨m, List.mem_append_right _ hm, hmy⟩

section Visits

variable {base : Fixings Rat} {rest : List (Node Rat)} {visited : Nat}
  {best : Option (Incumbent Rat)}

theorem bounded_start (form : Quadratic Rat) (base : Fixings Rat) :
    Bounded form base (start form.size base) where
  below node hnode := by
    obtain rfl := List.mem_singleton.1 hnode
    exact .refl base form.size
  bounds node hnode b hb := by
    obtain rfl := List.mem_singleton.1 hnode
    cases hb
  covered y hy := .inr ⟨_, List.mem_singleton_self _, hy⟩
  incumbent best hbest := by cases hbest

/-- A dropped node has no point that undercuts the incumbent. -/
theorem pruned_bounded (h : Bounded form base ⟨node :: rest, visited, best⟩)
    (hs : Supports form ⟨node, relaxed, best⟩) (hd : dominated best relaxed.objective = true) :
    Bounded form base ⟨rest, visited + 1, best⟩ := by
  refine ⟨fun m hm => h.below m (List.mem_cons_of_mem _ hm),
    fun m hm => h.bounds m (List.mem_cons_of_mem _ hm), fun y hy => ?_, h.incumbent⟩
  rcases h.covered y hy with hbest | ⟨m, hm, hmy⟩
  · exact .inl hbest
  · rcases List.mem_cons.1 hm with rfl | hm
    · obtain ⟨b, hb, hle⟩ := dominated_iff.1 hd
      exact .inl ⟨b, hb, hle.trans (hs.support y hmy)⟩
    · exact .inr ⟨m, hm, hmy⟩

/-- A new incumbent undercuts the old one and every point below its node. -/
theorem complete_bounded (h : Bounded form base ⟨node :: rest, visited, best⟩)
    (hs : Supports form ⟨node, relaxed, best⟩) (hd : dominated best relaxed.objective = false)
    {x : List Rat} (hx : x ∈ node.fixed.binaryPoints form.size)
    (hvalue : form.evaluate x = .ok relaxed.objective) :
    Bounded form base ⟨rest, visited + 1, some ⟨x, relaxed.objective⟩⟩ := by
  refine ⟨fun m hm => h.below m (List.mem_cons_of_mem _ hm),
    fun m hm => h.bounds m (List.mem_cons_of_mem _ hm), fun y hy => ?_, ?_⟩
  · rcases h.covered y hy with ⟨b, hb, hle⟩ | ⟨m, hm, hmy⟩
    · exact .inl ⟨_, rfl, (le_of_lt (undercuts hd b hb)).trans hle⟩
    · rcases List.mem_cons.1 hm with rfl | hm
      · exact .inl ⟨_, rfl, hs.support y hmy⟩
      · exact .inr ⟨m, hm, hmy⟩
  · rintro b hb
    cases hb
    exact ⟨(h.below node List.mem_cons_self).binaryPoints_subset hx, hvalue⟩

/-- The children of a node share out its points, and take over the value that none undercuts. -/
theorem branched_bounded (h : Bounded form base ⟨node :: rest, visited, best⟩)
    (hs : Supports form ⟨node, relaxed, best⟩) {i : Nat}
    (hi : i ∈ node.fixed.unfixed form.size) :
    Bounded form base ⟨children ⟨some relaxed.objective, relaxed.x, node.fixed⟩ i ++ rest,
      visited + 1, best⟩ := by
  have child {m : Node Rat} (hm : m ∈ children ⟨some relaxed.objective, relaxed.x, node.fixed⟩ i) :
      m.lowerBound = some relaxed.objective ∧ node.fixed.Extends m.fixed form.size := by
    refine ⟨?_, children_extend hi hm⟩
    rw [children, List.mem_pair] at hm
    rcases hm with rfl | rfl <;> rfl
  refine ⟨?_, ?_, fun y hy => ?_, h.incumbent⟩
  · rw [List.forall_mem_append]
    refine ⟨fun m hm => ?_, fun m hm => h.below m (List.mem_cons_of_mem _ hm)⟩
    exact (h.below node List.mem_cons_self).trans (child hm).2
  · rw [List.forall_mem_append]
    refine ⟨fun m hm b hb y hy => ?_, fun m hm => h.bounds m (List.mem_cons_of_mem _ hm)⟩
    obtain ⟨hbound, hextends⟩ := child hm
    rw [hbound] at hb
    cases hb
    exact hs.support y (hextends.binaryPoints_subset hy)
  · rcases h.covered y hy with hbest | hstack
    · exact .inl hbest
    · exact .inr (children_cover hi hstack)

theorem visit_bounded {state next : State Rat} (hb : base.Binary form.size)
    (h : Bounded form base state) (hstack : state.stack = node :: rest)
    (hrelax : relaxer routine form count node = .ok relaxed)
    (hs : Supports form ⟨node, relaxed, state.best⟩)
    (hleaves : Leaves form.size state node rest relaxed next) : Bounded form base next := by
  obtain ⟨stack, visited, best⟩ := state
  obtain rfl : stack = node :: rest := hstack
  cases hleaves with
  | pruned hd => exact pruned_bounded h hs hd
  | complete hd hsize =>
    have hbinary := (h.below node List.mem_cons_self).binary hb
    obtain ⟨hx, hvalue⟩ := leaf_binary hrelax hs hbinary hsize
    exact complete_bounded h hs hd hx hvalue
  | branched _ _ i hi => exact branched_bounded h hs hi

end Visits

section Bracket

variable {base : Fixings Rat} {state : State Rat} {optimum : Rat}

/-- The least value of a form over the binary points below the root lies in sight of a search. -/
structure Bracketed (form : Quadratic Rat) (base : Fixings Rat) (state : State Rat)
    (optimum : Rat) : Prop where
  bounds : ∀ node ∈ state.stack, ∀ y ∈ node.fixed.binaryPoints form.size,
    bound node ≤ form.value y
  lower : min state.bestObjective state.leastBound ≤ optimum
  upper : optimum ≤ state.bestObjective
  incumbent : ∀ best ∈ state.best,
    best.x ∈ base.binaryPoints form.size ∧ form.evaluate best.x = .ok best.objective
  finished : state.stack = [] → state.bestObjective = optimum

theorem leastBound_le (h : node ∈ state.stack) : state.leastBound ≤ bound node := by
  obtain ⟨stack, visited, best⟩ := state
  change node ∈ stack at h
  unfold State.leastBound
  induction stack with
  | nil => cases h
  | cons top rest ih =>
    rw [List.foldr_cons]
    rcases List.mem_cons.1 h with rfl | hlater
    · exact min_le_left _ _
    · exact (min_le_right _ _).trans (ih hlater)

theorem bound_le {q : Rat} (h : ∀ b ∈ node.lowerBound, b ≤ q) : bound node ≤ q := by
  unfold bound
  cases hb : node.lowerBound with
  | none => exact bot_le
  | some b => exact WithBotTop.coe_le_coe.2 (h b hb)

theorem evaluate_eq_ok {x : List Rat} {value : Rat} (h : form.evaluate x = .ok value) :
    form.value x = value := by
  unfold Quadratic.evaluate at h
  split at h
  · exact Except.ok.inj h
  · cases h

theorem Bounded.bracketed (h : Bounded form base state)
    (hleast : IsLeast (form.value '' base.binaryPoints form.size) optimum) :
    Bracketed form base state optimum := by
  have bounds (m : Node Rat) (hm : m ∈ state.stack) {y : List Rat}
      (hy : y ∈ m.fixed.binaryPoints form.size) : bound m ≤ form.value y :=
    bound_le fun b hb => h.bounds m hm b hb y hy
  have lower : min state.bestObjective state.leastBound ≤ optimum := by
    obtain ⟨⟨y, hy, rfl⟩, -⟩ := hleast
    rcases h.covered y hy with ⟨best, hbest, hle⟩ | ⟨m, hm, hmy⟩
    · apply (min_le_left _ _).trans
      rw [State.bestObjective, Option.mem_def.1 hbest]
      exact WithBotTop.coe_le_coe.2 hle
    · exact (min_le_right _ _).trans ((leastBound_le hm).trans (bounds m hm hmy))
  have upper : optimum ≤ state.bestObjective := by
    unfold State.bestObjective
    cases hbest : state.best with
    | none => exact le_top
    | some best =>
      obtain ⟨hx, hvalue⟩ := h.incumbent best hbest
      have hle := hleast.2 (Set.mem_image_of_mem form.value hx)
      rw [evaluate_eq_ok hvalue] at hle
      exact WithBotTop.coe_le_coe.2 hle
  refine ⟨fun m hm y hy => bounds m hm hy, lower, upper, h.incumbent, fun hempty => ?_⟩
  have hnone : state.leastBound = ⊤ := by
    rw [State.leastBound, hempty]
    rfl
  rw [hnone, min_eq_left le_top] at lower
  exact le_antisymm lower upper

end Bracket

/-- **The optimum is never lost.** The minimising routine may answer as it likes, within the box of
the node and without a binary point below the node that undercuts its answer. At every loop head,
wherever the clock stops the search, the least value over the binary points below the root is then
between the incumbent's value and the lesser of that and all bounds on the stack. The search fails
only where a relaxation does. -/
theorem optimum_bracketed (routine : Nat → Routine Rat) (form : Quadratic Rat)
    (options : Options Rat) (clock : Nat → Bool) (fuel : Nat) (hseed : 0 ≤ options.seed)
    (hfixed : options.fixed.Binary form.size)
    (hsupports : ∀ v ∈ journal (relaxer routine form) form options clock fuel
      (start form.size options.fixed), Supports form v) :
    ∃ optimum, IsLeast (form.value '' options.fixed.binaryPoints form.size) optimum ∧
      (∀ s, run (relaxer routine form) form options clock fuel (start form.size options.fixed)
        = .ok s → Bracketed form options.fixed s optimum) ∧
      (∀ fault, run (relaxer routine form) form options clock fuel
        (start form.size options.fixed) = .error fault →
        ∃ count node, relaxer routine form count node = .error fault) := by
  obtain ⟨optimum, hleast⟩ := exists_optimum hfixed form.value
  have step : ∀ state (past : List (Visit Rat)) node rest relaxed,
      Bounded form options.fixed state → state.stack = node :: rest →
      relaxer routine form (state.visited + 1) node = .ok relaxed →
      Supports form ⟨node, relaxed, state.best⟩ →
      ∃ next, visit (relaxer routine form) form options state node rest = .ok next ∧
        Bounded form options.fixed next := by
    intro state past node rest relaxed h hstack hrelax hs
    have hnode : node ∈ state.stack := by
      rw [hstack]
      exact List.mem_cons_self
    have hin := (h.below node hnode).within hfixed.within
    obtain ⟨next, hnext, hleaves⟩ := visit_spec hrelax hs.length hin hseed
    exact ⟨next, hnext, visit_bounded hfixed h hstack hrelax hs hleaves⟩
  obtain ⟨kept, failed⟩ := run_keeps (fun state _ => Bounded form options.fixed state) step
    [] (bounded_start form options.fixed) hsupports
  exact ⟨optimum, hleast, fun s hs => (kept s hs).bracketed hleast, failed⟩

/-- One variable with the value `x² - 3x`, which falls on the whole box. -/
def fallingForm : Quadratic Rat := ⟨⟨1, [[(0, 2)]], by decide⟩, [-3], rfl, rfl⟩

def fallingOptions : Options Rat := ⟨Fixings.empty, .bestApproximation, 10, 0⟩

/-- Answers with the upper ends of the box. -/
def upperEnds : Routine Rat := fun p => .ok ⟨p.box.map Prod.snd, true, 0⟩

def fallingVisits : List (Visit Rat) := journal (relaxer (fun _ => upperEnds) fallingForm)
  fallingForm fallingOptions (fun _ => true) 4 (start 1 fallingOptions.fixed)

/-- The root is branched, its child at one becomes the incumbent, and that at zero is dropped. -/
theorem fallingVisits_eq : fallingVisits =
    [⟨root 1 Fixings.empty, ⟨[1], -2, .optimal, 0⟩, none⟩,
      ⟨⟨some (-2), [1], Fixings.empty.insert 0 1⟩, ⟨[1], -2, .optimal, 0⟩, none⟩,
      ⟨⟨some (-2), [1], Fixings.empty.insert 0 0⟩, ⟨[0], 0, .optimal, 0⟩, some ⟨[1], -2⟩⟩] := by
  decide +kernel

theorem fallingVisits_support {v : Visit Rat} (hv : v ∈ fallingVisits) :
    Supports fallingForm v := by
  have zero : fallingForm.value [0] = 0 := by decide +kernel
  have one : fallingForm.value [1] = -2 := by decide +kernel
  have ends {f : Fixings Rat} {y : List Rat} (hy : y ∈ f.binaryPoints 1) : y = [0] ∨ y = [1] := by
    simpa [corners] using mem_corners.2 ⟨hy.1, hy.2.1⟩
  have least {f : Fixings Rat} {y : List Rat} (hy : y ∈ f.binaryPoints 1) :
      -2 ≤ fallingForm.value y := by
    rcases ends hy with rfl | rfl
    · rw [zero]
      norm_num
    · rw [one]
  rw [fallingVisits_eq] at hv
  simp only [List.mem_cons, List.not_mem_nil, or_false] at hv
  rcases hv with rfl | rfl | rfl
  · refine ⟨rfl, fun box hbox => ?_, fun y hy => least hy⟩
    cases hbox
    exact .cons ⟨by norm_num, by norm_num⟩ .nil
  · refine ⟨rfl, fun box hbox => ?_, fun y hy => least hy⟩
    cases hbox
    exact .cons ⟨by norm_num, by norm_num⟩ .nil
  · refine ⟨rfl, fun box hbox => ?_, fun y hy => ?_⟩
    · cases hbox
      exact .cons ⟨by norm_num, by norm_num⟩ .nil
    · have hholds := hy.2.2
      rcases ends hy with rfl | rfl
      · rw [zero]
      · revert hholds
        decide +kernel

/-- Both children are visited, and the one at one is kept. -/
def fallingEnd : State Rat := ⟨[], 3, some ⟨[1], -2⟩⟩

theorem optimum_bracketed_falling : 0 ≤ fallingOptions.seed ∧
    fallingOptions.fixed.Binary fallingForm.size ∧
    (∀ v ∈ fallingVisits, Supports fallingForm v) ∧
    IsLeast (fallingForm.value '' fallingOptions.fixed.binaryPoints 1) (-2) ∧
    run (relaxer (fun _ => upperEnds) fallingForm) fallingForm fallingOptions (fun _ => true) 4
      (start 1 fallingOptions.fixed) = .ok fallingEnd ∧
    Bracketed fallingForm fallingOptions.fixed fallingEnd (-2) := by
  have seeded : 0 ≤ fallingOptions.seed := by decide
  have binary : fallingOptions.fixed.Binary fallingForm.size := nofun
  have support : ∀ v ∈ fallingVisits, Supports fallingForm v := fun _ => fallingVisits_support
  have finish : run (relaxer (fun _ => upperEnds) fallingForm) fallingForm fallingOptions
      (fun _ => true) 4 (start 1 fallingOptions.fixed) = .ok fallingEnd := by
    decide +kernel
  obtain ⟨optimum, hleast, kept, -⟩ := optimum_bracketed (fun _ => upperEnds) fallingForm
    fallingOptions (fun _ => true) 4 seeded binary support
  have hvalue : ((-2 : Rat) : Extended) = optimum := (kept _ finish).finished rfl
  obtain rfl : (-2 : Rat) = optimum := WithBotTop.coe_injective hvalue
  exact ⟨seeded, binary, support, hleast, finish, kept _ finish⟩

end BinaryQuadratic.Search
