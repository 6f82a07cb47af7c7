import Mathlib.Tactic.Linarith
import BinaryQuadratic.Proofs.Search.Optimum

/-!
# What a search records

Searches over the rationals from any fixings: an index may be negative and so mean a variable that
has its own index too, and a value may be any number.

* `Boxed`: what is asked of a relaxation;
* `Visit.Records`: the visit that made an incumbent;
* `Consistent`: an incumbent that is the one binary point of its node, with its value;
* `Recorded`: what an incumbent always is, and what makes it consistent;
* `incumbent_recorded`: the incumbent of a run was recorded by one of its visits;
* `Adrift`, `incumbent_adrift`: negative indices, and values between or beyond zero and one, lead to
  incumbents that are not consistent.
-/

namespace BinaryQuadratic.Search

open Relaxation Fixings

/-- What is asked of a relaxation: a point in the box of its node, and the form's value there. -/
structure Boxed (form : Quadratic Rat) (v : Visit Rat) : Prop where
  inside : ∃ box, v.node.bounds form.size = .ok box ∧
    List.Forall₂ (fun range e => range.1 ≤ e ∧ e ≤ range.2) box v.relaxed.x
  objective : v.relaxed.objective = form.value v.relaxed.x

def Visit.Records (n : Nat) (v : Visit Rat) (best : Incumbent Rat) : Prop :=
  dominated v.best v.relaxed.objective = false ∧ v.node.fixed.size = n ∧
    best = ⟨v.relaxed.x.map Scalar.round, v.relaxed.objective⟩

instance (n : Nat) (v : Visit Rat) (best : Incumbent Rat) : Decidable (v.Records n best) :=
  inferInstanceAs (Decidable (_ ∧ _ ∧ _))

/-- The incumbent is a binary point with the values that the root fixes, recorded with the form's
value at a node that leaves no variable free. -/
structure Consistent (form : Quadratic Rat) (base : Fixings Rat) (v : Visit Rat)
    (best : Incumbent Rat) : Prop where
  covered : ∀ i < form.size, (pinned form.size i v.node.fixed.entries).isSome
  binary : ∀ e ∈ best.x, e = 0 ∨ e = 1
  given : ∀ i < form.size, ∀ q, pinned form.size i base.entries = some q → best.x[i]? = some q
  objective : form.evaluate best.x = .ok best.objective

/-- What an incumbent and its visit are, whatever the root fixes: the node extends the root, and the
incumbent has the rounded value that is left at each place, zero or one at a place without. The last
four fields say what it takes for the rest. -/
structure Recorded (form : Quadratic Rat) (base : Fixings Rat) (v : Visit Rat)
    (best : Incumbent Rat) : Prop where
  below : base.Extends v.node.fixed form.size
  fits : ∀ k ∈ v.node.fixed.indices, -form.size ≤ k ∧ k < form.size
  objective : best.objective = form.value v.relaxed.x
  length : best.x.length = form.size
  fixed : ∀ i < form.size, ∀ q, pinned form.size i v.node.fixed.entries = some q →
    best.x[i]? = some (Scalar.round q)
  free : ∀ i < form.size, pinned form.size i v.node.fixed.entries = none →
    best.x[i]? = some 0 ∨ best.x[i]? = some 1
  given : ∀ i < form.size, (i : Int) ∈ base.indices →
    pinned form.size i v.node.fixed.entries = pinned form.size i base.entries
  binary : (∀ e ∈ base.entries, Scalar.round e.2 = 0 ∨ Scalar.round e.2 = 1) →
    ∀ e ∈ best.x, e = 0 ∨ e = 1
  complete : (∀ k ∈ base.indices, 0 ≤ k) → ∀ i < form.size, (i : Int) ∈ v.node.fixed.indices
  whole : (∀ i < form.size, (pinned form.size i v.node.fixed.entries).isSome) →
    (∀ e ∈ base.entries, ∃ k : Int, e.2 = k) → form.evaluate best.x = .ok best.objective
  consistent : (∀ e ∈ base.entries, 0 ≤ e.1 ∧ (e.2 = 0 ∨ e.2 = 1)) →
    Consistent form base v best

theorem round_unit {e : Rat} (hlow : 0 ≤ e) (hhigh : e ≤ 1) :
    Scalar.round e = 0 ∨ Scalar.round e = 1 := by
  rcases lt_or_eq_of_le hhigh with hlt | rfl
  · have hfloor : e.floor = 0 := by
      have hfrom : 0 ≤ e.floor := Rat.le_floor_iff.2 (by rwa [Int.cast_zero])
      have hbelow : e.floor < 1 := Rat.floor_lt_iff.2 (by rwa [Int.cast_one])
      omega
    change (Scalar.roundRational e : Rat) = 0 ∨ (Scalar.roundRational e : Rat) = 1
    simp only [Scalar.roundRational, hfloor]
    split
    · exact .inl Int.cast_zero
    · split
      · exact .inr Int.cast_one
      · exact .inl Int.cast_zero
  · exact .inr (round_whole 1)

section Entries

variable {form : Quadratic Rat} {base : Fixings Rat} {v : Visit Rat} {best : Incumbent Rat}

theorem Boxed.fits (hb : Boxed form v) :
    ∀ k ∈ v.node.fixed.indices, -form.size ≤ k ∧ k < form.size := by
  obtain ⟨box, hbox, -⟩ := hb.inside
  exact Node.bounds_fit hbox

theorem Boxed.length (hb : Boxed form v) : v.relaxed.x.length = form.size := by
  obtain ⟨box, hbox, hx⟩ := hb.inside
  rw [← hx.length_eq, Node.length_bounds hbox]

theorem Boxed.entry (hb : Boxed form v) {i : Nat} (hi : i < form.size) :
    ∃ e, v.relaxed.x[i]? = some e ∧
      (∀ q, pinned form.size i v.node.fixed.entries = some q → e = q) ∧
      (pinned form.size i v.node.fixed.entries = none → 0 ≤ e ∧ e ≤ 1) := by
  obtain ⟨box, hbox, hx⟩ := hb.inside
  exact inside_entry hbox hx hi

theorem Visit.Records.entry (hr : v.Records form.size best) {i : Nat} {e : Rat}
    (he : v.relaxed.x[i]? = some e) : best.x[i]? = some (Scalar.round e) := by
  obtain ⟨-, -, rfl⟩ := hr
  rw [List.getElem?_map, he, Option.map_some]

theorem recorded_fixed (hb : Boxed form v) (hr : v.Records form.size best) {i : Nat}
    (hi : i < form.size) {q : Rat} (hq : pinned form.size i v.node.fixed.entries = some q) :
    best.x[i]? = some (Scalar.round q) := by
  obtain ⟨e, he, hfixed, -⟩ := hb.entry hi
  rw [hr.entry he, hfixed q hq]

theorem recorded_free (hb : Boxed form v) (hr : v.Records form.size best) {i : Nat}
    (hi : i < form.size) (hnone : pinned form.size i v.node.fixed.entries = none) :
    best.x[i]? = some 0 ∨ best.x[i]? = some 1 := by
  obtain ⟨e, he, -, hunit⟩ := hb.entry hi
  obtain ⟨hlow, hhigh⟩ := hunit hnone
  rw [hr.entry he]
  rcases round_unit hlow hhigh with hzero | hone
  · exact .inl (by rw [hzero])
  · exact .inr (by rw [hone])

theorem recorded_length (hb : Boxed form v) (hr : v.Records form.size best) :
    best.x.length = form.size := by
  obtain ⟨-, -, rfl⟩ := hr
  rw [List.length_map, hb.length]

/-- Where an entry of the point comes from: the root, a branching, or a place left free. -/
theorem Boxed.origin (hb : Boxed form v) (hext : base.Extends v.node.fixed form.size) {e : Rat}
    (he : e ∈ v.relaxed.x) :
    (∃ entry ∈ base.entries, entry.2 = e) ∨ (e = 0 ∨ e = 1) ∨
      ((0 ≤ e ∧ e ≤ 1) ∧ ∃ i < form.size, pinned form.size i v.node.fixed.entries = none) := by
  obtain ⟨i, hentry⟩ := List.mem_iff_getElem?.1 he
  have hi : i < form.size := by
    rw [← hb.length]
    exact (List.getElem?_eq_some_iff.1 hentry).1
  obtain ⟨e', hentry', hfixed, hunit⟩ := hb.entry hi
  obtain rfl : e = e' := Option.some.inj (hentry.symm.trans hentry')
  cases hpinned : pinned form.size i v.node.fixed.entries with
  | none => exact .inr (.inr ⟨hunit hpinned, i, hi, hpinned⟩)
  | some q =>
    obtain rfl := hfixed q hpinned
    obtain ⟨entry, hmem, -, rfl⟩ := exists_of_pinned hpinned
    rcases hext.value hmem with hbase | hbranched
    · exact .inl ⟨entry, hbase, rfl⟩
    · exact .inr (.inl hbranched)

/-- Fixed values that round to zero or one make a binary point. -/
theorem recorded_binary (hb : Boxed form v) (hr : v.Records form.size best)
    (hext : base.Extends v.node.fixed form.size)
    (hround : ∀ e ∈ base.entries, Scalar.round e.2 = 0 ∨ Scalar.round e.2 = 1) :
    ∀ e ∈ best.x, e = 0 ∨ e = 1 := by
  obtain ⟨-, -, rfl⟩ := hr
  rw [List.forall_mem_map]
  intro e he
  rcases hb.origin hext he with ⟨entry, hentry, rfl⟩ | (rfl | rfl) | ⟨⟨hlow, hhigh⟩, -⟩
  · exact hround entry hentry
  · exact .inl (round_whole 0)
  · exact .inr (round_whole 1)
  · exact round_unit hlow hhigh

/-- Without negative indices as many fixings as variables leave no variable out. -/
theorem recorded_complete (hb : Boxed form v) (hr : v.Records form.size best)
    (hext : base.Extends v.node.fixed form.size) (hown : ∀ k ∈ base.indices, 0 ≤ k) :
    v.node.fixed.Within form.size ∧ ∀ i < form.size, (i : Int) ∈ v.node.fixed.indices := by
  have hbase : base.Within form.size := by
    intro k hk
    by_contra hout
    have hmem : k ∈ v.node.fixed.indices := by
      by_contra hfree
      exact hext.not_mem hfree hk
    exact hout ⟨hown k hk, (hb.fits k hmem).2⟩
  have hwithin := hext.within hbase
  exact ⟨hwithin, unfixed_eq_nil_iff.1 ((unfixed_eq_nil_iff_size hwithin).2 hr.2.1)⟩

/-- Where no place is left free and the fixed values are whole, rounding changes nothing. -/
theorem recorded_whole (hb : Boxed form v) (hr : v.Records form.size best)
    (hext : base.Extends v.node.fixed form.size)
    (hcovered : ∀ i < form.size, (pinned form.size i v.node.fixed.entries).isSome)
    (hwhole : ∀ e ∈ base.entries, ∃ k : Int, e.2 = k) :
    form.evaluate best.x = .ok best.objective := by
  have entries : ∀ e ∈ v.relaxed.x, ∃ k : Int, e = k := by
    intro e he
    rcases hb.origin hext he with ⟨entry, hentry, rfl⟩ | (rfl | rfl) | ⟨-, i, hi, hnone⟩
    · exact hwhole entry hentry
    · exact ⟨0, Int.cast_zero.symm⟩
    · exact ⟨1, Int.cast_one.symm⟩
    · have hpinned := hcovered i hi
      rw [hnone] at hpinned
      cases hpinned
  obtain ⟨-, -, rfl⟩ := hr
  rw [map_round_whole entries, Quadratic.evaluate, if_pos hb.length, hb.objective]

/-- Variables fixed under their own index, at zero or one, lead to consistent incumbents. -/
theorem recorded_consistent (hb : Boxed form v) (hr : v.Records form.size best)
    (hext : base.Extends v.node.fixed form.size)
    (hplain : ∀ e ∈ base.entries, 0 ≤ e.1 ∧ (e.2 = 0 ∨ e.2 = 1)) :
    Consistent form base v best := by
  have own : ∀ k ∈ base.indices, 0 ≤ k := by
    unfold indices
    rw [List.forall_mem_map]
    exact fun e he => (hplain e he).1
  have whole : ∀ e ∈ base.entries, ∃ k : Int, e.2 = k := by
    intro e he
    rcases (hplain e he).2 with hzero | hone
    · exact ⟨0, by rw [hzero, Int.cast_zero]⟩
    · exact ⟨1, by rw [hone, Int.cast_one]⟩
  have kept : ∀ e ∈ base.entries, Scalar.round e.2 = e.2 := by
    intro e he
    obtain ⟨k, hk⟩ := whole e he
    rw [hk, round_whole]
  obtain ⟨hwithin, hfull⟩ := recorded_complete hb hr hext own
  have covered : ∀ i < form.size, (pinned form.size i v.node.fixed.entries).isSome := by
    intro i hi
    rw [pinned_eq_get? hwithin hi, Option.isSome_iff_ne_none, ne_eq, get?_eq_none_iff]
    exact fun hfree => hfree (hfull i hi)
  refine ⟨covered, recorded_binary hb hr hext fun e he => ?_, fun i hi q hq => ?_,
    recorded_whole hb hr hext covered whole⟩
  · rw [kept e he]
    exact (hplain e he).2
  · obtain ⟨entry, hmem, hplace, rfl⟩ := exists_of_pinned hq
    have hindex : entry.1 ∈ base.indices := List.mem_map_of_mem hmem
    have hi' : (i : Int) ∈ base.indices := by
      rcases (place_eq_some_iff.1 hplace).2 with heq | hneg
      · rwa [← heq]
      · have := own entry.1 hindex
        omega
    rw [recorded_fixed hb hr hi (hext.pinned_own hi' ▸ hq), kept entry hmem]

theorem recorded_of_boxed (hb : Boxed form v) (hr : v.Records form.size best)
    (hext : base.Extends v.node.fixed form.size) : Recorded form base v best where
  below := hext
  fits := hb.fits
  objective := by
    obtain ⟨-, -, rfl⟩ := hr
    exact hb.objective
  length := recorded_length hb hr
  fixed i hi q hq := recorded_fixed hb hr hi hq
  free i hi hnone := recorded_free hb hr hi hnone
  given i _ hown := hext.pinned_own hown
  binary := recorded_binary hb hr hext
  complete hown := (recorded_complete hb hr hext hown).2
  whole := recorded_whole hb hr hext
  consistent := recorded_consistent hb hr hext

end Entries

variable {relax : Relaxer Rat} {form : Quadratic Rat} {options : Options Rat}
  {clock : Nat → Bool} {base : Fixings Rat} {state : State Rat} {past : List (Visit Rat)}

/-- What every visit keeps: all nodes extend the root, and a visit recorded the incumbent. -/
structure Traced (n : Nat) (base : Fixings Rat) (state : State Rat) (past : List (Visit Rat)) :
    Prop where
  below : ∀ node ∈ state.stack, base.Extends node.fixed n
  recorded : ∀ best ∈ state.best, ∃ v ∈ past, v.Records n best ∧ base.Extends v.node.fixed n

theorem traced_start (n : Nat) (base : Fixings Rat) : Traced n base (start n base) [] where
  below node hnode := by
    obtain rfl := List.mem_singleton.1 hnode
    exact .refl base n
  recorded best hbest := by cases hbest

theorem visit_traced {node : Node Rat} {rest : List (Node Rat)} {relaxed : Relaxed Rat}
    {next : State Rat} (h : Traced form.size base state past) (hstack : state.stack = node :: rest)
    (hleaves : Leaves form.size state node rest relaxed next) :
    Traced form.size base next (past ++ [⟨node, relaxed, state.best⟩]) := by
  have hbelow := h.below
  rw [hstack, List.forall_mem_cons] at hbelow
  have before : ∀ best ∈ state.best, ∃ v ∈ past ++ [⟨node, relaxed, state.best⟩],
      v.Records form.size best ∧ base.Extends v.node.fixed form.size := by
    intro best hbest
    obtain ⟨v, hv, hrecords⟩ := h.recorded best hbest
    exact ⟨v, List.mem_append_left _ hv, hrecords⟩
  cases hleaves with
  | pruned hd => exact ⟨hbelow.2, before⟩
  | complete hd hsize =>
    refine ⟨hbelow.2, fun best hbest => ?_⟩
    cases hbest
    exact ⟨_, List.mem_append_right _ (List.mem_singleton_self _), ⟨hd, hsize, rfl⟩, hbelow.1⟩
  | branched hd hsize i hi =>
    refine ⟨?_, before⟩
    rw [List.forall_mem_append]
    exact ⟨fun m hm => hbelow.1.trans (children_extend hi hm), hbelow.2⟩

/-- **The incumbent is on record.** Let the root fix any indices at any values, and let every
relaxation answer with a point of its node's box and with the form's value there. An incumbent was
recorded by one of the visits, at a node that extends the root by variables at zero or one. It has
the rounded values of that node, and the form's value before rounding. Its point is binary where the
root's values round to zero or one; its value is its point's where no variable is left out and the
root's values are whole; and no variable is left out where the root has no negative index. -/
theorem incumbent_recorded {fuel : Nat}
    (hboxed : ∀ v ∈ journal relax form options clock fuel (start form.size options.fixed),
      Boxed form v) {s : State Rat}
    (hrun : run relax form options clock fuel (start form.size options.fixed) = .ok s)
    {best : Incumbent Rat} (hbest : s.best = some best) :
    ∃ v ∈ journal relax form options clock fuel (start form.size options.fixed),
      v.Records form.size best ∧ Recorded form options.fixed v best := by
  have step : ∀ state past node rest relaxed next,
      Traced form.size options.fixed state past → state.stack = node :: rest →
      relax (state.visited + 1) node = .ok relaxed → True →
      visit relax form options state node rest = .ok next →
      Traced form.size options.fixed next (past ++ [⟨node, relaxed, state.best⟩]) := by
    intro state past node rest relaxed next h hstack hrelax _ hvisit
    obtain ⟨relaxed', hrelax', hleaves⟩ := visit_leaves hvisit
    obtain rfl : relaxed' = relaxed := Except.ok.inj (hrelax'.symm.trans hrelax)
    exact visit_traced h hstack hleaves
  have traced := run_invariant (Traced form.size options.fixed) step []
    (traced_start form.size options.fixed) (fun _ _ => trivial) hrun
  obtain ⟨v, hv, hrecords, hext⟩ := traced.recorded best hbest
  exact ⟨v, hv, hrecords, recorded_of_boxed (hboxed v hv) hrecords hext⟩

theorem bounds_ordered {node : Node Rat} {n : Nat} {box : List (Rat × Rat)}
    (hbox : node.bounds n = .ok box) : ∀ range ∈ box, range.1 ≤ range.2 := by
  intro range hrange
  obtain ⟨i, hi⟩ := List.mem_iff_getElem?.1 hrange
  have hlt : i < n := by
    rw [← Node.length_bounds hbox]
    exact (List.getElem?_eq_some_iff.1 hi).1
  rw [Node.getElem?_bounds hbox hlt, Option.some.injEq] at hi
  rw [← hi]
  cases pinned n i node.fixed.entries with
  | none => exact zero_le_one
  | some v => exact le_refl v

/-- A routine that answers within the ranges it is given does what is asked of a relaxation. -/
theorem boxed_of_inside {routine : Nat → Routine Rat}
    (hroutine : ∀ count problem outcome, (∀ range ∈ problem.box, range.1 ≤ range.2) →
      routine count problem = .ok outcome →
      List.Forall₂ (fun range e => range.1 ≤ e ∧ e ≤ range.2) problem.box outcome.x)
    {fuel : Nat} {v : Visit Rat}
    (hv : v ∈ journal (relaxer routine form) form options clock fuel state) : Boxed form v := by
  obtain ⟨count, hrelax⟩ := journal_relaxed hv
  obtain ⟨problem, outcome, hbox, houtcome, hpoint, hobjective⟩ := relaxer_asks hrelax
  have inside := hroutine count problem outcome (bounds_ordered hbox) houtcome
  have length : outcome.x.length = form.size := by
    rw [← inside.length_eq, Node.length_bounds hbox]
  refine ⟨⟨problem.box, hbox, hpoint ▸ inside⟩, ?_⟩
  rw [hobjective, hpoint, Program.objective_ofForm form length]

/-- Answers three tenths of the way up each range. -/
def slanted : Routine Rat := fun p =>
  .ok ⟨p.box.map fun range => range.1 + 3 / 10 * (range.2 - range.1), true, 1⟩

theorem slanted_inside (problem : Problem Rat) (outcome : Outcome Rat)
    (hordered : ∀ range ∈ problem.box, range.1 ≤ range.2) (h : slanted problem = .ok outcome) :
    List.Forall₂ (fun range e => range.1 ≤ e ∧ e ≤ range.2) problem.box outcome.x := by
  cases h
  rw [List.forall₂_map_right_iff, List.forall₂_same]
  intro range hrange
  have := hordered range hrange
  constructor <;> linarith

def slantedVisits (form : Quadratic Rat) (options : Options Rat) : List (Visit Rat) :=
  journal (relaxer (fun _ => slanted) form) form options (fun _ => true) (visitLimit form.size)
    (start form.size options.fixed)

def fixing (k : Int) (q : Rat) : Options Rat :=
  ⟨⟨[(k, q)], List.nodup_singleton k⟩, .firstNotFixed, 100, 0⟩

/-- Two variables that do not interact, least at zero and at three tenths. -/
def apartForm : Quadratic Rat := ⟨⟨2, [[(0, 2)], [(1, 2)]], by decide⟩, [1, -3 / 5], rfl, rfl⟩

/-- The second variable is fixed far outside the unit range. -/
theorem incumbent_recorded_apart :
    (∀ v ∈ slantedVisits apartForm (fixing 1 3), Boxed apartForm v) ∧
    solve (fun _ => slanted) apartForm (fixing 1 3) (fun _ => true)
      = .ok ⟨[], 3, some ⟨[0, 3], 36 / 5⟩⟩ ∧
    ∃ v ∈ slantedVisits apartForm (fixing 1 3), v.Records 2 ⟨[0, 3], 36 / 5⟩ ∧
      Recorded apartForm (fixing 1 3).fixed v ⟨[0, 3], 36 / 5⟩ := by
  have boxed : ∀ v ∈ slantedVisits apartForm (fixing 1 3), Boxed apartForm v :=
    fun _ hv => boxed_of_inside (fun _ => slanted_inside) hv
  have finish : solve (fun _ => slanted) apartForm (fixing 1 3) (fun _ => true)
      = .ok ⟨[], 3, some ⟨[0, 3], 36 / 5⟩⟩ := by
    decide +kernel
  exact ⟨boxed, finish, incumbent_recorded boxed finish rfl⟩

/-- Options of doubles and options with the same values, exactly. -/
structure Exact (given : Options Float) (options : Options Rat) : Prop where
  fixed : List.Forall₂ (fun e q => e.1 = q.1 ∧ Double.toRational? e.2 = some q.2)
    given.fixed.entries options.fixed.entries
  strategy : given.strategy = options.strategy
  maxTime : Double.toRational? given.maxTime = some options.maxTime
  seed : given.seed = options.seed

/-- Options that can be read, under which a search with all that is asked of its relaxations ends
with an incumbent, and none of its visits recorded that incumbent consistently. -/
structure Adrift (pairs : List (Plain × Plain)) (form : Quadratic Rat) (options : Options Rat)
    (best : Incumbent Rat) : Prop where
  readable : ∃ given, Options.ofPairs pairs = .ok given ∧ Exact given options
  boxed : ∀ v ∈ slantedVisits form options, Boxed form v
  answer : ∃ s, solve (fun _ => slanted) form options (fun _ => true) = .ok s ∧
    s.stack = [] ∧ s.best = some best
  inconsistent : ¬∃ v ∈ slantedVisits form options,
    v.Records form.size best ∧ Consistent form options.fixed v best

def fixingPairs (k : Int) (value : Plain) : List (Plain × Plain) :=
  [(.text Options.fixedName, .map [(.integer k, value)]),
    (.text Options.strategyName, .text Strategy.firstNotFixed.name)]

/-- One variable with the value `x² - x`. -/
def wellForm : Quadratic Rat := { fallingForm with linear := [-1], fits := rfl }

theorem adrift_of {k : Int} {value : Plain} (x : Float) {q : Rat} {form : Quadratic Rat}
    (visited : Nat) {best : Incumbent Rat}
    (hread : Options.ofPairs (fixingPairs k value)
      = .ok ⟨⟨[(k, x)], List.nodup_singleton k⟩, .firstNotFixed, 100, 0⟩)
    (hx : Double.toRational? x = some q)
    (hanswer : solve (fun _ => slanted) form (fixing k q) (fun _ => true)
      = .ok ⟨[], visited, some best⟩)
    (hdrift : ∀ v, ¬Consistent form (fixing k q).fixed v best) :
    Adrift (fixingPairs k value) form (fixing k q) best where
  readable := by
    have limit : Double.toRational? 100 = some 100 := by decide +kernel
    exact ⟨_, hread, .cons ⟨rfl, hx⟩ .nil, rfl, limit, rfl⟩
  boxed _ hv := boxed_of_inside (fun _ => slanted_inside) hv
  answer := ⟨_, hanswer, rfl, rfl⟩
  inconsistent := by
    rintro ⟨v, -, -, hconsistent⟩
    exact hdrift v hconsistent

/-- **Incumbents can drift from their visits.** An index that counts from the end is no variable's
own: the search fixes that variable once more, and leaves another one free, whose entry is rounded
after the value was taken. A value between zero and one is rounded away, and one beyond them
stays. -/
theorem incumbent_adrift :
    Adrift (fixingPairs (-2) (.integer 1)) apartForm (fixing (-2) 1) ⟨[0, 0], -9 / 100⟩ ∧
    (∀ v ∈ slantedVisits apartForm (fixing (-2) 1), v.Records 2 ⟨[0, 0], -9 / 100⟩ →
      pinned 2 1 v.node.fixed.entries = none) ∧
    Adrift (fixingPairs 0 (.float 0.5)) wellForm (fixing 0 (1 / 2)) ⟨[0], -1 / 4⟩ ∧
    Adrift (fixingPairs 0 (.integer 2)) wellForm (fixing 0 2) ⟨[2], 2⟩ := by
  refine ⟨?_, by decide +kernel, ?_, ?_⟩
  · refine adrift_of 1 3 (by decide +kernel) (by decide +kernel)
      (by decide +kernel) fun v hconsistent => ?_
    have kept := hconsistent.given 0 (by decide) 1 (by decide +kernel)
    revert kept
    decide +kernel
  · refine adrift_of 0.5 1 (by decide +kernel) (by decide +kernel)
      (by decide +kernel) fun v hconsistent => ?_
    have worth := hconsistent.objective
    revert worth
    decide +kernel
  · refine adrift_of 2 1 (by decide +kernel) (by decide +kernel)
      (by decide +kernel) fun v hconsistent => ?_
    have binary := hconsistent.binary 2 (List.mem_singleton_self 2)
    revert binary
    decide +kernel

end BinaryQuadratic.Search
