import BinaryQuadratic.Proofs.Approximations
import Mathlib.Data.List.Nodup

/-!
# A random choice as a circular scan

The choice passes the ascending candidates once and falls back to the first one. This is a walk
from the start around the circle of all positions.

* `walk`, `steps`, `walk_ascending`, `find?_walk`: the walk reaches the positions in the order of
  their steps, so that it comes upon the candidate of fewest steps first;
* `arc`, `previous`, `mem_arc_previous_iff`: the positions between two neighbouring candidates;
* `fromStart_least`, `steps_fromStart`: the choice is the candidate of fewest steps;
* `fromStart_eq_iff`, `arcs_perm`: an arc holds the starts that lead to its end, and every start is
  on one arc;
* `Circular`, `random_circular`: all of this for the choice at a node, and what it depends on.
-/

namespace BinaryQuadratic.Branching

open Fixings (mem_unfixed)

/-- The positions below `n` from `start` on, around the end up to the one before `start`. -/
def walk (n start : Nat) : List Nat := List.range' start (n - start) ++ List.range start

/-- How many steps after `start` the walk reaches a position. -/
def steps (n start i : Nat) : Int := ((i : Int) - start) % n

/-- The positions after `p`, around the end if need be, up to and including `i`. -/
def arc (n p i : Nat) : List Nat :=
  if p < i then List.range' (p + 1) (i - p)
  else List.range' (p + 1) (n - (p + 1)) ++ List.range (i + 1)

/-- The candidate before one of them, which is the last of all for the first. -/
def previous (candidates : List Nat) (i : Nat) : Nat :=
  (candidates.filter (· < i)).getLastD (candidates.getLastD i)

/-- The unfixed variable that the walk from `start` comes upon first. -/
structure FirstFrom {α : Type} (f : Fixings α) (n start i : Nat) : Prop where
  among : i ∈ f.unfixed n
  onWalk : (walk n start).find? (fun j : Nat => !f.contains j) = some i
  least : ∀ j ∈ f.unfixed n, j ≠ i → steps n start i < steps n start j

/-- What a choice by a circular scan is for every start. -/
structure Circular {α : Type} (f : Fixings α) (n : Nat) (choice : Nat → Nat) : Prop where
  first : ∀ start < n, FirstFrom f n start (choice start)
  /-- An arc ends with an unfixed variable and has no other. -/
  between : ∀ i ∈ f.unfixed n, previous (f.unfixed n) i ∈ f.unfixed n ∧
    ∀ j ∈ f.unfixed n, j ∈ arc n (previous (f.unfixed n) i) i ↔ j = i
  leads : ∀ i ∈ f.unfixed n, ∀ start < n,
    choice start = i ↔ start ∈ arc n (previous (f.unfixed n) i) i
  partition : ((f.unfixed n).flatMap fun i => arc n (previous (f.unfixed n) i) i).Perm
    (List.range n)
  total : ((f.unfixed n).map fun i => (arc n (previous (f.unfixed n) i) i).length).sum = n

section Positions

variable {n start i p : Nat}

theorem steps_of_le (hi : i < n) (h : start ≤ i) : steps n start i = i - start := by
  rw [steps, Int.emod_eq_of_lt (by omega) (by omega)]

theorem steps_of_lt (hstart : start < n) (h : i < start) : steps n start i = i - start + n := by
  rw [steps, ← Int.add_emod_right, Int.emod_eq_of_lt (by omega) (by omega)]

theorem mem_walk (hstart : start < n) : i ∈ walk n start ↔ i < n := by
  rw [walk, List.mem_append, List.mem_range'_1, List.mem_range]
  omega

/-- The walk goes through the positions in the order of their steps. -/
theorem walk_ascending (hstart : start < n) :
    (walk n start).Pairwise fun i j => steps n start i < steps n start j := by
  refine List.pairwise_append.2 ⟨?_, ?_, fun i hi j hj => ?_⟩
  · refine (List.pairwise_lt_range' 1).imp_of_mem fun {i j} hi hj hlt => ?_
    rw [List.mem_range'_1] at hi hj
    rw [steps_of_le (by omega) hi.1, steps_of_le (by omega) hj.1]
    omega
  · refine List.pairwise_lt_range.imp_of_mem fun {i j} hi hj hlt => ?_
    rw [List.mem_range] at hi hj
    rw [steps_of_lt hstart hi, steps_of_lt hstart hj]
    omega
  · rw [List.mem_range'_1] at hi
    rw [List.mem_range] at hj
    rw [steps_of_le (by omega) hi.1, steps_of_lt hstart hj]
    omega

/-- What is reached in fewer steps than all others is what the walk comes upon first. -/
theorem find?_walk {q : Nat → Bool} (hstart : start < n) (hi : i < n) (hq : q i = true)
    (hleast : ∀ j < n, q j = true → j ≠ i → steps n start i < steps n start j) :
    (walk n start).find? q = some i := by
  cases hf : (walk n start).find? q with
  | none => exact absurd hq (List.find?_eq_none.1 hf i ((mem_walk hstart).2 hi))
  | some k =>
    obtain ⟨hk, before, after, hsplit, hbefore⟩ := List.find?_eq_some_iff_append.1 hf
    have hascending := walk_ascending hstart
    have hmem := (mem_walk hstart).2 hi
    rw [hsplit] at hascending hmem
    -- What comes before `k` is none of those sought, and what comes behind it takes more steps.
    by_contra hne
    have hki : k ≠ i := fun h => hne (h ▸ rfl)
    have hless := hleast k ((mem_walk hstart).1 (List.mem_of_find?_eq_some hf)) hk hki
    rcases List.mem_append.1 hmem with hin | hin
    · have := hbefore i hin
      rw [hq] at this
      cases this
    · have hin := (List.mem_cons.1 hin).resolve_left hki.symm
      have := List.rel_of_pairwise_cons (List.pairwise_append.1 hascending).2.1 hin
      omega

theorem mem_arc (hp : p < n) :
    start ∈ arc n p i ↔
      p < start ∧ start ≤ i ∨ i ≤ p ∧ (p < start ∧ start < n ∨ start ≤ i) := by
  unfold arc
  split
  · rw [List.mem_range'_1]
    omega
  · rw [List.mem_append, List.mem_range'_1, List.mem_range]
    omega

theorem nodup_arc : (arc n p i).Nodup := by
  unfold arc
  split
  · exact List.nodup_range'
  · rename_i h
    refine List.nodup_append.2 ⟨List.nodup_range', List.nodup_range, fun a ha b hb => ?_⟩
    rw [List.mem_range'_1] at ha
    rw [List.mem_range] at hb
    omega

end Positions

section Candidates

variable {first start n i j p : Nat} {candidates rest : List Nat}

theorem fromStart_least (h : (first :: rest).Pairwise (· < ·)) (start : Nat) :
    IsLeast {j | j ∈ first :: rest ∧ start ≤ j} (fromStart start first rest) ∨
      (∀ j ∈ first :: rest, j < start) ∧ fromStart start first rest = first := by
  unfold fromStart
  cases hf : (first :: rest).find? fun i => decide (start ≤ i) with
  | none => exact .inr ⟨by simpa using hf, rfl⟩
  | some i =>
    obtain ⟨hle, before, after, hsplit, hbefore⟩ := List.find?_eq_some_iff_append.1 hf
    refine .inl ⟨⟨List.mem_of_find?_eq_some hf, of_decide_eq_true hle⟩, ?_⟩
    rintro j ⟨hj, hstart⟩
    rw [hsplit] at hj h
    rcases List.mem_append.1 hj with hj | hj
    · have := hbefore j hj
      simp [hstart] at this
    · rcases List.mem_cons.1 hj with rfl | hj
      · exact Nat.le_refl _
      · exact Nat.le_of_lt (List.rel_of_pairwise_cons (List.pairwise_append.1 h).2.1 hj)

/-- The candidate that is chosen is reached in the fewest steps. -/
theorem steps_fromStart (h : (first :: rest).Pairwise (· < ·)) (hn : ∀ c ∈ first :: rest, c < n)
    (hstart : start < n) (hj : j ∈ first :: rest) (hne : j ≠ fromStart start first rest) :
    steps n start (fromStart start first rest) < steps n start j := by
  have hi := hn _ (fromStart_mem start first rest)
  rcases fromStart_least h start with ⟨⟨-, hle⟩, hleast⟩ | ⟨hbefore, hfirst⟩
  · rw [steps_of_le hi hle]
    by_cases hlater : start ≤ j
    · have := hleast ⟨hj, hlater⟩
      rw [steps_of_le (hn j hj) hlater]
      omega
    · rw [steps_of_lt hstart (by omega)]
      omega
  · rw [hfirst] at hne ⊢
    have := (first_isLeast h).2 hj
    rw [steps_of_lt hstart (hbefore j hj), steps_of_lt hstart (hbefore first List.mem_cons_self)]
    omega

theorem getLastD_isGreatest (h : candidates.Pairwise (· < ·)) (hne : candidates ≠ []) (d : Nat) :
    IsGreatest {c | c ∈ candidates} (candidates.getLastD d) := by
  rcases List.eq_nil_or_concat candidates with rfl | ⟨before, last, rfl⟩
  · exact absurd rfl hne
  · rw [List.concat_eq_append] at h ⊢
    rw [List.getLastD_concat]
    refine ⟨List.mem_append_right _ List.mem_cons_self, fun c hc => ?_⟩
    rcases List.mem_append.1 hc with hc | hc
    · exact Nat.le_of_lt ((List.pairwise_append.1 h).2.2 c hc last List.mem_cons_self)
    · exact Nat.le_of_eq (List.mem_singleton.1 hc)

/-- The last candidate below another one, or the last of all if there is none below. -/
theorem previous_isGreatest (h : candidates.Pairwise (· < ·)) (hi : i ∈ candidates) :
    IsGreatest {c | c ∈ candidates ∧ c < i} (previous candidates i) ∨
      (∀ c ∈ candidates, i ≤ c) ∧ IsGreatest {c | c ∈ candidates} (previous candidates i) := by
  unfold previous
  cases hbelow : candidates.filter (· < i) with
  | nil =>
    rw [List.filter_eq_nil_iff] at hbelow
    refine .inr ⟨fun c hc => ?_, getLastD_isGreatest h (List.ne_nil_of_mem hi) i⟩
    simpa using hbelow c hc
  | cons b below =>
    refine .inl ?_
    rw [← hbelow]
    have hlast := getLastD_isGreatest (h.filter (· < i)) (by rw [hbelow]; nofun)
      (candidates.getLastD i)
    simpa [List.mem_filter] using hlast

theorem previous_mem (h : candidates.Pairwise (· < ·)) (hi : i ∈ candidates) :
    previous candidates i ∈ candidates := by
  rcases previous_isGreatest h hi with hlast | ⟨-, hlast⟩
  · exact hlast.1.1
  · exact hlast.1

theorem mem_arc_previous_iff (h : candidates.Pairwise (· < ·)) (hn : ∀ c ∈ candidates, c < n)
    (hi : i ∈ candidates) (hj : j ∈ candidates) : j ∈ arc n (previous candidates i) i ↔ j = i := by
  rw [mem_arc (hn _ (previous_mem h hi))]
  rcases previous_isGreatest h hi with ⟨⟨-, hlt⟩, hlast⟩ | ⟨hfirst, -, hlast⟩
  · have := fun hji => hlast ⟨hj, hji⟩
    omega
  · have := hlast hj
    have := hfirst j hj
    have := hfirst _ (previous_mem h hi)
    omega

/-- The starts that lead to a candidate are those on its arc. -/
theorem fromStart_eq_iff (h : (first :: rest).Pairwise (· < ·)) (hn : ∀ c ∈ first :: rest, c < n)
    (hi : i ∈ first :: rest) (hstart : start < n) :
    fromStart start first rest = i ↔ start ∈ arc n (previous (first :: rest) i) i := by
  have hp := previous_mem h hi
  have head := (first_isLeast h).2 hi
  rw [mem_arc (hn _ hp)]
  rcases fromStart_least h start with ⟨⟨hc, hle⟩, hleast⟩ | ⟨hbefore, hhead⟩ <;>
    rcases previous_isGreatest h hi with ⟨⟨-, hlt⟩, hlast⟩ | ⟨hfirst, -, hlast⟩
  · -- A candidate follows `start`, and one stands below `i`.
    have := fun hle => hleast ⟨hi, hle⟩
    have := fun hle => hleast ⟨hp, hle⟩
    have := fun hlt => hlast ⟨hc, hlt⟩
    omega
  · -- A candidate follows `start`, and `i` is the first of all.
    have := fun hle => hleast ⟨hi, hle⟩
    have := hfirst _ hc
    have := hlast hc
    omega
  · -- All candidates lie before `start`, and `i` is not the first.
    have := hbefore i hi
    have := (first_isLeast h).2 hp
    omega
  · -- All candidates lie before `start`, and `i` is the first.
    have := hbefore _ hp
    have := hfirst first List.mem_cons_self
    have := hlast hi
    omega

theorem arcs_perm (h : (first :: rest).Pairwise (· < ·)) (hn : ∀ c ∈ first :: rest, c < n) :
    ((first :: rest).flatMap fun i => arc n (previous (first :: rest) i) i).Perm
      (List.range n) := by
  have bounded : ∀ i ∈ first :: rest, ∀ j ∈ arc n (previous (first :: rest) i) i, j < n := by
    intro i hi j hj
    have := hn i hi
    rw [mem_arc (hn _ (previous_mem h hi))] at hj
    omega
  refine (List.perm_ext_iff_of_nodup (List.nodup_flatMap.2 ⟨fun i _ => nodup_arc, ?_⟩)
    List.nodup_range).2 fun start => ?_
  · -- A start on two arcs would lead to both of their ends.
    refine h.imp_of_mem fun {i j} hi hj hlt start hstart hstart' => ?_
    have hlow := bounded i hi start hstart
    have := (fromStart_eq_iff h hn hi hlow).2 hstart
    have := (fromStart_eq_iff h hn hj hlow).2 hstart'
    omega
  · rw [List.mem_flatMap, List.mem_range]
    constructor
    · rintro ⟨i, hi, hstart⟩
      exact bounded i hi start hstart
    · intro hstart
      have hc := fromStart_mem start first rest
      exact ⟨_, hc, (fromStart_eq_iff h hn hc hstart).1 rfl⟩

end Candidates

section Choice

variable {α : Type} {f : Fixings α} {n first : Nat} {rest : List Nat}

theorem fromStart_circular (hu : f.unfixed n = first :: rest) :
    Circular f n fun start => fromStart start first rest := by
  have h : (first :: rest).Pairwise (· < ·) := hu ▸ unfixed_ascending f n
  have hn : ∀ c ∈ first :: rest, c < n := fun c hc => (mem_unfixed.1 (hu ▸ hc)).1
  have hperm := arcs_perm h hn
  refine ⟨fun start hstart => ?_, ?_, ?_, ?_, ?_⟩
  · have hmem := fromStart_mem start first rest
    have hleast : ∀ j ∈ first :: rest, j ≠ fromStart start first rest →
        steps n start (fromStart start first rest) < steps n start j :=
      fun j hj => steps_fromStart h hn hstart hj
    refine ⟨hu ▸ hmem, find?_walk hstart (hn _ hmem) ?_ fun j hj hfree => ?_, hu ▸ hleast⟩
    · have hmem : _ ∈ f.unfixed n := hu ▸ hmem
      exact (List.mem_filter.1 hmem).2
    · have hfree : j ∈ f.unfixed n := List.mem_filter.2 ⟨List.mem_range.2 hj, hfree⟩
      exact hleast j (hu ▸ hfree)
  · rw [hu]
    exact fun i hi => ⟨previous_mem h hi, fun j hj => mem_arc_previous_iff h hn hi hj⟩
  · rw [hu]
    exact fun i hi start hstart => fromStart_eq_iff h hn hi hstart
  · rw [hu]
    exact hperm
  · rw [hu, ← List.length_flatMap, hperm.length_eq, List.length_range]

end Choice

/-- **A random choice is a circular scan.** From where the generator of the context sends it, the
choice walks around all variables to the first unfixed one. The starts that lead to an unfixed
variable are the positions after the previous one up to its own, and these arcs part the circle.
A sum of seed and visits that is not negative gives the generator of its words, and besides the
number of variables and which of them are fixed, nothing but this sum matters. -/
theorem random_circular {α : Type} [Scalar α] (context : Context α) (node : Node α)
    (hopen : ∃ i < context.size, (i : Int) ∉ node.fixed.indices) :
    ∃ choice, Circular node.fixed context.size choice ∧
      (random context node = context.generator.map fun g =>
        choice (g.next.1.toNat % context.size)) ∧
      (∀ total, context.seed.plus context.visited = .ok (.integer total) → 0 ≤ total →
        context.generator = .ok (.ofWords (Random.words total.toNat))) ∧
      ∀ (context' : Context α) (node' : Node α), context'.size = context.size →
        context'.seed.plus context'.visited = context.seed.plus context.visited →
        (∀ i < context.size, (i : Int) ∈ node'.fixed.indices ↔ (i : Int) ∈ node.fixed.indices) →
        random context' node' = random context node := by
  obtain ⟨i, hi, hfree⟩ := hopen
  obtain ⟨first, rest, hu⟩ :=
    List.exists_cons_of_ne_nil (List.ne_nil_of_mem (mem_unfixed.2 ⟨hi, hfree⟩))
  refine ⟨_, fromStart_circular hu, run_eq_choose hu .random,
    fun total hsum htotal => context_generator_returns hsum htotal, ?_⟩
  intro context' node' hsize hsum hfixed
  have hu' : node'.fixed.unfixed context'.size = first :: rest := by
    rw [hsize, unfixed_congr hfixed, hu]
  have hgenerator : context'.generator = context.generator := by
    rw [Context.generator, hsum]
    rfl
  refine (run_eq_choose hu' .random).trans (.trans ?_ (run_eq_choose hu .random).symm)
  simp only [choose, hgenerator, hsize]

def circularContext : Context Rat where
  form := ⟨⟨6, [[], [], [], [], [], []], by decide⟩, [0, 0, 0, 0, 0, 0], rfl, rfl⟩
  strategy := .known .random
  seed := .integer 40
  visited := .integer 2

/-- Two of the fixed indices are no variables. -/
def circularNode : Node Rat :=
  ⟨none, [], ⟨[(5, 0), (-1, 1), (0, 1), (2, 0), (6, 1), (4, 1)], by decide⟩⟩

theorem random_circular_around :
    (∃ i < circularContext.size, (i : Int) ∉ circularNode.fixed.indices) ∧
    ∃ choice : Nat → Nat, random circularContext circularNode
        = .ok (choice ((Random.Generator.ofWords (Random.words 42)).next.1.toNat % 6)) ∧
      ∀ start < 6, choice start = 1 ↔ start ∈ [4, 5, 0, 1] := by
  have hopen : ∃ i < circularContext.size, (i : Int) ∉ circularNode.fixed.indices := by decide
  obtain ⟨choice, circular, hrandom, returns, -⟩ :=
    random_circular circularContext circularNode hopen
  have hgenerator : circularContext.generator = .ok (.ofWords (Random.words 42)) :=
    returns 42 rfl (by decide)
  have hsize : circularContext.size = 6 := rfl
  refine ⟨hopen, choice, ?_, circular.leads 1 (by decide)⟩
  rw [hrandom, hgenerator, hsize, Except.map]

end BinaryQuadratic.Branching
