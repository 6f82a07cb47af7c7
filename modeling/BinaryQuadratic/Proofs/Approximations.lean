import Mathlib.Order.Bounds.Defs
import BinaryQuadratic.Proofs.Comparisons
import BinaryQuadratic.Proofs.StrongBranching

/-!
# Choices by estimated changes

Which candidate a scan of scores ends with, also where scores are infinite or no numbers.

* `leaders`: the candidates that no number among the other scores exceeds;
* `Seeks`: the two scans differ in what they begin with, in the direction they go and in which of
  equally good candidates stays (`seeks_rises`, `seeks_falls`);
* `Leads`: a candidate that is best so far;
* `Found`, `found_replaced`, `found_kept`, `scan_found`: what a scan has found, past one candidate
  and past all;
* `firstGreatest_scan`, `lastLeast_scan`: what each of the two scans answers;
* `approximations_exact`: what the two strategies choose.
-/

namespace BinaryQuadratic.Branching

open Scalar (Ordered AboveBottom isNaN isBottom isNaN_eq_false_iff)

variable {α : Type} [Scalar α]

def score (combine : α → α → α) (changes : Flips α) (i : Nat) : α :=
  combine (changes.zero.getD i 0) (changes.one.getD i 0)

theorem getElem?_scores (combine : α → α → α) {changes : Flips α} {n i : Nat}
    (hzero : changes.zero.length = n) (hone : changes.one.length = n) (hi : i < n) :
    (scores combine changes)[i]? = some (score combine changes i) := by
  simp [scores, score, List.getD_eq_getElem?_getD, hzero, hone, hi]

/-- The candidates whose score reaches every other one that is a number; `upTo a b` says that `b`
reaches `a`. -/
def leaders (upTo : α → α → Prop) (s : Nat → α) (candidates : List Nat) : Set Nat :=
  {i | i ∈ candidates ∧ ∀ c ∈ candidates, c ≠ i → isNaN (s c) = false → upTo (s c) (s i)}

/-- A scan for the best score. What cannot begin it reaches nothing that can. An incumbent gives way
to what reaches it, where of equally good scores the later one stays, or only to what is better. -/
structure Seeks (replaces : Option α → α → Bool) (upTo : α → α → Prop) (later : Bool) : Prop where
  refl_iff : ∀ a, upTo a a ↔ isNaN a = false
  numbers : ∀ {a b}, upTo a b → isNaN a = false ∧ isNaN b = false
  trans : ∀ {a b c}, upTo a b → upTo b c → upTo a c
  total : ∀ {a b}, isNaN a = false → isNaN b = false → upTo a b ∨ upTo b a
  begins : ∀ {a}, replaces none a = true → isNaN a = false
  dropped : ∀ {a b}, replaces none a = false → replaces none b = true → ¬upTo b a
  replaced : ∀ {a b}, replaces (some a) b = true ↔ upTo a b ∧ (later = true ∨ ¬upTo b a)

theorem seeks_rises [Ordered α] : Seeks (α := α) rises (· ≤ ·) false where
  refl_iff a := isNaN_eq_false_iff.symm
  numbers h := (Ordered.numbers h).imp isNaN_eq_false_iff.2 isNaN_eq_false_iff.2
  trans := Ordered.trans
  total ha hb := Ordered.total (isNaN_eq_false_iff.1 ha) (isNaN_eq_false_iff.1 hb)
  begins := by
    intro a ha
    simp only [rises, Bool.and_eq_true, Bool.not_eq_true'] at ha
    exact ha.1
  dropped := by
    intro a b ha hb hle
    have hnumber := isNaN_eq_false_iff.2 (Ordered.numbers hle).2
    simp only [rises, hnumber, Bool.not_false, Bool.true_and, Bool.not_eq_false'] at ha
    simp only [rises, Ordered.le_bottom hle ha, Bool.not_true, Bool.and_false] at hb
    cases hb
  replaced := by
    intro a b
    simp [rises, Ordered.lt_iff]

theorem seeks_falls [Ordered α] : Seeks (α := α) falls (fun a b => b ≤ a) true where
  refl_iff a := isNaN_eq_false_iff.symm
  numbers h := (Ordered.numbers h).symm.imp isNaN_eq_false_iff.2 isNaN_eq_false_iff.2
  trans hab hbc := Ordered.trans hbc hab
  total ha hb := Ordered.total (isNaN_eq_false_iff.1 hb) (isNaN_eq_false_iff.1 ha)
  begins := by
    intro a ha
    simpa [falls] using ha
  dropped := by
    intro a b ha _ hle
    have hnumber := isNaN_eq_false_iff.2 (Ordered.numbers hle).1
    simp [falls, hnumber] at ha
  replaced := by
    intro a b
    simp [falls]

/-- Of two equally good candidates the earlier one stays, or the later one. -/
def Stays (later : Bool) (i c : Nat) : Prop := if later then c ≤ i else i ≤ c

theorem Stays.refl (later : Bool) (i : Nat) : Stays later i i := by
  unfold Stays
  split
  · exact Nat.le_refl i
  · exact Nat.le_refl i

section Scan

variable {replaces : Option α → α → Bool} {upTo : α → α → Prop} {later : Bool} {s : Nat → α}
  {done candidates : List Nat} {i c : Nat}

/-- A candidate that is best among those behind a scan, one of which began it. -/
structure Leads (replaces : Option α → α → Bool) (upTo : α → α → Prop) (later : Bool) (s : Nat → α)
    (done : List Nat) (i : Nat) : Prop where
  among : i ∈ done
  number : isNaN (s i) = false
  begun : ∃ d ∈ done, replaces none (s d) = true
  best : ∀ d ∈ done, isNaN (s d) = false → upTo (s d) (s i)
  stays : ∀ d ∈ done, upTo (s i) (s d) → Stays later i d

namespace Leads

/-- A new candidate takes the lead. -/
theorem of_last (hseeks : Seeks replaces upTo later) (hnumber : isNaN (s c) = false)
    (hbegun : ∃ d ∈ done ++ [c], replaces none (s d) = true)
    (hbest : ∀ d ∈ done, isNaN (s d) = false → upTo (s d) (s c))
    (hstays : ∀ d ∈ done, upTo (s c) (s d) → Stays later c d) :
    Leads replaces upTo later s (done ++ [c]) c where
  among := List.mem_append_right _ (List.mem_singleton_self c)
  number := hnumber
  begun := hbegun
  best := by
    rw [List.forall_mem_append, List.forall_mem_singleton]
    exact ⟨hbest, (hseeks.refl_iff _).2⟩
  stays := by
    rw [List.forall_mem_append, List.forall_mem_singleton]
    exact ⟨hstays, fun _ => .refl later c⟩

theorem begun_append (h : Leads replaces upTo later s done i) (c : Nat) :
    ∃ d ∈ done ++ [c], replaces none (s d) = true := by
  obtain ⟨d, hd, hbegun⟩ := h.begun
  exact ⟨d, List.mem_append_left _ hd, hbegun⟩

/-- The lead is kept past a new candidate. -/
theorem append (h : Leads replaces upTo later s done i)
    (hbest : isNaN (s c) = false → upTo (s c) (s i))
    (hstays : upTo (s i) (s c) → Stays later i c) :
    Leads replaces upTo later s (done ++ [c]) i where
  among := List.mem_append_left _ h.among
  number := h.number
  begun := h.begun_append c
  best := by
    rw [List.forall_mem_append, List.forall_mem_singleton]
    exact ⟨h.best, hbest⟩
  stays := by
    rw [List.forall_mem_append, List.forall_mem_singleton]
    exact ⟨h.stays, hstays⟩

theorem mem_leaders (h : Leads replaces upTo later s candidates i) :
    i ∈ leaders upTo s candidates :=
  ⟨h.among, fun c hc _ hnumber => h.best c hc hnumber⟩

theorem stays_before (hseeks : Seeks replaces upTo later)
    (h : Leads replaces upTo later s candidates i) {j : Nat} (hj : j ∈ leaders upTo s candidates) :
    Stays later i j := by
  apply h.stays j hj.1
  by_cases hsame : i = j
  · rw [← hsame]
    exact (hseeks.refl_iff _).2 h.number
  · exact hj.2 i h.among hsame h.number

end Leads

/-- What a scan has found among the candidates behind it; with no incumbent, none could begin it. -/
def Found (replaces : Option α → α → Bool) (upTo : α → α → Prop) (later : Bool) (s : Nat → α)
    (done : List Nat) : Incumbent α → Prop
  | none => ∀ d ∈ done, replaces none (s d) = false
  | some (v, i) => v = s i ∧ Leads replaces upTo later s done i

theorem found_replaced (hseeks : Seeks replaces upTo later) (hbehind : ∀ d ∈ done, d < c)
    {incumbent : Incumbent α} (h : Found replaces upTo later s done incumbent)
    (hreplaces : replaces (incumbent.map Prod.fst) (s c) = true) :
    Found replaces upTo later s (done ++ [c]) (some (s c, c)) := by
  refine ⟨rfl, ?_⟩
  cases incumbent with
  | none =>
    have hnumber := hseeks.begins hreplaces
    apply Leads.of_last hseeks hnumber
    · exact ⟨c, List.mem_append_right _ (List.mem_singleton_self c), hreplaces⟩
    · intro d hd hd'
      apply (hseeks.total hd' hnumber).resolve_right
      exact hseeks.dropped (h d hd) hreplaces
    · intro d hd hle
      exact absurd hle (hseeks.dropped (h d hd) hreplaces)
  | some best =>
    obtain ⟨v, i⟩ := best
    obtain ⟨rfl, hleads⟩ := h
    obtain ⟨hle, htie⟩ := hseeks.replaced.1 hreplaces
    apply Leads.of_last hseeks (hseeks.numbers hle).2 (hleads.begun_append c)
    · intro d hd hd'
      exact hseeks.trans (hleads.best d hd hd') hle
    · intro d hd hback
      cases later with
      | true => exact Nat.le_of_lt (hbehind d hd)
      | false =>
        -- A candidate as good as the new one would have been better than the incumbent.
        have hup := hleads.best d hd (hseeks.numbers hback).2
        exact absurd (hseeks.trans hback hup) (htie.resolve_left (by decide))

theorem found_kept (hseeks : Seeks replaces upTo later) (hbehind : ∀ d ∈ done, d < c)
    {incumbent : Incumbent α} (h : Found replaces upTo later s done incumbent)
    (hkept : ¬replaces (incumbent.map Prod.fst) (s c) = true) :
    Found replaces upTo later s (done ++ [c]) incumbent := by
  cases incumbent with
  | none =>
    unfold Found at *
    rw [List.forall_mem_append, List.forall_mem_singleton]
    exact ⟨h, Bool.eq_false_iff.2 hkept⟩
  | some best =>
    obtain ⟨v, i⟩ := best
    obtain ⟨rfl, hleads⟩ := h
    have hworse : ¬(upTo (s i) (s c) ∧ (later = true ∨ ¬upTo (s c) (s i))) :=
      fun hnew => hkept (hseeks.replaced.2 hnew)
    refine ⟨rfl, hleads.append ?_ ?_⟩
    · intro hc
      by_contra hnot
      exact hworse ⟨(hseeks.total hc hleads.number).resolve_left hnot, .inr hnot⟩
    · intro hle
      cases later with
      | true => exact absurd ⟨hle, .inl rfl⟩ hworse
      | false => exact Nat.le_of_lt (hbehind i hleads.among)

/-- A scan over ascending candidates finds the best of them. -/
theorem scan_found (hseeks : Seeks replaces upTo later) (done : List Nat) {scores : List α}
    (hscores : ∀ d ∈ candidates, scores[d]? = some (s d))
    (hascending : (done ++ candidates).Pairwise (· < ·)) {incumbent : Incumbent α}
    (h : Found replaces upTo later s done incumbent) :
    Found replaces upTo later s (done ++ candidates)
      (scan replaces scores incumbent candidates) := by
  induction candidates generalizing done incumbent with
  | nil => rwa [List.append_nil]
  | cons c rest ih =>
    rw [List.forall_mem_cons] at hscores
    have hbehind : ∀ d ∈ done, d < c := by
      intro d hd
      exact (List.pairwise_append.1 hascending).2.2 d hd c List.mem_cons_self
    rw [List.append_cons] at hascending ⊢
    unfold scan
    rw [hscores.1]
    simp only
    by_cases hreplaces : replaces (incumbent.map Prod.fst) (s c) = true
    · rw [if_pos hreplaces]
      exact ih _ hscores.2 hascending (found_replaced hseeks hbehind h hreplaces)
    · rw [if_neg hreplaces]
      exact ih _ hscores.2 hascending (found_kept hseeks hbehind h hreplaces)

/-- The answer of a scan: the first candidate where none could begin it, or else the best. -/
theorem scan_answer (hseeks : Seeks replaces upTo later) {scores : List α} {first : Nat}
    {rest : List Nat} (hscores : ∀ d ∈ first :: rest, scores[d]? = some (s d))
    (hascending : (first :: rest).Pairwise (· < ·))
    (h : ((scan replaces scores none (first :: rest)).map Prod.snd).getD first = i) :
    (∀ d ∈ first :: rest, replaces none (s d) = false) ∧ i = first ∨
      Leads replaces upTo later s (first :: rest) i := by
  have hstart : Found replaces upTo later s [] none := nofun
  have hfound := scan_found hseeks [] hscores hascending hstart
  rw [List.nil_append] at hfound
  cases hscan : scan replaces scores none (first :: rest) with
  | none =>
    rw [hscan] at h hfound
    exact .inl ⟨hfound, h.symm⟩
  | some best =>
    rw [hscan] at h hfound
    obtain rfl : best.2 = i := h
    exact .inr hfound.2

theorem leaders_of_numbers (hseeks : Seeks replaces upTo later)
    (h : ∀ c ∈ candidates, isNaN (s c) = false) :
    leaders upTo s candidates = {i | i ∈ candidates ∧ ∀ c ∈ candidates, upTo (s c) (s i)} := by
  ext i
  constructor
  · intro hi
    refine ⟨hi.1, fun c hc => ?_⟩
    by_cases hsame : c = i
    · rw [hsame]
      exact (hseeks.refl_iff _).2 (h i hi.1)
    · exact hi.2 c hc hsame (h c hc)
  · intro hi
    exact ⟨hi.1, fun c hc _ _ => hi.2 c hc⟩

end Scan

/-- The first candidate of a greatest score, or else the first candidate of all. -/
structure FirstGreatest (s : Nat → α) (candidates : List Nat) (i : Nat) : Prop where
  above : (∃ c ∈ candidates, AboveBottom (s c)) → IsLeast (leaders (· ≤ ·) s candidates) i
  below : (∀ c ∈ candidates, ¬AboveBottom (s c)) → IsLeast {c | c ∈ candidates} i
  numbers : (∀ c ∈ candidates, isNaN (s c) = false) →
    IsLeast {c | c ∈ candidates ∧ ∀ d ∈ candidates, s d ≤ s c} i

/-- The last candidate of a least score, or else the first candidate of all. -/
structure LastLeast (s : Nat → α) (candidates : List Nat) (i : Nat) : Prop where
  number : (∃ c ∈ candidates, isNaN (s c) = false) →
    IsGreatest (leaders (fun a b => b ≤ a) s candidates) i
  none : (∀ c ∈ candidates, isNaN (s c) = true) → IsLeast {c | c ∈ candidates} i
  numbers : (∀ c ∈ candidates, isNaN (s c) = false) →
    IsGreatest {c | c ∈ candidates ∧ ∀ d ∈ candidates, s c ≤ s d} i

section Ends

variable [Ordered α] {s : Nat → α} {scores : List α} {first : Nat} {rest : List Nat}

omit [Scalar α] [Ordered α] in
theorem first_isLeast (h : (first :: rest).Pairwise (· < ·)) :
    IsLeast {c | c ∈ first :: rest} first := by
  constructor
  · exact List.mem_cons_self
  · intro c hc
    cases hc with
    | head => exact Nat.le_refl _
    | tail _ hc => exact Nat.le_of_lt (List.rel_of_pairwise_cons h hc)

omit [Ordered α] in
theorem rises_none_iff {a : α} : rises none a = true ↔ AboveBottom a := by
  simp [rises, AboveBottom]

theorem firstGreatest_scan (hscores : ∀ c ∈ first :: rest, scores[c]? = some (s c))
    (hascending : (first :: rest).Pairwise (· < ·)) :
    FirstGreatest s (first :: rest)
      (((scan rises scores none (first :: rest)).map Prod.snd).getD first) := by
  rcases scan_answer seeks_rises hscores hascending rfl with ⟨hnone, hfirst⟩ | hleads
  · have hbelow : ∀ c ∈ first :: rest, ¬AboveBottom (s c) := by
      intro c hc habove
      exact absurd (rises_none_iff.2 habove) (Bool.eq_false_iff.1 (hnone c hc))
    rw [hfirst]
    refine ⟨fun ⟨c, hc, habove⟩ => absurd habove (hbelow c hc), fun _ => first_isLeast hascending,
      fun hnumbers => ⟨⟨List.mem_cons_self, fun d hd => ?_⟩, fun c hc => ?_⟩⟩
    · -- All scores are negative infinity, so that none is less than another.
      have hbottom : isBottom (s d) = true := by
        by_contra hnot
        exact hbelow d hd ⟨hnumbers d hd, Bool.eq_false_iff.2 hnot⟩
      exact Ordered.bottom_le hbottom (isNaN_eq_false_iff.1 (hnumbers first List.mem_cons_self))
    · exact (first_isLeast hascending).2 hc.1
  · have hleast := (⟨hleads.mem_leaders, fun j hj => hleads.stays_before seeks_rises hj⟩ :
      IsLeast (leaders (· ≤ ·) s (first :: rest)) _)
    refine ⟨fun _ => hleast, fun hbelow => ?_, fun hnumbers => ?_⟩
    · obtain ⟨d, hd, hbegun⟩ := hleads.begun
      exact absurd (rises_none_iff.1 hbegun) (hbelow d hd)
    · rwa [leaders_of_numbers seeks_rises hnumbers] at hleast

theorem lastLeast_scan (hscores : ∀ c ∈ first :: rest, scores[c]? = some (s c))
    (hascending : (first :: rest).Pairwise (· < ·)) :
    LastLeast s (first :: rest)
      (((scan falls scores none (first :: rest)).map Prod.snd).getD first) := by
  rcases scan_answer seeks_falls hscores hascending rfl with ⟨hnone, hfirst⟩ | hleads
  · have hnan : ∀ c ∈ first :: rest, ¬isNaN (s c) = false := by
      intro c hc hnumber
      have := hnone c hc
      simp [falls, hnumber] at this
    rw [hfirst]
    refine ⟨fun ⟨c, hc, hnumber⟩ => absurd hnumber (hnan c hc), fun _ => first_isLeast hascending,
      fun hnumbers => ?_⟩
    exact absurd (hnumbers first List.mem_cons_self) (hnan first List.mem_cons_self)
  · have hgreatest := (⟨hleads.mem_leaders, fun j hj => hleads.stays_before seeks_falls hj⟩ :
      IsGreatest (leaders (fun a b => b ≤ a) s (first :: rest)) _)
    refine ⟨fun _ => hgreatest, fun hnan => ?_, fun hnumbers => ?_⟩
    · have := hleads.number
      rw [hnan _ hleads.among] at this
      cases this
    · rwa [leaders_of_numbers seeks_falls hnumbers] at hgreatest

end Ends

omit [Scalar α] in
theorem unfixed_ascending (f : Fixings α) (n : Nat) : (f.unfixed n).Pairwise (· < ·) :=
  List.pairwise_lt_range.filter _

/-- **Choices by estimated changes are exact.** At a node with an unfixed variable both strategies
choose, also where estimates are infinite or no numbers. One goes by the smaller estimate of every
variable: it takes the first unfixed variable that no other number exceeds, if any lies above
negative infinity, and the first of all otherwise. The other goes by the greater estimate: it takes
the last unfixed variable that exceeds no other number, if any is a number, and the first of all
otherwise. Where all are numbers these are the first of the greatest and the last of the least,
however many of them are infinite. -/
theorem approximations_exact [Ordered α] (context : Context α) (node : Node α)
    (hopen : node.fixed.unfixed context.size ≠ [])
    (hlong : context.size ≤ node.solution.length)
    (hfit : ∀ k ∈ node.fixed.indices, -context.size ≤ k ∧ k < context.size) :
    ∃ changes worst best, flips context node = .ok changes ∧
      changes.zero.length = context.size ∧ changes.one.length = context.size ∧
      worstApproximation context node = .ok worst ∧
      FirstGreatest (score lesser changes) (node.fixed.unfixed context.size) worst ∧
      bestApproximation context node = .ok best ∧
      LastLeast (score greater changes) (node.fixed.unfixed context.size) best := by
  obtain ⟨changes, hflips⟩ := flips_returns hlong hfit
  obtain ⟨hzero, hone⟩ := flips_lengths hflips
  obtain ⟨first, rest, hu⟩ := List.exists_cons_of_ne_nil hopen
  have hascending : (first :: rest).Pairwise (· < ·) := hu ▸ unfixed_ascending _ _
  have hscores (combine : α → α → α) : ∀ c ∈ first :: rest,
      (scores combine changes)[c]? = some (score combine changes c) := by
    intro c hc
    exact getElem?_scores combine hzero hone (Fixings.mem_unfixed.1 (hu ▸ hc)).1
  have hworst := run_eq_choose hu .worstApproximation
  have hbest := run_eq_choose hu .bestApproximation
  simp only [run, choose, hflips, Except.map] at hworst hbest
  rw [hu]
  exact ⟨changes, _, _, hflips, hzero, hone, hworst,
    firstGreatest_scan (hscores lesser) hascending, hbest,
    lastLeast_scan (hscores greater) hascending⟩

/-- Changes that are no numbers, infinite ones and a tie. -/
def unevenContext : Context Float where
  form := ⟨⟨4, [[], [], [], []], by decide⟩, [0 / 0, 1 / 0, 1, 1], rfl, rfl⟩
  strategy := .known .worstApproximation
  seed := .integer 0
  visited := .integer 0

/-- The third variable is fixed, but not under its own index. -/
def unevenNode : Node Float := ⟨none, [1 / 2, 1 / 2, 0 / 0, 1 / 2], ⟨[(-2, 1 / 2)], by decide⟩⟩

theorem approximations_exact_uneven :
    unevenNode.fixed.unfixed unevenContext.size ≠ [] ∧
    unevenContext.size ≤ unevenNode.solution.length ∧
    (∀ k ∈ unevenNode.fixed.indices, -unevenContext.size ≤ k ∧ k < unevenContext.size) ∧
    ∃ changes, flips unevenContext unevenNode = .ok changes ∧
      FirstGreatest (score lesser changes) [0, 1, 2, 3] 2 ∧
      LastLeast (score greater changes) [0, 1, 2, 3] 3 := by
  have hopen : unevenNode.fixed.unfixed unevenContext.size ≠ [] := by decide
  have hlong : unevenContext.size ≤ unevenNode.solution.length := by decide
  have hfit : ∀ k ∈ unevenNode.fixed.indices,
      -unevenContext.size ≤ k ∧ k < unevenContext.size := by decide
  obtain ⟨changes, worst, best, hflips, -, -, hworst, first, hbest, last⟩ :=
    approximations_exact unevenContext unevenNode hopen hlong hfit
  have chosen : worstApproximation unevenContext unevenNode = .ok 2 ∧
      bestApproximation unevenContext unevenNode = .ok 3 := by decide +kernel
  obtain rfl : 2 = worst := Except.ok.inj (chosen.1.symm.trans hworst)
  obtain rfl : 3 = best := Except.ok.inj (chosen.2.symm.trans hbest)
  exact ⟨hopen, hlong, hfit, changes, hflips, first, last⟩

end BinaryQuadratic.Branching
