import BinaryQuadratic.Proofs.Selection

/-!
# Entries of fixed variables

What a point holds at its node's fixed variables, and behind the last variable, is only advisory.

* `Interchangeable`: nodes with the same fixed values whose points agree on every other variable;
* `Interchangeable.unfixed`, `Interchangeable.base`: they have the same candidates and, under their
  fixed values, the same point;
* `nearestHalf_agrees`: the one scan of a node's own point looks at candidates only;
* `entries_advisory`: no estimate and no choice tells such nodes apart.
-/

namespace BinaryQuadratic

open Fixings

variable {α : Type}

namespace Fixings

variable {f g : Fixings α}

theorem get?_of_perm (h : f.entries.Perm g.entries) (k : Int) : f.get? k = g.get? k :=
  find?_key_of_perm g.distinct h k

theorem unfixed_of_perm (h : f.entries.Perm g.entries) (n : Nat) : f.unfixed n = g.unfixed n :=
  unfixed_congr fun _ _ => (h.map Prod.fst).mem_iff

theorem within_of_perm {n : Nat} (h : f.entries.Perm g.entries) (hf : f.Within n) : g.Within n :=
  fun k hk => hf k ((h.map Prod.fst).mem_iff.2 hk)

end Fixings

/-- The same variables are fixed at the same values, in whatever order, and the points agree on all
others. Nothing is said of their entries at fixed variables or behind the last variable, nor of the
bounds. -/
structure Node.Interchangeable (n : Nat) (a b : Node α) : Prop where
  fixed : a.fixed.entries.Perm b.fixed.entries
  within : a.fixed.Within n
  long : n ≤ a.solution.length
  long' : n ≤ b.solution.length
  free : ∀ i < n, (i : Int) ∉ a.fixed.indices → a.solution[i]? = b.solution[i]?

namespace Node.Interchangeable

variable {n : Nat} {a b : Node α} (h : a.Interchangeable n b)

include h

theorem unfixed : a.fixed.unfixed n = b.fixed.unfixed n := unfixed_of_perm h.fixed n

/-- The candidates of both nodes, at which their points agree. -/
theorem candidates {c : Nat} (hc : c ∈ a.fixed.unfixed n) :
    c < a.solution.length ∧ a.solution[c]? = b.solution[c]? := by
  obtain ⟨hlt, hfree⟩ := mem_unfixed.1 hc
  exact ⟨Nat.lt_of_lt_of_le hlt h.long, h.free c hlt hfree⟩

theorem base : ∃ x, a.base n = .ok x ∧ b.base n = .ok x ∧ x.length = n := by
  have hwithin := within_of_perm h.fixed h.within
  have fits {f : Fixings α} (hf : f.Within n) : ∀ k ∈ f.indices, -n ≤ k ∧ k < n := by
    intro k hk
    have := hf k hk
    omega
  obtain ⟨x, hx, hxlength⟩ := a.base_succeeds h.long (fits h.within)
  obtain ⟨y, hy, hylength⟩ := b.base_succeeds h.long' (fits hwithin)
  have entry {node : Node α} {z : List α} (hz : node.base n = .ok z) (hin : node.fixed.Within n)
      (hlong : n ≤ node.solution.length) {i : Nat} (hi : i < n) :
      z[i]? = (node.fixed.get? i).or node.solution[i]? := by
    have htake : (node.solution.take n).length = n := by
      rw [List.length_take]
      omega
    rw [getElem?_overlay (base_eq_ok_iff.1 hz), htake, pinned_eq_get? hin hi, Option.map_id_fun,
      id, List.getElem?_take_of_lt hi]
  have same : x = y := by
    apply List.ext_getElem?
    intro i
    by_cases hi : i < n
    · rw [entry hx h.within h.long hi, entry hy hwithin h.long' hi, get?_of_perm h.fixed]
      cases hv : b.fixed.get? i with
      | some v => rfl
      | none =>
        have hfree : (i : Int) ∉ a.fixed.indices := by
          rw [← get?_eq_none_iff, get?_of_perm h.fixed, hv]
        rw [h.free i hi hfree]
    · rw [List.getElem?_eq_none (by omega), List.getElem?_eq_none (by omega)]
  exact ⟨x, hx, same ▸ hy, hxlength⟩

end Node.Interchangeable

namespace Branching

variable [Scalar α] {context : Context α} {a b : Node α}

theorem nearestHalf_agrees {x y : List α} {candidates : List Nat}
    (h : ∀ c ∈ candidates, c < x.length ∧ x[c]? = y[c]?) (best : α) (index : Nat) :
    nearestHalf x best index candidates = nearestHalf y best index candidates := by
  induction candidates generalizing best index with
  | nil => rfl
  | cons c rest ih =>
    obtain ⟨⟨hlt, hentry⟩, hrest⟩ := List.forall_mem_cons.1 h
    have hx : x[c]? = some x[c] := List.getElem?_eq_getElem hlt
    have hy : y[c]? = some x[c] := hentry ▸ hx
    unfold nearestHalf
    rw [hx, hy]
    simp only [ih hrest]

theorem flips_agree (h : a.Interchangeable context.size b) :
    ∃ changes, flips context a = .ok changes ∧ flips context b = .ok changes := by
  obtain ⟨x, ha, hb, hlength⟩ := h.base
  exact ⟨flipsAt context.form x, bind_eq_ok_iff.2 ⟨x, ha, if_pos hlength⟩,
    bind_eq_ok_iff.2 ⟨x, hb, if_pos hlength⟩⟩

theorem run_agrees (h : a.Interchangeable context.size b) (strategy : Strategy) :
    run strategy context a = run strategy context b := by
  cases hu : a.fixed.unfixed context.size with
  | nil => rw [run_exhausted hu, run_exhausted (h.unfixed ▸ hu)]
  | cons first rest =>
    obtain ⟨changes, ha, hb⟩ := flips_agree h
    rw [run_eq_choose hu, run_eq_choose (h.unfixed ▸ hu)]
    cases strategy with
    | firstNotFixed => rfl
    | mostViolated =>
      exact nearestHalf_agrees (fun c hc => h.candidates (hu ▸ hc)) 1 first
    | random => rfl
    | worstApproximation => simp only [choose, ha, hb]
    | bestApproximation => simp only [choose, ha, hb]

/-- **Entries of fixed variables are advisory.** Nodes with the same fixed values, whose points
agree wherever nothing is fixed, have the same estimated changes, and every strategy chooses the
same variable at both or fails at both for the same reason. -/
theorem entries_advisory (context : Context α) {a b : Node α}
    (h : a.Interchangeable context.size b) :
    (∃ changes, flips context a = .ok changes ∧ flips context b = .ok changes) ∧
    (∀ strategy, run strategy context a = run strategy context b) ∧
    select context a = select context b := by
  refine ⟨flips_agree h, run_agrees h, ?_⟩
  simp only [select, run_agrees h]

/-- Three variables, of which two are fixed. -/
def staleContext : Context Float where
  form := ⟨⟨3, [[(2, 1), (0, 3)], [(1, -2)], [(0, 1 / 0)]], by decide⟩, [0, 1, 0 / 0], rfl, rfl⟩
  strategy := .known .mostViolated
  seed := .integer 4
  visited := .integer 1

def freshNode : Node Float := ⟨some 2, [1, 0 / 0, 0], ⟨[(0, 1), (2, 0)], by decide⟩⟩

/-- The same fixed values in the other order, over entries that do not match them. -/
def staleNode : Node Float := ⟨none, [9, 0 / 0, 1 / 0, 5], ⟨[(2, 0), (0, 1)], by decide⟩⟩

theorem entries_advisory_stale : freshNode.Interchangeable staleContext.size staleNode ∧
    select staleContext freshNode = select staleContext staleNode := by
  have interchangeable : freshNode.Interchangeable staleContext.size staleNode := by
    refine ⟨.swap _ _ _, ?_, by decide, by decide, ?_⟩
    · unfold Fixings.Within
      decide
    · decide
  exact ⟨interchangeable, (entries_advisory staleContext interchangeable).2.2⟩

end Branching

end BinaryQuadratic
