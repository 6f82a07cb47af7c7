import BinaryQuadratic.Node
import BinaryQuadratic.Proofs.Outcomes

/-!
# Points under fixed values

What a vector holds after fixed values were written over it.

* `find?_key_eq_some_iff`, `find?_key_of_perm`: pairs whose keys are all different, looked up by
  key;
* `pinned`: the value left at a place, that of the last index which has it;
* `getElem?_write`, `write_succeeds_iff`: writing leaves those values, and fails only for want of a
  place;
* `base_succeeds`: when a node's point can be read;
* `bounds_fit`, `getElem?_bounds`: where a node has a box, and its entries.
-/

namespace BinaryQuadratic

section Keys

variable {κ β : Type} [DecidableEq κ] {entries others : List (κ × β)}

/-- Where no key occurs twice, a key has the value that stands beside it. -/
theorem find?_key_eq_some_iff (distinct : (entries.map Prod.fst).Nodup) {k : κ} {v : β} :
    (entries.find? fun e => e.1 = k).map Prod.snd = some v ↔ (k, v) ∈ entries := by
  induction entries with
  | nil => simp
  | cons e rest ih =>
    obtain ⟨hne, hrest⟩ := List.nodup_cons.1 distinct
    rw [List.find?_cons, List.mem_cons]
    by_cases he : e.1 = k
    · have absent : (k, v) ∉ rest := fun hin => hne (he ▸ List.mem_map_of_mem hin)
      simp only [he, decide_true, Option.map_some, Option.some.injEq, absent, or_false]
      constructor
      · rintro rfl; rw [← he]
      · rintro rfl; rfl
    · have : (k, v) ≠ e := by rintro rfl; exact he rfl
      simp [he, this, ih hrest]

/-- The order of the pairs does not matter then. -/
theorem find?_key_of_perm (distinct : (others.map Prod.fst).Nodup) (h : entries.Perm others)
    (k : κ) : (entries.find? fun e => e.1 = k).map Prod.snd
      = (others.find? fun e => e.1 = k).map Prod.snd := by
  have hentries : (entries.map Prod.fst).Nodup := (h.map Prod.fst).nodup_iff.2 distinct
  apply Option.ext
  intro v
  rw [find?_key_eq_some_iff hentries, find?_key_eq_some_iff distinct, h.mem_iff]

end Keys

namespace Fixings

variable {α β : Type}

/-- Every index is that of a variable. -/
def Within (f : Fixings α) (n : Nat) : Prop := ∀ k ∈ f.indices, 0 ≤ k ∧ k < n

theorem place_eq_some_iff {size i : Nat} {k : Int} :
    place size k = some i ↔ i < size ∧ (k = i ∨ k + size = i) := by
  unfold place
  split <;> split <;> simp only [Option.some.injEq, reduceCtorEq, false_iff] <;> omega

theorem place_isSome_iff {size : Nat} {k : Int} :
    (place size k).isSome ↔ -size ≤ k ∧ k < size := by
  unfold place
  split <;> split <;> simp only [Option.isSome_some, Option.isSome_none, true_iff,
    Bool.false_eq_true, false_iff] <;> omega

/-- The value at place `i` once all pairs are written: that of the last pair whose index has it. -/
def pinned (size i : Nat) : List (Int × β) → Option β
  | [] => none
  | e :: rest => (pinned size i rest).or (if place size e.1 = some i then some e.2 else none)

theorem getElem?_write {x y : List β} {entries : List (Int × β)} (h : write x entries = .ok y)
    (i : Nat) : y[i]? = (pinned x.length i entries).or x[i]? := by
  induction entries generalizing x with
  | nil => cases h; rfl
  | cons e rest ih =>
    obtain ⟨k, v⟩ := e
    unfold write at h
    split at h
    · rename_i p hp
      have hlt := place_lt hp
      rw [ih h, List.length_set, List.getElem?_set, pinned, hp, Option.or_assoc]
      by_cases hpi : p = i
      · simp [← hpi, hlt]
      · simp [hpi]
    · cases h

theorem write_succeeds_iff {x : List β} {entries : List (Int × β)} :
    (∃ y, write x entries = .ok y) ↔ ∀ e ∈ entries, (place x.length e.1).isSome := by
  induction entries generalizing x with
  | nil => simp [write]
  | cons e rest ih =>
    obtain ⟨k, v⟩ := e
    rw [List.forall_mem_cons]
    unfold write
    split
    · rename_i p hp
      rw [ih, List.length_set, hp]
      simp
    · rename_i hp
      simp [hp]

theorem pinned_map (image : α → β) (size i : Nat) (entries : List (Int × α)) :
    pinned size i (entries.map fun e => (e.1, image e.2)) = (pinned size i entries).map image := by
  induction entries with
  | nil => rfl
  | cons e rest ih =>
    rw [List.map_cons, pinned, pinned, ih]
    cases pinned size i rest <;> by_cases h : place size e.1 = some i <;> simp [h]

theorem pinned_of_not_placed {size i : Nat} {entries : List (Int × β)}
    (h : ∀ e ∈ entries, place size e.1 ≠ some i) : pinned size i entries = none := by
  induction entries with
  | nil => rfl
  | cons e rest ih =>
    rw [List.forall_mem_cons] at h
    rw [pinned, ih h.2, if_neg h.1, Option.none_or]

theorem exists_of_pinned {size i : Nat} {entries : List (Int × β)} {v : β}
    (h : pinned size i entries = some v) : ∃ e ∈ entries, place size e.1 = some i ∧ e.2 = v := by
  induction entries with
  | nil => cases h
  | cons e rest ih =>
    rw [pinned, Option.or_eq_some_iff] at h
    rcases h with hlater | ⟨-, hfirst⟩
    · obtain ⟨e', he', hplaced⟩ := ih hlater
      exact ⟨e', List.mem_cons_of_mem _ he', hplaced⟩
    · split at hfirst
      · rename_i hplaced
        exact ⟨e, List.mem_cons_self, hplaced, Option.some.inj hfirst⟩
      · cases hfirst

theorem pinned_append (size i : Nat) (earlier later : List (Int × β)) :
    pinned size i (earlier ++ later) = (pinned size i later).or (pinned size i earlier) := by
  induction earlier with
  | nil => rw [List.nil_append, pinned, Option.or_none]
  | cons e rest ih => rw [List.cons_append, pinned, ih, pinned, Option.or_assoc]

/-- Where every index is that of a variable, a place holds the value of its own index. -/
theorem pinned_eq_get? {f : Fixings α} {n i : Nat} (h : f.Within n) (hi : i < n) :
    pinned n i f.entries = f.get? i := by
  have own {k : Int} (hk : k ∈ f.indices) : place n k = some i ↔ k = i := by
    have := h k hk
    rw [place_eq_some_iff]
    omega
  obtain ⟨entries, distinct⟩ := f
  unfold get?
  simp only [indices] at own
  clear h
  induction entries with
  | nil => rfl
  | cons e rest ih =>
    obtain ⟨hne, hrest⟩ := List.nodup_cons.1 distinct
    rw [pinned, List.find?_cons]
    by_cases he : e.1 = i
    · have absent : pinned n i rest = none := by
        apply pinned_of_not_placed
        intro e' he' hplace
        have hmem : e'.1 ∈ rest.map Prod.fst := List.mem_map_of_mem he'
        have := (own (List.mem_cons_of_mem _ hmem)).1 hplace
        exact hne (by rw [he, ← this]; exact hmem)
      have placed : place n e.1 = some i := (own List.mem_cons_self).2 he
      rw [absent, if_pos placed]
      simp [he]
    · have apart : place n e.1 ≠ some i := fun hp => he ((own List.mem_cons_self).1 hp)
      have := ih hrest fun hk => own (List.mem_cons_of_mem _ hk)
      simp [this, apart, he]

theorem get?_eq_none_iff {f : Fixings α} {k : Int} : f.get? k = none ↔ k ∉ f.indices := by
  simp only [get?, indices, Option.map_eq_none_iff, List.find?_eq_none, decide_eq_true_eq,
    List.mem_map, not_exists, not_and]

theorem get?_eq_some_iff {f : Fixings α} {k : Int} {v : α} :
    f.get? k = some v ↔ (k, v) ∈ f.entries := find?_key_eq_some_iff f.distinct

theorem overlay_succeeds_iff {f : Fixings α} {image : α → β} {x : List β} :
    (∃ y, f.overlay image x = .ok y) ↔ ∀ k ∈ f.indices, -x.length ≤ k ∧ k < x.length := by
  unfold overlay
  rw [write_succeeds_iff]
  simp only [List.forall_mem_map, indices, place_isSome_iff]

theorem getElem?_overlay {f : Fixings α} {image : α → β} {x y : List β}
    (h : f.overlay image x = .ok y) (i : Nat) :
    y[i]? = ((pinned x.length i f.entries).map image).or x[i]? := by
  rw [getElem?_write h, pinned_map]

end Fixings

namespace Node

open Fixings

variable {α : Type} {node : Node α} {n : Nat}

theorem base_eq_ok_iff {x : List α} :
    node.base n = .ok x ↔ node.fixed.overlay id (node.solution.take n) = .ok x :=
  mapError_eq_ok_iff

theorem bounds_eq_ok_iff [Zero α] [One α] {box : List (α × α)} :
    node.bounds n = .ok box ↔
      node.fixed.overlay (fun v => (v, v)) (List.replicate n (0, 1)) = .ok box :=
  mapError_eq_ok_iff

/-- A point with an entry for each variable can be read under fixings that fit it. -/
theorem base_succeeds (hlong : n ≤ node.solution.length)
    (hfit : ∀ k ∈ node.fixed.indices, -n ≤ k ∧ k < n) :
    ∃ x, node.base n = .ok x ∧ x.length = n := by
  have htake : (node.solution.take n).length = n := by
    rw [List.length_take]
    omega
  have hplaced : ∀ k ∈ node.fixed.indices, -(node.solution.take n).length ≤ k ∧
      k < (node.solution.take n).length := by rwa [htake]
  obtain ⟨x, hx⟩ : ∃ x, node.fixed.overlay id (node.solution.take n) = .ok x :=
    overlay_succeeds_iff.2 hplaced
  exact ⟨x, base_eq_ok_iff.2 hx, by rw [length_write hx, htake]⟩

/-- A node has a box only where every index has a place. -/
theorem bounds_fit [Zero α] [One α] {box : List (α × α)} (h : node.bounds n = .ok box) :
    ∀ k ∈ node.fixed.indices, -n ≤ k ∧ k < n := by
  have fits := overlay_succeeds_iff.1 ⟨box, bounds_eq_ok_iff.1 h⟩
  rwa [List.length_replicate] at fits

theorem length_bounds [Zero α] [One α] {box : List (α × α)} (h : node.bounds n = .ok box) :
    box.length = n := by
  rw [length_write (bounds_eq_ok_iff.1 h), List.length_replicate]

theorem getElem?_bounds [Zero α] [One α] {box : List (α × α)} (h : node.bounds n = .ok box)
    {i : Nat} (hi : i < n) :
    box[i]? = some (((pinned n i node.fixed.entries).map fun v => (v, v)).getD (0, 1)) := by
  rw [getElem?_overlay (bounds_eq_ok_iff.1 h), List.length_replicate]
  cases pinned n i node.fixed.entries <;> simp [hi]

end Node

end BinaryQuadratic
