import BinaryQuadratic.Proofs.Overlay
import BinaryQuadratic.Relaxation.Solve

/-!
# Readers of fixed values

Three loops read the fixed values of a node: one makes its box, one its base point, one the start of
its relaxation. A fourth lists the unfixed variables.

* `Fits`, `Misfit`: indices that have a place, and the first one that has none;
* `Means`, `Stands`: the two indices of a variable, and the value that it is left with;
* `overlay_misfit`: where a loop stops, and `getElem?_overlay_stands`, `getElem?_overlay_untouched`:
  what it leaves where it does not;
* `unplaced_misplacedBound`, `misplaced_cases`: what the fault of such an index is about;
* `unfixed_eq_untouched_iff`: when the list of unfixed variables is the complement of those with a
  value;
* `readers_agree`: all of this, for the three readers together;
* `readers_part_wide`: an index so wide that their faults differ in kind.
-/

namespace BinaryQuadratic

namespace Fixings

variable {α β : Type} {f : Fixings α} {n i : Nat} {k : Int}

/-- An index with a place among `n` variables, counted from the front or from the end. -/
def Fits (n : Nat) (k : Int) : Prop := -n ≤ k ∧ k < n

instance (n : Nat) (k : Int) : Decidable (Fits n k) := inferInstanceAs (Decidable (_ ∧ _))

/-- The first index without a place, in the order in which they were fixed. -/
def Misfit (f : Fixings α) (n : Nat) (k : Int) : Prop :=
  ∃ before v after, f.entries = before ++ (k, v) :: after ∧ (∀ e ∈ before, Fits n e.1) ∧ ¬Fits n k

/-- An index of variable `i`: its own, or the one that counts from the end. -/
def Means (n i : Nat) (k : Int) : Prop := k = i ∨ k = i - n

/-- The value that variable `i` is left with: that of its last index, in the order in which they
were fixed. -/
def Stands (f : Fixings α) (n i : Nat) (v : α) : Prop :=
  ∃ before k after, f.entries = before ++ (k, v) :: after ∧ Means n i k ∧
    ∀ e ∈ after, ¬Means n i e.1

/-- Neither index of variable `i` is fixed. -/
def Untouched (f : Fixings α) (n i : Nat) : Prop :=
  (i : Int) ∉ f.indices ∧ (i : Int) - n ∉ f.indices

/-- The variables of which neither index is fixed, in ascending order. -/
def untouched (f : Fixings α) (n : Nat) : List Nat :=
  (List.range n).filter fun i : Nat => !f.contains i && !f.contains (i - n)

theorem mem_untouched : i ∈ f.untouched n ↔ i < n ∧ f.Untouched n i := by
  simp [untouched, Untouched, contains]

theorem place_eq_some_iff_means (hi : i < n) : place n k = some i ↔ Means n i k := by
  unfold Means
  rw [place_eq_some_iff]
  omega

theorem untouched_iff : f.Untouched n i ↔ ∀ e ∈ f.entries, ¬Means n i e.1 := by
  unfold Untouched Means
  rw [← List.forall_mem_map (f := Prod.fst) (P := fun k => ¬(k = (i : Int) ∨ k = (i : Int) - n))]
  constructor
  · rintro ⟨hown, hend⟩ k hk (rfl | rfl)
    · exact hown hk
    · exact hend hk
  · intro h
    exact ⟨fun hk => h _ hk (.inl rfl), fun hk => h _ hk (.inr rfl)⟩

theorem pinned_eq_none_iff (hi : i < n) {entries : List (Int × β)} :
    pinned n i entries = none ↔ ∀ e ∈ entries, ¬Means n i e.1 := by
  constructor
  · intro h e he hmeans
    obtain ⟨before, after, rfl⟩ := List.append_of_mem he
    rw [pinned_append, pinned, if_pos ((place_eq_some_iff_means hi).2 hmeans)] at h
    cases hafter : pinned n i after <;> simp [hafter] at h
  · intro h
    exact pinned_of_not_placed fun e he hplace => h e he ((place_eq_some_iff_means hi).1 hplace)

/-- The value left at a place is that of the last pair whose index has it. -/
theorem pinned_eq_some_iff (hi : i < n) {entries : List (Int × β)} {v : β} :
    pinned n i entries = some v ↔ ∃ before k after, entries = before ++ (k, v) :: after ∧
      Means n i k ∧ ∀ e ∈ after, ¬Means n i e.1 := by
  constructor
  · induction entries with
    | nil => nofun
    | cons e rest ih =>
      intro h
      rw [pinned, Option.or_eq_some_iff] at h
      -- A later pair of the variable decides; the first one counts only where there is none.
      rcases h with hlater | ⟨hnone, hfirst⟩
      · obtain ⟨before, k, after, rfl, hmeans, hlast⟩ := ih hlater
        exact ⟨e :: before, k, after, rfl, hmeans, hlast⟩
      · split at hfirst
        · rename_i hplace
          obtain rfl := Option.some.inj hfirst
          exact ⟨[], e.1, rest, rfl, (place_eq_some_iff_means hi).1 hplace,
            (pinned_eq_none_iff hi).1 hnone⟩
        · cases hfirst
  · rintro ⟨before, k, after, rfl, hmeans, hlast⟩
    rw [pinned_append, pinned, (pinned_eq_none_iff hi).2 hlast, Option.none_or,
      if_pos ((place_eq_some_iff_means hi).2 hmeans), Option.some_or]

theorem stands_or_untouched (hi : i < n) : (∃ v, f.Stands n i v) ∨ f.Untouched n i := by
  cases h : pinned n i f.entries with
  | some v => exact .inl ⟨v, (pinned_eq_some_iff hi).1 h⟩
  | none => exact .inr (untouched_iff.2 ((pinned_eq_none_iff hi).1 h))

theorem getElem?_overlay_stands {image : α → β} {x y : List β} (h : f.overlay image x = .ok y)
    (hx : x.length = n) (hi : i < n) {v : α} (hv : f.Stands n i v) : y[i]? = some (image v) := by
  rw [getElem?_overlay h, hx, (pinned_eq_some_iff hi).2 hv, Option.map_some, Option.some_or]

theorem getElem?_overlay_untouched {image : α → β} {x y : List β}
    (h : f.overlay image x = .ok y) (hx : x.length = n) (hi : i < n) (hfree : f.Untouched n i) :
    y[i]? = x[i]? := by
  rw [getElem?_overlay h, hx, (pinned_eq_none_iff hi).2 (untouched_iff.1 hfree), Option.map_none,
    Option.none_or]

theorem exists_misfit (h : ∃ k ∈ f.indices, ¬Fits n k) : ∃ k, f.Misfit n k := by
  obtain ⟨k, hk, hmisfit⟩ := h
  obtain ⟨e, he, rfl⟩ := List.mem_map.1 hk
  cases hfind : f.entries.find? fun e => !decide (Fits n e.1) with
  | none => exact absurd (List.find?_eq_none.1 hfind e he) (by simpa using hmisfit)
  | some first =>
    obtain ⟨hfirst, before, after, hentries, hbefore⟩ := List.find?_eq_some_iff_append.1 hfind
    exact ⟨first.1, before, first.2, after, hentries, by simpa using hbefore, by simpa using hfirst⟩

theorem place_fits (h : Fits n k) : ∃ p, place n k = some p :=
  Option.isSome_iff_exists.1 (place_isSome_iff.2 h)

theorem place_misfits (h : ¬Fits n k) : place n k = none := by
  rw [← Option.not_isSome_iff_eq_none, place_isSome_iff]
  exact h

theorem write_misfit {before after : List (Int × β)} {v : β} (hk : ¬Fits n k) {x : List β}
    (hx : x.length = n) (hbefore : ∀ e ∈ before, Fits n e.1) :
    write x (before ++ (k, v) :: after) = .error k := by
  induction before generalizing x with
  | nil => rw [List.nil_append, write, hx, place_misfits hk]
  | cons e rest ih =>
    obtain ⟨hfirst, hrest⟩ := List.forall_mem_cons.1 hbefore
    obtain ⟨p, hp⟩ := place_fits hfirst
    rw [List.cons_append, write, hx, hp]
    exact ih (by rw [List.length_set, hx]) hrest

/-- Writing stops at the first index without a place. -/
theorem overlay_misfit (h : f.Misfit n k) (image : α → β) {x : List β} (hx : x.length = n) :
    f.overlay image x = .error k := by
  obtain ⟨before, v, after, hentries, hbefore, hk⟩ := h
  rw [overlay, hentries, List.map_append, List.map_cons]
  refine write_misfit hk hx ?_
  rw [List.forall_mem_map]
  exact hbefore

/-- An index that counts from the end leaves its variable on the list of unfixed ones, unless the
variable's own index is fixed as well. -/
theorem unfixed_eq_untouched_iff (hfits : ∀ k ∈ f.indices, Fits n k) :
    f.unfixed n = f.untouched n ↔ ∀ k ∈ f.indices, k < 0 → k + n ∈ f.indices := by
  constructor
  · intro h k hk hneg
    have hfit := hfits k hk
    unfold Fits at hfit
    obtain ⟨i, hi⟩ : ∃ i : Nat, (i : Int) = k + n := ⟨(k + n).toNat, by omega⟩
    rw [← hi]
    -- With its own index missing the variable is listed as unfixed, though it has a value.
    apply Decidable.byContradiction
    intro hfree
    have listed : i ∈ f.untouched n := h ▸ mem_unfixed.2 ⟨by omega, hfree⟩
    have hend : (i : Int) - n ∉ f.indices := (mem_untouched.1 listed).2.2
    rw [hi, Int.add_sub_cancel] at hend
    exact hend hk
  · intro h
    apply List.filter_congr
    intro i hi
    have hlt := List.mem_range.1 hi
    have implied : (i : Int) - n ∈ f.indices → (i : Int) ∈ f.indices := by
      intro hend
      have := h _ hend (by omega)
      rwa [Int.sub_add_cancel] at this
    by_cases hown : (i : Int) ∈ f.indices
    · simp [contains, hown]
    · simp [contains, hown, mt implied hown]

end Fixings

namespace Fault

/-- The fault of an index that is none of a sequence. -/
def unplaced : Fault → Bool
  | .outOfBounds .. | .unusableIndex | .boundIndex | .wideBoundIndex | .scalarStart => true
  | _ => false

/-- An integer of 64 bits, but only without a sign. -/
def Unsigned (k : Int) : Prop := indexRange ≤ k ∧ k < 2 * indexRange

theorem unplaced_misplacedBound (k : Int) : (misplacedBound k).unplaced = true := by
  unfold misplacedBound
  split <;> rfl

/-- An index that is an integer of 64 bits only without a sign is too wide for a vector to be asked
for it. Any other one is none of the vector's. -/
theorem misplaced_cases (k : Int) (n : Nat) :
    (Unsigned k ∧ misplaced k n = .wideIndex) ∨
      (¬Unsigned k ∧ (misplaced k n).unplaced = true) := by
  unfold Unsigned misplaced isIndex indexRange
  split
  · rename_i h
    exact .inr ⟨by simp at h; omega, rfl⟩
  · split
    · rename_i h h'
      exact .inl ⟨by simp at h h'; omega, rfl⟩
    · rename_i h h'
      exact .inr ⟨by simp at h h'; omega, rfl⟩

end Fault

namespace Node

open Fixings Relaxation

variable {α : Type} [Scalar α] {node : Node α} {start : List α} {n : Nat} {k : Int}

/-- All three readers stop at the same index. -/
structure Stopped (node : Node α) (start : List α) (n : Nat) (k : Int) : Prop where
  first : node.fixed.Misfit n k
  bounds : node.bounds n = .error (.misplacedBound k)
  base : node.base n = .error (.misplaced k n)
  project : (Start.vector start).project node.fixed n = .error (.misplaced k n)

/-- All three readers read the same values: a variable that has one is pinned to it, and any other
one keeps its range and its entries. -/
structure Read (node : Node α) (start : List α) (n : Nat) (box : List (α × α)) (x y : List α) :
    Prop where
  bounds : node.bounds n = .ok box
  base : node.base n = .ok x
  project : (Start.vector start).project node.fixed n = .ok y
  lengths : box.length = n ∧ x.length = n ∧ y.length = n
  pinned : ∀ i < n, ∀ v, node.fixed.Stands n i v →
    box[i]? = some (v, v) ∧ x[i]? = some v ∧ y[i]? = some v
  untouched : ∀ i < n, node.fixed.Untouched n i →
    box[i]? = some (0, 1) ∧ x[i]? = node.solution[i]? ∧ y[i]? = start[i]?

omit [Scalar α] in
theorem length_take (hlong : n ≤ node.solution.length) : (node.solution.take n).length = n := by
  rw [List.length_take]
  omega

theorem project_vector (fixed : Fixings α) (start : List α) (n : Nat) :
    (Start.vector start).project fixed n
      = (fixed.overlay id start).mapError fun k => .misplaced k start.length := rfl

theorem stopped_of_misfit (hlong : n ≤ node.solution.length) (hstart : start.length = n)
    (h : node.fixed.Misfit n k) : node.Stopped start n k where
  first := h
  bounds := by
    rw [Node.bounds, overlay_misfit h _ List.length_replicate]
    rfl
  base := by
    rw [Node.base, overlay_misfit h _ (length_take hlong), length_take hlong]
    rfl
  project := by
    rw [project_vector, overlay_misfit h _ hstart, hstart]
    rfl

theorem read_of_fits (hlong : n ≤ node.solution.length) (hstart : start.length = n)
    (hfits : ∀ k ∈ node.fixed.indices, Fits n k) : ∃ box x y, node.Read start n box x y := by
  have htake := length_take hlong
  have hbox : (List.replicate n ((0 : α), (1 : α))).length = n := List.length_replicate
  have written {β : Type} (image : α → β) {z : List β} (hz : z.length = n) :
      ∃ w, node.fixed.overlay image z = .ok w := overlay_succeeds_iff.2 (hz.symm ▸ hfits)
  obtain ⟨box, hbounds⟩ := written (fun v => (v, v)) hbox
  obtain ⟨x, hbase⟩ := written id htake
  obtain ⟨y, hproject⟩ := written id hstart
  refine ⟨box, x, y, bounds_eq_ok_iff.2 hbounds, base_eq_ok_iff.2 hbase,
    mapError_eq_ok_iff.2 hproject, ⟨?_, ?_, ?_⟩, ?_, ?_⟩
  · rw [length_write hbounds, hbox]
  · rw [length_write hbase, htake]
  · rw [length_write hproject, hstart]
  · intro i hi v hv
    exact ⟨getElem?_overlay_stands hbounds hbox hi hv, getElem?_overlay_stands hbase htake hi hv,
      getElem?_overlay_stands hproject hstart hi hv⟩
  · intro i hi hfree
    rw [getElem?_overlay_untouched hbounds hbox hi hfree,
      getElem?_overlay_untouched hbase htake hi hfree,
      getElem?_overlay_untouched hproject hstart hi hfree, List.getElem?_replicate_of_lt hi,
      List.getElem?_take_of_lt hi]
    exact ⟨rfl, rfl, rfl⟩

/-- **The readers of fixed values agree.** Where some index has no place, box, base point and start
all stop at the first such one, each with the fault of an index that is none of the sequence; only
where that index is an integer of 64 bits without a sign, base point and start find it too wide.
Where every index has a place all three are read. A variable has the value of whichever of its two
indices was fixed last in all of them, and a variable with neither keeps its range and its entries.
The unfixed variables are those without a value exactly if with every index that counts from the end
the variable's own index is fixed. -/
theorem readers_agree (node : Node α) {start : List α} {n : Nat}
    (hlong : n ≤ node.solution.length) (hstart : start.length = n) :
    ((∃ k ∈ node.fixed.indices, ¬Fits n k) → ∃ k, node.Stopped start n k ∧
      (Fault.misplacedBound k).unplaced = true ∧
      ((Fault.Unsigned k ∧ Fault.misplaced k n = .wideIndex) ∨
        (¬Fault.Unsigned k ∧ (Fault.misplaced k n).unplaced = true))) ∧
    ((∀ k ∈ node.fixed.indices, Fits n k) →
      (∃ box x y, node.Read start n box x y) ∧
      (∀ i < n, (∃ v, node.fixed.Stands n i v) ∨ node.fixed.Untouched n i) ∧
      (node.fixed.unfixed n = node.fixed.untouched n ↔
        ∀ k ∈ node.fixed.indices, k < 0 → k + n ∈ node.fixed.indices)) := by
  constructor
  · intro h
    obtain ⟨k, hk⟩ := exists_misfit h
    exact ⟨k, stopped_of_misfit hlong hstart hk, Fault.unplaced_misplacedBound k,
      Fault.misplaced_cases k n⟩
  · intro hfits
    exact ⟨read_of_fits hlong hstart hfits, fun i hi => stands_or_untouched hi,
      unfixed_eq_untouched_iff hfits⟩

/-- Two variables are fixed by both of their indices, one by its own last and one from the end. -/
def aliasedNode : Node Rat :=
  ⟨none, [1 / 2, 1 / 3, 1 / 4], ⟨[(-1, 5), (1, 4), (2, 7), (-2, 9)], by decide⟩⟩

/-- A variable, and two indices that are those of none. -/
def strayNode : Node Rat := ⟨none, [1 / 2, 1 / 3, 1 / 4], ⟨[(0, 1), (-4, 2), (3, 0)], by decide⟩⟩

theorem readers_agree_aliased :
    (3 ≤ aliasedNode.solution.length ∧ ([0, 1, 0] : List Rat).length = 3 ∧
      (∀ k ∈ aliasedNode.fixed.indices, Fits 3 k) ∧
      ∃ box x y, aliasedNode.Read [0, 1, 0] 3 box x y ∧
        (box[0]? = some (0, 1) ∧ x[0]? = some (1 / 2) ∧ y[0]? = some 0) ∧
        (box[1]? = some (9, 9) ∧ x[1]? = some 9 ∧ y[1]? = some 9) ∧
        (box[2]? = some (7, 7) ∧ x[2]? = some 7 ∧ y[2]? = some 7)) ∧
    3 ≤ strayNode.solution.length ∧ (∃ k ∈ strayNode.fixed.indices, ¬Fits 3 k) ∧
      ∃ k, strayNode.Stopped [0, 1, 0] 3 k := by
  have hlong : 3 ≤ aliasedNode.solution.length := by decide
  have hlong' : 3 ≤ strayNode.solution.length := by decide
  have hstart : ([0, 1, 0] : List Rat).length = 3 := rfl
  have hfits : ∀ k ∈ aliasedNode.fixed.indices, Fits 3 k := by decide
  have hstray : ∃ k ∈ strayNode.fixed.indices, ¬Fits 3 k := by decide
  obtain ⟨-, reading⟩ := readers_agree aliasedNode hlong hstart
  obtain ⟨⟨box, x, y, hread⟩, -, -⟩ := reading hfits
  obtain ⟨stopping, -⟩ := readers_agree strayNode hlong' hstart
  obtain ⟨k, hk, -⟩ := stopping hstray
  have own : aliasedNode.fixed.Stands 3 2 7 :=
    ⟨[(-1, 5), (1, 4)], 2, [(-2, 9)], rfl, .inl rfl, by unfold Means; decide⟩
  have fromEnd : aliasedNode.fixed.Stands 3 1 9 :=
    ⟨[(-1, 5), (1, 4), (2, 7)], -2, [], rfl, .inr rfl, nofun⟩
  have neither : aliasedNode.fixed.Untouched 3 0 := by unfold Untouched; decide
  exact ⟨⟨hlong, hstart, hfits, box, x, y, hread, hread.untouched 0 (by decide) neither,
    hread.pinned 1 (by decide) 9 fromEnd, hread.pinned 2 (by decide) 7 own⟩, hlong', hstray, k, hk⟩

/-- A variable fixed by an integer of 64 bits without a sign. -/
def wideNode : Node Rat := ⟨none, [1 / 2, 1 / 4], ⟨[(0x8000000000000000, 1)], by decide⟩⟩

/-- **The readers part at wide indices.** All of them stop, but only the box finds that the index is
none of its sequence: for base point and start it is too wide to ask. -/
theorem readers_part_wide :
    wideNode.solution.length = 2 ∧ (∃ k ∈ wideNode.fixed.indices, ¬Fits 2 k) ∧
    wideNode.bounds 2 = .error .wideBoundIndex ∧ Fault.wideBoundIndex.unplaced = true ∧
    wideNode.base 2 = .error .wideIndex ∧
    (Start.vector wideNode.solution).project wideNode.fixed 2 = .error .wideIndex ∧
    ¬∃ fault, wideNode.base 2 = .error fault ∧ fault.unplaced = true := by
  have hbase : wideNode.base 2 = .error .wideIndex := rfl
  refine ⟨rfl, by decide, rfl, rfl, hbase, rfl, ?_⟩
  rintro ⟨fault, hfault, hunplaced⟩
  rw [hbase] at hfault
  cases hfault
  cases hunplaced

end Node

end BinaryQuadratic
