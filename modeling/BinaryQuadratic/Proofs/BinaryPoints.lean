import Mathlib.Data.Set.Finite.Lemmas
import Mathlib.Data.Set.Finite.List
import Mathlib.Order.Bounds.Basic
import BinaryQuadratic.Proofs.Assignments

/-!
# Binary points below fixed values

* `corners`: all points of zeros and ones;
* `binaryPoints`: those that have the fixed values;
* `binaryPoints_split`: fixing one more variable, either way, loses none of them;
* `exists_optimum`: a function has a least value on them;
* `binary_of_agrees`: where all variables are fixed, the fixed values are such a point.
-/

namespace BinaryQuadratic.Fixings

variable {α : Type} [Zero α] [One α]

/-- Only variables are fixed, and only at zero or one. -/
def Binary (f : Fixings α) (n : Nat) : Prop :=
  ∀ e ∈ f.entries, (0 ≤ e.1 ∧ e.1 < n) ∧ (e.2 = 0 ∨ e.2 = 1)

/-- The points of zeros and ones that have the fixed values. -/
def binaryPoints (f : Fixings α) (n : Nat) : Set (List α) :=
  {y | y.length = n ∧ (∀ v ∈ y, v = 0 ∨ v = 1) ∧ f.Holds y}

def corners : Nat → List (List α)
  | 0 => [[]]
  | n + 1 => (corners n).map (0 :: ·) ++ (corners n).map (1 :: ·)

variable {base f : Fixings α} {n : Nat}

theorem mem_corners {y : List α} :
    y ∈ corners n ↔ y.length = n ∧ ∀ v ∈ y, v = 0 ∨ v = 1 := by
  induction n generalizing y with
  | zero =>
    rw [corners, List.mem_singleton, List.length_eq_zero_iff]
    constructor
    · rintro rfl
      exact ⟨rfl, nofun⟩
    · exact And.left
  | succ n ih =>
    rw [corners, List.mem_append, List.mem_map, List.mem_map]
    constructor
    · rintro (⟨z, hz, rfl⟩ | ⟨z, hz, rfl⟩)
      · exact ⟨congrArg (· + 1) (ih.1 hz).1, List.forall_mem_cons.2 ⟨.inl rfl, (ih.1 hz).2⟩⟩
      · exact ⟨congrArg (· + 1) (ih.1 hz).1, List.forall_mem_cons.2 ⟨.inr rfl, (ih.1 hz).2⟩⟩
    · rintro ⟨hlength, hbinary⟩
      obtain ⟨v, z, rfl⟩ := List.exists_cons_of_length_eq_add_one hlength
      obtain ⟨hv, hz⟩ := List.forall_mem_cons.1 hbinary
      have hmem : z ∈ corners n := ih.2 ⟨Nat.succ.inj hlength, hz⟩
      rcases hv with rfl | rfl
      · exact .inl ⟨z, hmem, rfl⟩
      · exact .inr ⟨z, hmem, rfl⟩

theorem Binary.within (h : f.Binary n) : f.Within n := by
  unfold Within indices
  rw [List.forall_mem_map]
  exact fun e he => (h e he).1

theorem Extends.binary (h : base.Extends f n) (hb : base.Binary n) : f.Binary n := by
  obtain ⟨added, hentries, hadded⟩ := h
  unfold Binary
  rw [hentries, List.forall_mem_append]
  exact ⟨hb, hadded⟩

theorem Extends.binaryPoints_subset (h : base.Extends f n) :
    f.binaryPoints n ⊆ base.binaryPoints n :=
  fun _ hy => ⟨hy.1, hy.2.1, h.holds hy.2.2⟩

/-- Fixing one more variable, at zero and at one, keeps every point on one side. -/
theorem binaryPoints_split {i : Nat} (hi : i ∈ f.unfixed n) {y : List α}
    (hy : y ∈ f.binaryPoints n) :
    y ∈ (f.insert i 0).binaryPoints n ∨ y ∈ (f.insert i 1).binaryPoints n := by
  obtain ⟨hlength, hbinary, hholds⟩ := hy
  obtain ⟨hlt, hfree⟩ := mem_unfixed.1 hi
  have hplace : i < y.length := by omega
  have hentry : y[i]? = some y[i] := List.getElem?_eq_getElem hplace
  rcases hbinary _ (List.mem_of_getElem? hentry) with hzero | hone
  · rw [hzero] at hentry
    exact .inl ⟨hlength, hbinary, (holds_insert hfree 0 y).2 ⟨hholds, hentry⟩⟩
  · rw [hone] at hentry
    exact .inr ⟨hlength, hbinary, (holds_insert hfree 1 y).2 ⟨hholds, hentry⟩⟩

theorem Binary.value (h : f.Binary n) {k : Int} {v : α} (hv : f.get? k = some v) :
    v = 0 ∨ v = 1 := (h (k, v) (get?_eq_some_iff.1 hv)).2

/-- Zero wherever nothing is fixed. -/
theorem binaryPoints_nonempty (h : f.Binary n) : (f.binaryPoints n).Nonempty := by
  refine ⟨(List.range n).map fun i : Nat => (f.get? i).getD 0, ?_, ?_, ?_⟩
  · rw [List.length_map, List.length_range]
  · rw [List.forall_mem_map]
    intro i _
    cases hv : f.get? i with
    | none => exact .inl rfl
    | some v => exact h.value hv
  · apply holds_of_agrees h.within
    intro i hi v hv
    simp [hi, hv]

theorem binaryPoints_finite (f : Fixings α) (n : Nat) : (f.binaryPoints n).Finite :=
  (corners n).finite_toSet.subset fun _ hy => mem_corners.2 ⟨hy.1, hy.2.1⟩

/-- A function on the points takes a least value. -/
theorem exists_optimum {β : Type} [LinearOrder β] (h : f.Binary n) (value : List α → β) :
    ∃ optimum, IsLeast (value '' f.binaryPoints n) optimum := by
  obtain ⟨y, hy, hleast⟩ := Set.exists_min_image (f.binaryPoints n) value
    (binaryPoints_finite f n) (binaryPoints_nonempty h)
  refine ⟨value y, Set.mem_image_of_mem value hy, ?_⟩
  rintro _ ⟨z, hz, rfl⟩
  exact hleast z hz

/-- Where every variable is fixed, a point with the fixed values is one of zeros and ones. -/
theorem binary_of_agrees (h : f.Binary n) (hfull : f.size = n) {x : List α}
    (hx : x.length = n) (hagrees : ∀ i < n, ∀ v, f.get? i = some v → x[i]? = some v) :
    x ∈ f.binaryPoints n := by
  refine ⟨hx, fun v hv => ?_, holds_of_agrees h.within hagrees⟩
  obtain ⟨i, hi⟩ := List.mem_iff_getElem?.1 hv
  have hlt : i < n := by
    have := (List.getElem?_eq_some_iff.1 hi).1
    omega
  have fixed : (i : Int) ∈ f.indices := by
    by_contra hfree
    have hmem : i ∈ f.unfixed n := mem_unfixed.2 ⟨hlt, hfree⟩
    rw [(unfixed_eq_nil_iff_size h.within).2 hfull] at hmem
    cases hmem
  cases hget : f.get? (i : Int) with
  | none => exact absurd fixed (get?_eq_none_iff.1 hget)
  | some w =>
    have := hagrees i hlt w hget
    rw [hi] at this
    cases this
    exact h.value hget

end BinaryQuadratic.Fixings
