import Mathlib.Data.List.Nodup
import BinaryQuadratic.Proofs.Overlay

/-!
# Points that agree with fixed values

* `Holds`: a point has every fixed value in its place;
* `Holds.unique`: where every variable is fixed only one point has the fixed values;
* `Extends`: further variables are fixed, each at zero or one;
* `holds_insert`: fixing one more variable asks for one more entry;
* `length_unfixed_add_size`: fixed and unfixed variables make up all of them.
-/

namespace BinaryQuadratic.Fixings

variable {α : Type}

def entry? (y : List α) (k : Int) : Option α := (place y.length k).bind fun i => y[i]?

/-- A point has every fixed value in its place. -/
def Holds (f : Fixings α) (y : List α) : Prop := ∀ e ∈ f.entries, entry? y e.1 = some e.2

instance [DecidableEq α] (f : Fixings α) (y : List α) : Decidable (f.Holds y) :=
  inferInstanceAs (Decidable (∀ e ∈ f.entries, entry? y e.1 = some e.2))

/-- Beyond the fixings of `base` only variables are fixed, each at zero or one. -/
def Extends [Zero α] [One α] (base f : Fixings α) (n : Nat) : Prop :=
  ∃ added, f.entries = base.entries ++ added ∧
    ∀ e ∈ added, (0 ≤ e.1 ∧ e.1 < n) ∧ (e.2 = 0 ∨ e.2 = 1)

theorem entry?_natCast (y : List α) (i : Nat) : entry? y i = y[i]? := by
  unfold entry?
  by_cases h : i < y.length
  · rw [place_eq_some_iff.2 ⟨h, .inl rfl⟩]
    rfl
  · have hnone : place y.length (i : Int) = none := by
      rw [← Option.not_isSome_iff_eq_none, place_isSome_iff]
      omega
    rw [hnone, List.getElem?_eq_none (Nat.le_of_not_lt h)]
    rfl

theorem put_absent {k : Int} {v : α} {entries : List (Int × α)}
    (h : k ∉ entries.map Prod.fst) : put k v entries = entries ++ [(k, v)] := by
  induction entries with
  | nil => rfl
  | cons e rest ih =>
    rw [List.map_cons, List.mem_cons, not_or] at h
    rw [put, if_neg (Ne.symm h.1), ih h.2, List.cons_append]

theorem entries_insert {f : Fixings α} {k : Int} (h : k ∉ f.indices) (v : α) :
    (f.insert k v).entries = f.entries ++ [(k, v)] := put_absent h

theorem indices_insert {f : Fixings α} {k : Int} (h : k ∉ f.indices) (v : α) :
    (f.insert k v).indices = f.indices ++ [k] := by
  unfold indices
  rw [entries_insert h, List.map_append, List.map_singleton]

theorem holds_insert {f : Fixings α} {i : Nat} (h : (i : Int) ∉ f.indices) (v : α) (y : List α) :
    (f.insert i v).Holds y ↔ f.Holds y ∧ y[i]? = some v := by
  unfold Holds
  rw [entries_insert h, List.forall_mem_append, List.forall_mem_singleton, entry?_natCast]

/-- A point has the fixed values if it has them under their own indices. -/
theorem holds_of_agrees {f : Fixings α} {n : Nat} (h : f.Within n) {y : List α}
    (hy : ∀ i < n, ∀ v, f.get? i = some v → y[i]? = some v) : f.Holds y := by
  intro e he
  have hin : 0 ≤ e.1 ∧ e.1 < n := h e.1 (List.mem_map_of_mem he)
  have hcast : ((e.1.toNat : Nat) : Int) = e.1 := by omega
  have hvalue : f.get? (e.1.toNat : Nat) = some e.2 := by
    rw [hcast]
    exact get?_eq_some_iff.2 he
  rw [← hcast, entry?_natCast]
  exact hy e.1.toNat (by omega) e.2 hvalue

/-- A point with the fixed values has that of a fixed variable. -/
theorem Holds.getElem? {f : Fixings α} {y : List α} (h : f.Holds y) {i : Nat} {v : α}
    (hv : f.get? i = some v) : y[i]? = some v := by
  rw [← entry?_natCast]
  exact h ((i : Int), v) (get?_eq_some_iff.1 hv)

/-- Points with the same fixed values agree on every fixed variable. -/
theorem Holds.agree {f : Fixings α} {y z : List α} (hy : f.Holds y) (hz : f.Holds z) {i : Nat}
    (hi : (i : Int) ∈ f.indices) : y[i]? = z[i]? := by
  cases hv : f.get? i with
  | none => exact absurd hi (get?_eq_none_iff.1 hv)
  | some v => rw [hy.getElem? hv, hz.getElem? hv]

/-- Where every variable is fixed only one point has the fixed values. -/
theorem Holds.unique {f : Fixings α} {n : Nat} {y z : List α} (hy : f.Holds y) (hz : f.Holds z)
    (hylength : y.length = n) (hzlength : z.length = n)
    (hfull : ∀ i < n, (i : Int) ∈ f.indices) : y = z := by
  apply List.ext_getElem?
  intro i
  by_cases hi : i < n
  · exact hy.agree hz (hfull i hi)
  · rw [List.getElem?_eq_none (by omega), List.getElem?_eq_none (by omega)]

section Extension

variable [Zero α] [One α] {base f : Fixings α} {n : Nat}

theorem Extends.refl (base : Fixings α) (n : Nat) : base.Extends base n :=
  ⟨[], (List.append_nil _).symm, nofun⟩

theorem Extends.trans {g : Fixings α} (hf : base.Extends f n) (hg : f.Extends g n) :
    base.Extends g n := by
  obtain ⟨first, hentries, hfirst⟩ := hf
  obtain ⟨further, hentries', hfurther⟩ := hg
  refine ⟨first ++ further, ?_, ?_⟩
  · rw [hentries', hentries, List.append_assoc]
  · rw [List.forall_mem_append]
    exact ⟨hfirst, hfurther⟩

theorem Extends.insert (h : base.Extends f n) {i : Nat} (hi : i ∈ f.unfixed n) {v : α}
    (hv : v = 0 ∨ v = 1) : base.Extends (f.insert i v) n := by
  obtain ⟨added, hentries, hadded⟩ := h
  obtain ⟨hlt, hfree⟩ := mem_unfixed.1 hi
  refine ⟨added ++ [((i : Int), v)], ?_, ?_⟩
  · rw [entries_insert hfree, hentries, List.append_assoc]
  · rw [List.forall_mem_append, List.forall_mem_singleton]
    exact ⟨hadded, ⟨by omega, by omega⟩, hv⟩

theorem Extends.within (h : base.Extends f n) (hb : base.Within n) : f.Within n := by
  obtain ⟨added, hentries, hadded⟩ := h
  unfold Within indices at hb ⊢
  rw [hentries, List.map_append, List.forall_mem_append]
  refine ⟨hb, ?_⟩
  rw [List.forall_mem_map]
  exact fun e he => (hadded e he).1

theorem Extends.holds (h : base.Extends f n) {y : List α} (hy : f.Holds y) : base.Holds y := by
  obtain ⟨added, hentries, -⟩ := h
  intro e he
  exact hy e (hentries ▸ List.mem_append_left _ he)

/-- A fixed value is one of the base, or zero or one. -/
theorem Extends.value (h : base.Extends f n) {e : Int × α} (he : e ∈ f.entries) :
    e ∈ base.entries ∨ e.2 = 0 ∨ e.2 = 1 := by
  obtain ⟨added, hentries, hadded⟩ := h
  rw [hentries, List.mem_append] at he
  rcases he with hbase | hfurther
  · exact .inl hbase
  · exact .inr (hadded e hfurther).2

/-- The place of a variable that the base fixes under its own index keeps its value. -/
theorem Extends.pinned_own (h : base.Extends f n) {i : Nat} (hi : (i : Int) ∈ base.indices) :
    pinned n i f.entries = pinned n i base.entries := by
  obtain ⟨added, hentries, hadded⟩ := h
  have distinct := f.distinct
  rw [hentries, List.map_append, List.nodup_append] at distinct
  have untouched : pinned n i added = none := by
    refine pinned_of_not_placed fun e he hplace => ?_
    have own : e.1 = i := by
      have := (hadded e he).1
      rcases (place_eq_some_iff.1 hplace).2 with heq | hneg
      · exact heq
      · have := (place_eq_some_iff.1 hplace).1
        omega
    exact distinct.2.2 i hi e.1 (List.mem_map_of_mem he) own.symm
  rw [hentries, pinned_append, untouched, Option.none_or]

theorem Extends.not_mem (h : base.Extends f n) {k : Int} (hk : k ∉ f.indices) :
    k ∉ base.indices := by
  obtain ⟨added, hentries, -⟩ := h
  intro hin
  apply hk
  unfold indices
  rw [hentries, List.map_append]
  exact List.mem_append_left _ hin

end Extension

/-- Fixed variables and unfixed ones are as many as there are. -/
theorem length_unfixed_add_size {f : Fixings α} {n : Nat} (h : f.Within n) :
    (f.unfixed n).length + f.size = n := by
  have own : (((List.range n).filter fun i : Nat => f.contains i).map
      fun i : Nat => (i : Int)).Perm f.indices := by
    have inj : Function.Injective fun i : Nat => (i : Int) := fun _ _ => Int.ofNat.inj
    refine (List.perm_ext_iff_of_nodup ((List.nodup_range.filter _).map inj) f.distinct).2 ?_
    have fixed (i : Nat) : i ∈ (List.range n).filter (fun i : Nat => f.contains i) ↔
        i < n ∧ (i : Int) ∈ f.indices := by simp [contains]
    intro k
    rw [List.mem_map]
    constructor
    · rintro ⟨i, hi, rfl⟩
      exact ((fixed i).1 hi).2
    · intro hk
      have := h k hk
      have hcast : ((k.toNat : Nat) : Int) = k := by omega
      exact ⟨k.toNat, (fixed _).2 ⟨by omega, by rwa [hcast]⟩, hcast⟩
  have hsize : ((List.range n).filter fun i : Nat => f.contains i).length = f.size := by
    have := own.length_eq
    rwa [List.length_map, indices, List.length_map] at this
  have hsplit := List.length_eq_length_filter_add (l := List.range n) fun i : Nat => f.contains i
  rw [List.length_range] at hsplit
  unfold unfixed
  omega

theorem unfixed_eq_nil_iff_size {f : Fixings α} {n : Nat} (h : f.Within n) :
    f.unfixed n = [] ↔ f.size = n := by
  have := length_unfixed_add_size h
  rw [← List.length_eq_zero_iff]
  omega

end BinaryQuadratic.Fixings
