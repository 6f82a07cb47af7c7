import BinaryQuadratic.KeyOrder
import Mathlib.Data.List.InsertIdx
import Mathlib.Data.List.Lex
import Mathlib.Data.Nat.Basic

/-!
# Keys that compare

Sorting keys goes through wherever any two of them compare, as texts do.

* `Comparable`, `sortedKeys_of_comparable`: each step of the arrangement, from the place of one key
  to the merging of all runs, meets no clash among such keys;
* `Text.code_injective`, `Text.Ascending.unique`: the order of code points tells texts apart, so
  the same texts are in this order in one way only;
* `Text.sorted`, `sortedKeys_texts`: texts are sorted in it.
-/

namespace BinaryQuadratic

namespace Plain

/-- An arrangement that meets no clash and has such a result. -/
def Passes {β : Type} (e : Except Clash β) (p : β → Prop) : Prop := ∃ b, e = .ok b ∧ p b

theorem Passes.bind {β γ : Type} {e : Except Clash β} {f : β → Except Clash γ} {p : β → Prop}
    {q : γ → Prop} (he : Passes e p) (hf : ∀ b, p b → Passes (f b) q) : Passes (e >>= f) q := by
  obtain ⟨b, rfl, hb⟩ := he
  exact hf b hb

/-- Keys of which any two compare. -/
def Comparable (like : Plain → Prop) : Prop :=
  ∀ {a b}, like a → like b → ∃ below, a.less? b = some below

section Comparable

variable {like : Plain → Prop} {key : Plain} {keys sorted run : List Plain}

theorem placeBetween_passes (h : Comparable like) (hkey : like key) (hsorted : ∀ k ∈ sorted, like k)
    (low high : Nat) : ∃ i, placeBetween key sorted low high = .ok i := by
  fun_induction placeBetween key sorted low high with
  | case1 => exact ⟨_, rfl⟩
  | case2 low high hlt middle other hother hclash =>
    obtain ⟨below, hbelow⟩ := h hkey (hsorted other (List.mem_of_getElem? hother))
    rw [hclash] at hbelow
    cases hbelow
  | case3 low high hlt middle other hother hbelow ih => exact ih
  | case4 low high hlt middle other hother hbelow ih => exact ih
  | case5 => exact ⟨_, rfl⟩

theorem placeAll_passes (h : Comparable like) (hsorted : ∀ k ∈ sorted, like k)
    (hkeys : ∀ k ∈ keys, like k) : Passes (placeAll sorted keys) fun run => ∀ k ∈ run, like k := by
  induction keys generalizing sorted with
  | nil => exact ⟨sorted, rfl, hsorted⟩
  | cons key rest ih =>
    obtain ⟨hkey, hrest⟩ := List.forall_mem_cons.1 hkeys
    obtain ⟨i, hi⟩ := placeBetween_passes h hkey hsorted 0 sorted.length
    unfold placeAll
    rw [hi]
    refine ih (fun k hk => ?_) hrest
    rcases List.eq_or_mem_of_mem_insertIdx hk with rfl | hk
    · exact hkey
    · exact hsorted k hk

def Parted (like : Plain → Prop) (parts : List Plain × List Plain) : Prop :=
  (∀ k ∈ parts.1, like k) ∧ ∀ k ∈ parts.2, like k

theorem followRun_passes (h : Comparable like) (falling : Bool) (hrun : ∀ k ∈ run, like k)
    (hkeys : ∀ k ∈ keys, like k) : Passes (followRun falling run keys) (Parted like) := by
  have turned : ∀ {run : List Plain}, (∀ k ∈ run, like k) →
      ∀ k ∈ (if falling then run else run.reverse), like k := by
    intro run hrun k hk
    split at hk
    · exact hrun k hk
    · exact hrun k (List.mem_reverse.1 hk)
  induction keys generalizing run with
  | nil => exact ⟨_, rfl, turned hrun, nofun⟩
  | cons key rest ih =>
    obtain ⟨hkey, hrest⟩ := List.forall_mem_cons.1 hkeys
    unfold followRun
    cases hlast : run.head? with
    | none => exact ⟨_, rfl, nofun, hkeys⟩
    | some last =>
      obtain ⟨below, hbelow⟩ := h hkey (hrun last (List.mem_of_mem_head? hlast))
      simp only [hbelow]
      split
      · exact ih (List.forall_mem_cons.2 ⟨hkey, hrun⟩) hrest
      · exact ⟨_, rfl, turned hrun, hkeys⟩

theorem firstRun_passes (h : Comparable like) (hkeys : ∀ k ∈ keys, like k) :
    Passes (firstRun keys) (Parted like) := by
  unfold firstRun
  split
  · next first second rest =>
    obtain ⟨hfirst, hkeys⟩ := List.forall_mem_cons.1 hkeys
    obtain ⟨hsecond, hrest⟩ := List.forall_mem_cons.1 hkeys
    obtain ⟨below, hbelow⟩ := h hsecond hfirst
    simp only [hbelow]
    refine followRun_passes h below (List.forall_mem_cons.2 ⟨hsecond, ?_⟩) hrest
    exact List.forall_mem_cons.2 ⟨hfirst, nofun⟩
  · exact ⟨_, rfl, hkeys, nofun⟩

theorem nextRun_passes (h : Comparable like) (length : Nat) (hkeys : ∀ k ∈ keys, like k) :
    Passes (nextRun length keys) (Parted like) := by
  refine (firstRun_passes h hkeys).bind fun parts hparts => ?_
  obtain ⟨hrun, hrest⟩ := hparts
  refine (placeAll_passes h hrun fun k hk => hrest k (List.mem_of_mem_take hk)).bind ?_
  exact fun run hrun => ⟨_, rfl, hrun, fun k hk => hrest k (List.mem_of_mem_drop hk)⟩

theorem mergeRuns_passes (h : Comparable like) {first second : Run}
    (hfirst : ∀ k ∈ first.keys, like k) (hsecond : ∀ k ∈ second.keys, like k) :
    Passes (mergeRuns first second) fun run => ∀ k ∈ run.keys, like k := by
  unfold mergeRuns
  split
  · next low high hlow hhigh =>
    obtain ⟨below, hbelow⟩ := h (hsecond high (List.mem_of_mem_head? hhigh))
      (hfirst low (List.mem_of_mem_head? hlow))
    simp only [hbelow]
    exact ⟨_, rfl, fun k hk => (List.mem_merge.1 hk).elim (hfirst k) (hsecond k)⟩
  · exact ⟨_, rfl, fun k hk => (List.mem_append.1 hk).elim (hfirst k) (hsecond k)⟩

def RunsOf (like : Plain → Prop) (runs : List Run) : Prop := ∀ run ∈ runs, ∀ k ∈ run.keys, like k

theorem settleRuns_passes (h : Comparable like) (depth : Nat) {last : Run} {runs : List Run}
    (hlast : ∀ k ∈ last.keys, like k) (hruns : RunsOf like runs) :
    Passes (settleRuns depth last runs) (RunsOf like) := by
  induction runs generalizing last with
  | nil => exact ⟨_, rfl, List.forall_mem_cons.2 ⟨hlast, nofun⟩⟩
  | cons before earlier ih =>
    obtain ⟨hbefore, hearlier⟩ := List.forall_mem_cons.1 hruns
    unfold settleRuns
    split
    · exact (mergeRuns_passes h hbefore hlast).bind fun merged hmerged => ih hmerged hearlier
    · exact ⟨_, rfl, List.forall_mem_cons.2 ⟨hlast, hruns⟩⟩

theorem collectRuns_passes (h : Comparable like) (total least count : Nat) {runs : List Run}
    {start : Nat} (hruns : RunsOf like runs) (hkeys : ∀ k ∈ keys, like k) :
    Passes (collectRuns total least runs start count keys) (RunsOf like) := by
  induction count generalizing runs start keys with
  | zero => exact ⟨runs, rfl, hruns⟩
  | succ count ih =>
    cases keys with
    | nil => exact ⟨runs, rfl, hruns⟩
    | cons key rest =>
      refine (nextRun_passes h least hkeys).bind fun parts hparts => ?_
      obtain ⟨hrun, hrest⟩ := hparts
      cases runs with
      | nil => exact ih (List.forall_mem_cons.2 ⟨hrun, nofun⟩) hrest
      | cons last earlier =>
        obtain ⟨hlast, hearlier⟩ := List.forall_mem_cons.1 hruns
        refine (settleRuns_passes h _ hlast hearlier).bind fun settled hsettled => ?_
        exact ih (List.forall_mem_cons.2 ⟨hrun, hsettled⟩) hrest

theorem mergeAll_passes (h : Comparable like) (count : Nat) {runs : List Run}
    (hruns : RunsOf like runs) : Passes (mergeAll count runs) fun _ => True := by
  induction count generalizing runs with
  | zero => exact ⟨_, rfl, trivial⟩
  | succ count ih =>
    match runs, hruns with
    | [], _ => exact ⟨_, rfl, trivial⟩
    | [_], _ => exact ⟨_, rfl, trivial⟩
    | [last, before], hruns =>
      obtain ⟨hlast, hruns⟩ := List.forall_mem_cons.1 hruns
      refine (mergeRuns_passes h (hruns before List.mem_cons_self) hlast).bind fun merged hm => ?_
      exact ih (List.forall_mem_cons.2 ⟨hm, nofun⟩)
    | last :: before :: third :: earlier, hruns =>
      obtain ⟨hlast, hruns⟩ := List.forall_mem_cons.1 hruns
      obtain ⟨hbefore, hruns⟩ := List.forall_mem_cons.1 hruns
      obtain ⟨hthird, hearlier⟩ := List.forall_mem_cons.1 hruns
      unfold mergeAll
      simp only
      split
      · refine (mergeRuns_passes h hthird hbefore).bind fun merged hm => ?_
        exact ih (List.forall_mem_cons.2 ⟨hlast, List.forall_mem_cons.2 ⟨hm, hearlier⟩⟩)
      · refine (mergeRuns_passes h hbefore hlast).bind fun merged hm => ?_
        exact ih (List.forall_mem_cons.2 ⟨hm, hruns⟩)

theorem arrange_passes (h : Comparable like) (hkeys : ∀ k ∈ keys, like k) :
    Passes (arrange keys) fun _ => True :=
  (collectRuns_passes h _ _ _ (List.forall_mem_nil _) hkeys).bind fun _ hruns =>
    mergeAll_passes h _ hruns

/-- Keys of which any two compare are sorted without a clash. -/
theorem sortedKeys_of_comparable (h : Comparable like) (hkeys : ∀ k ∈ keys, like k) :
    sortedKeys keys = .ok (keys.mergeSort atMost) := by
  obtain ⟨sorted, hsorted, -⟩ := arrange_passes h hkeys
  simp only [sortedKeys, clash?, hsorted]

end Comparable

end Plain

namespace Text

/-- The code points of a text, by which texts are ordered. -/
def codes (s : String) : List Nat := s.toList.map code

theorem below_iff {s t : String} : below s t = true ↔ codes s < codes t := decide_eq_true_iff

/-- No character stands for a half besides the one that is kept for it. -/
theorem code_injective : Function.Injective code := by
  intro c d h
  have valid : ∀ c : Char, c.toNat < 0xD800 ∨ 0xDFFF < c.toNat := fun c =>
    c.valid.imp id And.left
  have hc := valid c
  have hd := valid d
  refine Char.toNat_inj.1 ?_
  simp only [code, isHalf, Bool.and_eq_true, decide_eq_true_eq] at h
  unfold keptFrom halfCount firstHalf at h
  split at h <;> split at h <;> omega

theorem codes_injective : Function.Injective codes := fun _ _ h =>
  String.toList_inj.1 (List.map_injective_iff.2 code_injective h)

def Ascending (names : List String) : Prop := names.Pairwise fun s t => codes s ≤ codes t

/-- There is one order of code points for the same texts. -/
theorem Ascending.unique {names names' : List String} (h : Ascending names)
    (h' : Ascending names') (hperm : names.Perm names') : names = names' :=
  hperm.eq_of_pairwise (fun _ _ _ _ hle hge => codes_injective (le_antisymm hle hge)) h h'

def sorted (names : List String) : List String := names.mergeSort fun s t => !below t s

theorem sorted_ascending (names : List String) : Ascending (sorted names) := by
  have hle : ∀ s t, (!below t s) = true ↔ codes s ≤ codes t := by
    intro s t
    rw [Bool.not_eq_true', Bool.eq_false_iff, Ne, below_iff, not_lt]
  refine (List.pairwise_mergeSort ?_ ?_ names).imp fun {s t} h => (hle s t).1 h
  · intro s t u hst htu
    rw [hle] at *
    exact le_trans hst htu
  · intro s t
    rw [Bool.or_eq_true, hle, hle]
    exact le_total _ _

end Text

namespace Plain

/-- Texts are sorted by their code points and never clash. -/
theorem sortedKeys_texts (names : List String) :
    sortedKeys (names.map text) = .ok ((Text.sorted names).map text) := by
  have compares : Comparable fun key => ∃ s, key = text s := by
    rintro a b ⟨s, rfl⟩ ⟨t, rfl⟩
    exact ⟨_, rfl⟩
  have texts : ∀ key ∈ names.map text, ∃ s, key = text s := by
    intro key hkey
    obtain ⟨s, -, rfl⟩ := List.mem_map.1 hkey
    exact ⟨s, rfl⟩
  rw [sortedKeys_of_comparable compares texts, Text.sorted, List.map_mergeSort]
  exact fun _ _ _ _ => rfl

end Plain

end BinaryQuadratic
