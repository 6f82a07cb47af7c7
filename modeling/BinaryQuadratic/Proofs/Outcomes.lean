import Mathlib.Data.List.Forall2
import BinaryQuadratic.Index
import BinaryQuadratic.Random.Seed

/-!
# Outcomes of readings that may fail

* `bind_eq_ok_iff`, `map_eq_ok_iff`, `mapError_eq_ok_iff`: what a composed reading that succeeds was
  made from;
* `bind_eq_error_iff`, `mapM_eq_ok_iff`, `mapM_eq_error_iff`: which of several readings fails first;
* `Branchless`: a reading whose failures are never for want of a variable to branch on;
* `generator_branchless`: seeds are read in this way.
-/

namespace BinaryQuadratic

section

variable {ε ε' α β : Type}

theorem bind_eq_ok_iff {e : Except ε α} {f : α → Except ε β} {b : β} :
    (e >>= f) = .ok b ↔ ∃ a, e = .ok a ∧ f a = .ok b := by
  cases e <;> simp [bind, Except.bind]

theorem bind_eq_error_iff {e : Except ε α} {f : α → Except ε β} {x : ε} :
    (e >>= f) = .error x ↔ e = .error x ∨ ∃ a, e = .ok a ∧ f a = .error x := by
  cases e <;> simp [bind, Except.bind]

theorem map_eq_ok_iff {e : Except ε α} {f : α → β} {b : β} :
    e.map f = .ok b ↔ ∃ a, e = .ok a ∧ f a = b := by
  cases e <;> simp [Except.map]

theorem mapError_eq_ok_iff {e : Except ε α} {g : ε → ε'} {a : α} :
    e.mapError g = .ok a ↔ e = .ok a := by
  cases e with
  | ok b =>
    change (Except.ok b : Except ε' α) = .ok a ↔ (Except.ok b : Except ε α) = .ok a
    rw [Except.ok.injEq, Except.ok.injEq]
  | error x => exact ⟨nofun, nofun⟩

/-- Readings that all succeed, one after another. -/
theorem mapM_eq_ok_iff {f : α → Except ε β} {as : List α} {bs : List β} :
    as.mapM f = .ok bs ↔ List.Forall₂ (fun a b => f a = .ok b) as bs := by
  induction as generalizing bs with
  | nil =>
    rw [List.mapM_nil, List.forall₂_nil_left_iff]
    exact ⟨fun h => (Except.ok.inj h).symm, fun h => h ▸ rfl⟩
  | cons a as ih =>
    rw [List.mapM_cons, List.forall₂_cons_left_iff, bind_eq_ok_iff]
    simp only [bind_eq_ok_iff, ih]
    constructor
    · rintro ⟨b, hb, bs, hbs, heq⟩
      exact ⟨b, bs, hb, hbs, (Except.ok.inj heq).symm⟩
    · rintro ⟨b, bs, hb, hbs, rfl⟩
      exact ⟨b, hb, bs, hbs, rfl⟩

/-- The first reading that fails ends it. -/
theorem mapM_eq_error_iff {f : α → Except ε β} {as : List α} {x : ε} :
    as.mapM f = .error x ↔ ∃ before a after, as = before ++ a :: after ∧
      (∀ b ∈ before, ∃ c, f b = .ok c) ∧ f a = .error x := by
  induction as with
  | nil => simp [pure, Except.pure]
  | cons a as ih =>
    rw [List.mapM_cons, bind_eq_error_iff]
    simp only [bind_eq_error_iff, ih]
    constructor
    · rintro (ha | ⟨b, hb, ⟨before, a', after, rfl, hbefore, ha'⟩ | ⟨_, _, heq⟩⟩)
      · exact ⟨[], a, as, rfl, nofun, ha⟩
      · exact ⟨a :: before, a', after, rfl, List.forall_mem_cons.2 ⟨⟨b, hb⟩, hbefore⟩, ha'⟩
      · cases heq
    · rintro ⟨before, a', after, heq, hbefore, ha'⟩
      cases before with
      | nil =>
        obtain ⟨rfl, rfl⟩ := List.cons.inj heq
        exact .inl ha'
      | cons b before =>
        obtain ⟨rfl, rfl⟩ := List.cons.inj heq
        obtain ⟨⟨c, hc⟩, hbefore⟩ := List.forall_mem_cons.1 hbefore
        exact .inr ⟨c, hc, .inl ⟨before, a', after, rfl, hbefore, ha'⟩⟩

end

/-- A reading that never fails for want of a variable to branch on. -/
def Branchless {α : Type} (e : Except Fault α) : Prop := ∀ m, e ≠ .error (.exhausted m)

namespace Branchless

variable {α β : Type}

theorem ok (a : α) : Branchless (.ok a : Except Fault α) := fun _ => nofun

theorem bind {e : Except Fault α} {f : α → Except Fault β} (he : Branchless e)
    (hf : ∀ a, Branchless (f a)) : Branchless (e >>= f) := by
  intro m h
  cases e with
  | ok a => exact hf a m h
  | error fault =>
    obtain rfl : fault = .exhausted m := Except.error.inj h
    exact he m rfl

theorem map {e : Except Fault α} {f : α → β} (he : Branchless e) : Branchless (e.map f) := by
  intro m h
  cases e with
  | ok a => cases h
  | error fault => cases h; exact he m rfl

theorem mapError {ε : Type} {e : Except ε α} {g : ε → Fault} (hg : ∀ x m, g x ≠ .exhausted m) :
    Branchless (e.mapError g) := by
  intro m h
  cases e with
  | ok a => cases h
  | error x => exact hg x m (Except.error.inj h)

end Branchless

namespace Plain

theorem writeInteger_branchless (i : Int) : Branchless (writeInteger i) := by
  unfold writeInteger
  split
  · exact .ok _
  · nofun

mutual

theorem shown_branchless : ∀ value : Plain, Branchless value.shown
  | null => .ok _
  | bool _ => .ok _
  | integer i => writeInteger_branchless i
  | float _ => .ok _
  | text _ => .ok _
  | list items => .bind (shownItems_branchless items) fun _ => .ok _
  | map pairs => .bind (shownPairs_branchless pairs) fun _ => .ok _

theorem shownItems_branchless : ∀ items : List Plain, Branchless (shownItems items)
  | [] => .ok _
  | item :: rest =>
    .bind (shown_branchless item) fun _ => .bind (shownItems_branchless rest) fun _ => .ok _

theorem shownPairs_branchless : ∀ pairs : List (Plain × Plain), Branchless (shownPairs pairs)
  | [] => .ok _
  | pair :: rest =>
    .bind (shownPair_branchless pair) fun _ => .bind (shownPairs_branchless rest) fun _ => .ok _

theorem shownPair_branchless : ∀ pair : Plain × Plain, Branchless (shownPair pair)
  | (key, value) =>
    .bind (shown_branchless key) fun _ => .bind (shown_branchless value) fun _ => .ok _

end

theorem asText_branchless (value : Plain) : Branchless value.asText := by
  unfold asText
  split
  · exact .ok _
  · exact shown_branchless _

theorem toInteger_branchless (value : Plain) : Branchless value.toInteger := by
  intro m h
  unfold toInteger at h
  split at h
  · cases h
  · cases h
  · split at h
    · cases h
    · split at h <;> cases h
  · split at h <;> cases h
  · cases h

end Plain

namespace Seed

theorem ofInteger_branchless (i : Int) : Branchless (ofInteger i) := by
  unfold ofInteger
  split
  · nofun
  · exact .ok _

theorem ofText_branchless (s : String) : Branchless (ofText s) := by
  unfold ofText
  split
  · split
    · exact .ok _
    · nofun
  · split
    · exact .bind (Plain.toInteger_branchless _) ofInteger_branchless
    · nofun
  · nofun

theorem ofTexts_branchless (pairs : List (Plain × Plain)) : Branchless (ofTexts pairs) := by
  induction pairs with
  | nil => exact .ok _
  | cons pair rest ih =>
    exact .bind (Plain.asText_branchless _) fun text =>
      .bind (ofText_branchless text) fun _ => .bind ih fun _ => .ok _

mutual

theorem words_branchless : ∀ value : Plain, Branchless (words value)
  | .bool _ => .ok _
  | .integer i => ofInteger_branchless i
  | .float _ => nofun
  | .text s => ofText_branchless s
  | .list items => ofItems_branchless items
  | .map pairs => ofTexts_branchless pairs
  | .null => nofun

theorem ofItems_branchless : ∀ items : List Plain, Branchless (words.ofItems items)
  | [] => .ok _
  | item :: rest =>
    .bind (words_branchless item) fun _ => .bind (ofItems_branchless rest) fun _ => .ok _

end

end Seed

end BinaryQuadratic
