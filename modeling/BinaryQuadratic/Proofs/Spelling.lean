import Mathlib.Data.List.TakeWhile
import BinaryQuadratic.Decimal.Read
import BinaryQuadratic.Decimal.Write

/-!
# Spellings of an integer

One integer can be written in many ways: blanks around it, a plus in front, further zeros,
underscores between its digits.

* `trim_blanks`, `ungroup_group`, `value_digits`: what reading takes away, and what digits are
  worth;
* `Spelling`, `Spelling.text`: a way to write integers, and an integer written that way;
* `text_plain`: without any of this an integer has its decimal text;
* `readInteger_text`: every spelling is read as its integer, unless it has too many digits;
* `eq_of_text_eq`: different integers have different texts.
-/

namespace BinaryQuadratic

namespace Text

theorem exists_digitChar {c : Char} (h : isDigit c) : ∃ d < 10, c = digitChar d := by
  have hrange : 48 ≤ c.toNat ∧ c.toNat ≤ 57 := by
    simpa [isDigit, Char.le_def, UInt32.le_iff_toNat_le] using h
  refine ⟨c.toNat - 48, by omega, ?_⟩
  have hcode : '0'.toNat + (c.toNat - 48) = c.toNat := by
    change 48 + (c.toNat - 48) = c.toNat
    omega
  rw [digitChar, hcode, Char.ofNat_toNat]

theorem ne_of_isDigit {c d : Char} (hc : isDigit c) (hd : isDigit d = false) : c ≠ d := by
  rintro rfl
  exact absurd hc (Bool.eq_false_iff.1 hd)

theorem isDigit_digitChar : ∀ d < 10, isDigit (digitChar d) := by decide

/-- What a number is written with, its blanks apart. -/
def Numeric (c : Char) : Prop := isDigit c ∨ c = '_' ∨ c = '+' ∨ c = '-'

theorem Numeric.westernize_eq {c : Char} (h : Numeric c) : westernize c = c := by
  rcases h with hd | rfl | rfl | rfl
  · obtain ⟨d, hlt, rfl⟩ := exists_digitChar hd
    rw [westernize, digit?_digitChar d hlt, Option.elim_some]
  all_goals decide

theorem Numeric.not_blank {c : Char} (h : Numeric c) : isBlank c = false := by
  rcases h with hd | rfl | rfl | rfl
  · obtain ⟨d, hlt, rfl⟩ := exists_digitChar hd
    revert d
    decide
  all_goals decide

theorem dropWhile_blanks {blanks cs : List Char} (hb : ∀ c ∈ blanks, isBlank c)
    (hcs : ∀ c ∈ cs.head?, isBlank c = false) : (blanks ++ cs).dropWhile isBlank = cs := by
  rw [List.dropWhile_append_of_pos hb]
  cases cs with
  | nil => rfl
  | cons c rest => rw [List.dropWhile_cons_of_neg (by simp [hcs c rfl])]

/-- Blanks are taken away at both ends. -/
theorem trim_blanks {before cs after : List Char} (hb : ∀ c ∈ before, isBlank c)
    (ha : ∀ c ∈ after, isBlank c) (hne : cs ≠ []) (hcs : ∀ c ∈ cs, isBlank c = false) :
    trim (before ++ cs ++ after) = cs := by
  have hfront : (before ++ (cs ++ after)).dropWhile isBlank = cs ++ after := by
    refine dropWhile_blanks hb fun c hc => hcs c ?_
    obtain ⟨d, rest, rfl⟩ := List.exists_cons_of_ne_nil hne
    exact List.mem_of_mem_head? hc
  have hback : (after.reverse ++ cs.reverse).dropWhile isBlank = cs.reverse := by
    refine dropWhile_blanks (fun c hc => ha c (List.mem_reverse.1 hc)) fun c hc => hcs c ?_
    exact List.mem_reverse.1 (List.mem_of_mem_head? hc)
  rw [trim, List.append_assoc, hfront, List.reverse_append, hback, List.reverse_reverse]

end Text

namespace Decimal

open Text

variable {cs : List Char}

theorem value_append (cs : List Char) (c : Char) :
    value (cs ++ [c]) = 10 * value cs + (c.toNat - '0'.toNat) := by
  rw [value, List.foldl_append]
  rfl

theorem digitChar_value : ∀ d < 10, (digitChar d).toNat - '0'.toNat = d := by decide

/-- Digits are worth the number they were written for. -/
theorem value_digits (n : Nat) : value (digits n) = n := by
  induction n using digits.induct with
  | case1 n h =>
    rw [digits, if_pos h, ← List.nil_append [digitChar n], value_append, digitChar_value n h]
    exact Nat.zero_add n
  | case2 n h ih =>
    rw [digits, if_neg h, value_append, ih, digitChar_value _ (Nat.mod_lt _ (by decide))]
    omega

theorem value_zeros (zeros : Nat) (cs : List Char) :
    value (List.replicate zeros '0' ++ cs) = value cs := by
  induction zeros with
  | zero => rfl
  | succ zeros ih => exact ih

theorem isDigit_of_mem_digits {n : Nat} {c : Char} (h : c ∈ digits n) : isDigit c := by
  induction n using digits.induct with
  | case1 n hn =>
    rw [digits, if_pos hn, List.mem_singleton] at h
    exact h ▸ isDigit_digitChar n hn
  | case2 n hn ih =>
    rw [digits, if_neg hn, List.mem_append, List.mem_singleton] at h
    rcases h with h | rfl
    · exact ih h
    · exact isDigit_digitChar _ (Nat.mod_lt _ (by decide))

theorem digits_ne_nil (n : Nat) : digits n ≠ [] := by
  rw [digits]
  split <;> simp

/-- Underscores before those characters that are marked. -/
def marked : List Bool → List Char → List Char
  | true :: marks, c :: rest => '_' :: c :: marked marks rest
  | false :: marks, c :: rest => c :: marked marks rest
  | _, cs => cs

/-- Underscores between characters: the first one has none before it. -/
def group (marks : List Bool) : List Char → List Char
  | [] => []
  | c :: rest => c :: marked marks rest

theorem mem_marked {marks : List Bool} {c : Char} (h : c ∈ marked marks cs) : c = '_' ∨ c ∈ cs := by
  fun_induction marked marks cs with
  | case1 marks d rest ih =>
    rcases List.mem_cons.1 h with rfl | h
    · exact .inl rfl
    rcases List.mem_cons.1 h with rfl | h
    · exact .inr List.mem_cons_self
    · exact (ih h).imp_right (List.mem_cons_of_mem _)
  | case2 marks d rest ih =>
    rcases List.mem_cons.1 h with rfl | h
    · exact .inr List.mem_cons_self
    · exact (ih h).imp_right (List.mem_cons_of_mem _)
  | case3 => exact .inr h

theorem mem_group {marks : List Bool} {c : Char} (h : c ∈ group marks cs) : c = '_' ∨ c ∈ cs := by
  cases cs with
  | nil => exact .inr h
  | cons d rest =>
    rcases List.mem_cons.1 h with rfl | h
    · exact .inr List.mem_cons_self
    · exact (mem_marked h).imp_right (List.mem_cons_of_mem _)

theorem ungroup_cons {c : Char} (hc : isDigit c) (afterDigit : Bool) (cs : List Char) :
    ungroup afterDigit (c :: cs) = (ungroup true cs).map (c :: ·) := by
  rw [ungroup, if_neg (ne_of_isDigit hc (by decide)), hc]

theorem ungroup_digits (hcs : ∀ c ∈ cs, isDigit c) (afterDigit : Bool) :
    ungroup afterDigit cs = some cs := by
  induction cs generalizing afterDigit with
  | nil => rfl
  | cons c cs ih =>
    obtain ⟨hc, hcs⟩ := List.forall_mem_cons.1 hcs
    rw [ungroup_cons hc, ih hcs, Option.map_some]

theorem ungroup_marked (marks : List Bool) (hcs : ∀ c ∈ cs, isDigit c) :
    ungroup true (marked marks cs) = some cs := by
  fun_induction marked marks cs with
  | case1 marks c rest ih =>
    -- The underscore stands behind a digit, and a digit follows it.
    obtain ⟨hc, hrest⟩ := List.forall_mem_cons.1 hcs
    have hnext : (c :: marked marks rest).head?.any isDigit := hc
    rw [ungroup, if_pos rfl, Bool.true_and, if_pos hnext, ungroup_cons hc, ih hrest,
      Option.map_some]
  | case2 marks c rest ih =>
    obtain ⟨hc, hrest⟩ := List.forall_mem_cons.1 hcs
    rw [ungroup_cons hc, ih hrest, Option.map_some]
  | case3 => exact ungroup_digits hcs true

/-- Underscores between digits are taken out again. -/
theorem ungroup_group (marks : List Bool) (hcs : ∀ c ∈ cs, isDigit c) :
    ungroup false (group marks cs) = some cs := by
  cases cs with
  | nil => rfl
  | cons c rest =>
    obtain ⟨hc, hrest⟩ := List.forall_mem_cons.1 hcs
    rw [group, ungroup_cons hc, ungroup_marked marks hrest, Option.map_some]

/-- A group of digits is read as what they are worth, up to a number of them. -/
theorem readMagnitude_group (marks : List Bool) (hcs : ∀ c ∈ cs, isDigit c) (hne : cs ≠ []) :
    readMagnitude (group marks cs) =
      if cs.length ≤ digitLimit then .ok (value cs) else .error (.tooLong cs.length) := by
  have hall : ∀ c ∈ group marks cs, isIntegral c := by
    intro c hc
    rcases mem_group hc with rfl | hc
    · decide
    · simp [isIntegral, hcs c hc]
  have htake : (group marks cs).takeWhile isIntegral = group marks cs :=
    List.takeWhile_eq_self_iff.2 hall
  have hdrop : (group marks cs).dropWhile isIntegral = [] := List.dropWhile_eq_nil_iff.2 hall
  have hempty : cs.isEmpty = false := by simpa using hne
  rw [readMagnitude, htake, hdrop, ungroup_group marks hcs]
  simp only [hempty, List.isEmpty_nil, Bool.not_true, Bool.or_false, Bool.false_eq_true, if_false]
  by_cases h : cs.length ≤ digitLimit
  · rw [if_neg (Nat.not_lt.2 h), if_pos h]
  · rw [if_pos (Nat.not_le.1 h), if_neg h]

theorem splitSign_digit {c : Char} (hc : isDigit c) (cs : List Char) :
    splitSign (c :: cs) = (false, c :: cs) := by
  have hminus : c ≠ '-' := ne_of_isDigit hc (by decide)
  have hplus : c ≠ '+' := ne_of_isDigit hc (by decide)
  simp [splitSign, hminus, hplus]

/-- A way to write integers: the white space on either side, whether a plus stands in front of a
number that is not negative, how many zeros precede the digits, and for one digit after another,
from the second on, whether an underscore stands before it. -/
structure Spelling where
  before : List Char
  plus : Bool
  zeros : Nat
  marks : List Bool
  after : List Char
  blank_before : ∀ c ∈ before, isBlank c
  blank_after : ∀ c ∈ after, isBlank c

namespace Spelling

/-- Nothing but the digits, and a minus where there must be one. -/
def plain : Spelling := ⟨[], false, 0, [], [], nofun, nofun⟩

variable (w : Spelling) (k : Int)

def sign : List Char := if k < 0 then ['-'] else if w.plus then ['+'] else []

/-- All digits of a number, the zeros in front included. -/
def figures : List Char := List.replicate w.zeros '0' ++ digits k.natAbs

def core : List Char := w.sign k ++ group w.marks (w.figures k)

def text : String := String.ofList (w.before ++ w.core k ++ w.after)

def Fits : Prop := (w.figures k).length ≤ digitLimit

instance : Decidable (w.Fits k) := inferInstanceAs (Decidable (_ ≤ _))

theorem isDigit_of_mem_figures {c : Char} (h : c ∈ w.figures k) : isDigit c := by
  rcases List.mem_append.1 h with h | h
  · rw [List.eq_of_mem_replicate h]
    decide
  · exact isDigit_of_mem_digits h

theorem figures_ne_nil : w.figures k ≠ [] :=
  List.append_ne_nil_of_right_ne_nil _ (digits_ne_nil _)

theorem value_figures : value (w.figures k) = k.natAbs := by
  rw [figures, value_zeros, value_digits]

/-- Written plainly, an integer has its decimal text. -/
theorem text_plain : plain.text k = integer k := by
  have hfigures : plain.figures k = digits k.natAbs := rfl
  obtain ⟨d, rest, hcons⟩ := List.exists_cons_of_ne_nil (digits_ne_nil k.natAbs)
  have hcore : plain.core k = integerDigits k := by
    rw [core, sign, integerDigits, hfigures, hcons]
    split <;> rfl
  have htext : plain.text k = String.ofList ([] ++ plain.core k ++ []) := rfl
  rw [htext, List.nil_append, List.append_nil, hcore, integer]

theorem numeric_of_mem_core {c : Char} (h : c ∈ w.core k) : Numeric c := by
  rcases List.mem_append.1 h with h | h
  · unfold sign at h
    split at h
    · exact .inr (.inr (.inr (List.mem_singleton.1 h)))
    · split at h
      · exact .inr (.inr (.inl (List.mem_singleton.1 h)))
      · cases h
  · rcases mem_group h with rfl | h
    · exact .inr (.inl rfl)
    · exact .inl (w.isDigit_of_mem_figures k h)

/-- The number begins with its sign, or else with a digit. -/
theorem splitSign_core : splitSign (w.core k) = (decide (k < 0), group w.marks (w.figures k)) := by
  obtain ⟨d, rest, hcons⟩ := List.exists_cons_of_ne_nil (w.figures_ne_nil k)
  have hd : isDigit d := w.isDigit_of_mem_figures k (hcons ▸ List.mem_cons_self)
  rw [core, sign, hcons, group]
  by_cases hk : k < 0
  · rw [if_pos hk, decide_eq_true hk]
    rfl
  · rw [if_neg hk, decide_eq_false hk]
    cases w.plus with
    | true => rfl
    | false => exact splitSign_digit hd _

theorem core_ne_nil : w.core k ≠ [] := by
  obtain ⟨d, rest, hcons⟩ := List.exists_cons_of_ne_nil (w.figures_ne_nil k)
  rw [core, hcons]
  exact List.append_ne_nil_of_right_ne_nil _ nofun

/-- **Every spelling is read.** However an integer is written, it is read as itself if its digits
are not too many, and refused for their number otherwise. -/
theorem readInteger_text : readInteger (w.text k) =
    if w.Fits k then .ok k else .error (.tooLong (w.figures k).length) := by
  have htrim : trim (w.text k).toList = w.core k := by
    rw [text, String.toList_ofList]
    exact trim_blanks w.blank_before w.blank_after (w.core_ne_nil k)
      fun c hc => (w.numeric_of_mem_core k hc).not_blank
  have hwest : (w.core k).map westernize = w.core k :=
    (List.map_congr_left fun _ hc => (w.numeric_of_mem_core k hc).westernize_eq).trans
      (List.map_id' _)
  have hread : readMagnitude (group w.marks (w.figures k)) =
      if w.Fits k then .ok k.natAbs else .error (.tooLong (w.figures k).length) := by
    rw [← w.value_figures k]
    exact readMagnitude_group w.marks (fun _ => w.isDigit_of_mem_figures k) (w.figures_ne_nil k)
  rw [readInteger, htrim, hwest, splitSign_core]
  simp only [hread]
  by_cases h : w.Fits k
  · have hsigned : (if decide (k < 0) then -(k.natAbs : Int) else k.natAbs) = k := by
      simp only [decide_eq_true_eq]
      split <;> omega
    rw [if_pos h, if_pos h]
    exact congrArg Except.ok hsigned
  · rw [if_neg h, if_neg h]
    rfl

/-- Texts of different integers are different, however either is written. -/
theorem eq_of_text_eq {v w : Spelling} {j k : Int} (hj : v.Fits j) (hk : w.Fits k)
    (h : v.text j = w.text k) : j = k := by
  have hread := v.readInteger_text j
  rw [h, readInteger_text, if_pos hj, if_pos hk] at hread
  exact (Except.ok.inj hread).symm

end Spelling

end Decimal

end BinaryQuadratic
