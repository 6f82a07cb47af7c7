import Mathlib.Algebra.Order.Ring.Rat
import Mathlib.Data.Prod.Lex
import Mathlib.Order.Compare
import BinaryQuadratic.Scalar

/-!
# Laws of comparisons

What a choice between values may rely on where some of them are infinite or no numbers at all.

* `Scalar.Ordered`: numbers are compared as a total order does, and what is not a number compares
  with nothing; exact numbers are such (`ordered_rational`);
* `Double.rank`: the place of a double among the others, of which one that is not a number has none;
* `Double.le_iff`, `Double.lt_iff`: doubles are compared by their places;
* `Double.isBottom_iff`, `ordered_double`: so doubles are such as well, infinite ones included;
* `Double.aboveBottom_iff`: among doubles, what lies above negative infinity.
-/

namespace BinaryQuadratic

namespace Scalar

/-- Comparisons as those of numbers between two infinities, beside values that are not numbers and
compare with nothing. -/
class Ordered (α : Type) [Scalar α] : Prop where
  trans : ∀ {a b c : α}, a ≤ b → b ≤ c → a ≤ c
  /-- Only numbers compare. -/
  numbers : ∀ {a b : α}, a ≤ b → a ≤ a ∧ b ≤ b
  total : ∀ {a b : α}, a ≤ a → b ≤ b → a ≤ b ∨ b ≤ a
  lt_iff : ∀ {a b : α}, a < b ↔ a ≤ b ∧ ¬b ≤ a
  /-- Negative infinity is at most any number. -/
  bottom_le : ∀ {a b : α}, isBottom a = true → b ≤ b → a ≤ b
  /-- Nothing else is at most negative infinity. -/
  le_bottom : ∀ {a b : α}, a ≤ b → isBottom b = true → isBottom a = true

def AboveBottom {α : Type} [Scalar α] (a : α) : Prop := isNaN a = false ∧ isBottom a = false

theorem isNaN_eq_false_iff {α : Type} [Scalar α] {a : α} : isNaN a = false ↔ a ≤ a := by
  simp [isNaN]

theorem isBottom_rational (a : Rat) : isBottom a = false := by
  simp [isBottom, isInfinite, isNaN]

instance ordered_rational : Ordered Rat where
  trans := le_trans
  numbers _ := ⟨le_rfl, le_rfl⟩
  total _ _ := le_total _ _
  lt_iff := lt_iff_le_not_ge
  bottom_le h _ := by rw [isBottom_rational] at h; cases h
  le_bottom _ h := by rw [isBottom_rational] at h; cases h

end Scalar

namespace Double

open Float.Model (UnpackedFloat)
open Float.Model.UnpackedFloat

/-- A place among all doubles: sign and kind of magnitude, then exponent, then significand. -/
abbrev Rank : Type := ℤ ×ₗ ℤ ×ₗ ℤ

def Rank.of (kind exponent significand : ℤ) : Rank := toLex (kind, toLex (exponent, significand))

/-- The place of a double taken apart. Below zero a greater magnitude comes first. -/
def unpackedRank : UnpackedFloat → Option Rank
  | .notANumber => none
  | .infinity .negative => some (.of (-2) 0 0)
  | .finite .negative m e _ => some (.of (-1) (-e) (-m))
  | .zero _ => some (.of 0 0 0)
  | .finite .positive m e _ => some (.of 1 e m)
  | .infinity .positive => some (.of 2 0 0)

def rank (x : Float) : Option Rank := unpackedRank x.toModel.unpack

theorem rank_le_iff {kind kind' e e' m m' : ℤ} : Rank.of kind e m ≤ Rank.of kind' e' m' ↔
    kind < kind' ∨ kind = kind' ∧ (e < e' ∨ e = e' ∧ m ≤ m') := by
  simp [Rank.of, Prod.Lex.le_iff]

theorem compare_of (kind e e' m m' : ℤ) : Ord.compare (Rank.of kind e m) (Rank.of kind e' m')
    = (Ord.compare e e').then (Ord.compare m m') := by
  simp [Rank.of, Prod.Lex.compare_def, compareLex, compareOn]

theorem compare_cast (m m' : ℕ) : Ord.compare (m : ℤ) m' = Ord.compare m m' := by
  simp only [compare, compareOfLessAndEq, Int.ofNat_lt, Int.natCast_inj]

theorem compare_neg (a b : ℤ) : Ord.compare (-a) (-b) = (Ord.compare a b).swap := by
  rw [Int.compare_swap]
  simp only [compare, compareOfLessAndEq]
  grind

theorem compare_eq (a b : UnpackedFloat) : UnpackedFloat.compare a b =
    (unpackedRank a).bind fun x => (unpackedRank b).map fun y => Ord.compare x y := by
  cases a with
  | notANumber => rfl
  | infinity s | zero s =>
    cases b with
    | notANumber => cases s <;> rfl
    | infinity s' | zero s' | finite s' => cases s <;> cases s' <;> rfl
  | finite s m e _ =>
    cases b with
    | notANumber => cases s <;> rfl
    | infinity s' | zero s' => cases s <;> cases s' <;> rfl
    | finite s' m' e' _ =>
      cases s with
      | positive =>
        cases s' with
        | positive =>
          change some ((Ord.compare e e').then (Ord.compare m m'))
            = some (Ord.compare (Rank.of 1 e m) (Rank.of 1 e' m'))
          rw [compare_of, compare_cast]
        | negative => rfl
      | negative =>
        cases s' with
        | positive => rfl
        | negative =>
          change some ((Ord.compare e e').then (Ord.compare m m')).swap
            = some (Ord.compare (Rank.of (-1) (-e) (-m)) (Rank.of (-1) (-e') (-m')))
          rw [compare_of, compare_neg, compare_neg, compare_cast, Ordering.swap_then]

theorem le_iff (a b : Float) : a ≤ b ↔ ∃ x y, rank a = some x ∧ rank b = some y ∧ x ≤ y := by
  change Float.le a b = true ↔ _
  have : Float.le a b = UnpackedFloat.le a.toModel.unpack b.toModel.unpack := Bool.decide_eq_true
  rw [this, UnpackedFloat.le, compare_eq]
  unfold rank
  cases unpackedRank a.toModel.unpack with
  | none => simp
  | some x =>
    cases unpackedRank b.toModel.unpack with
    | none => simp
    | some y => simp [Ordering.isLE_iff_ne_gt, compare_le_iff_le]

theorem lt_iff (a b : Float) : a < b ↔ ∃ x y, rank a = some x ∧ rank b = some y ∧ x < y := by
  change Float.lt a b = true ↔ _
  have : Float.lt a b = UnpackedFloat.lt a.toModel.unpack b.toModel.unpack := Bool.decide_eq_true
  rw [this, UnpackedFloat.lt, compare_eq]
  unfold rank
  cases unpackedRank a.toModel.unpack with
  | none => simp
  | some x =>
    cases unpackedRank b.toModel.unpack with
    | none => simp
    | some y => simp [compare_lt_iff_lt]

theorem le_self_iff (a : Float) : a ≤ a ↔ ∃ x, rank a = some x := by
  rw [le_iff]
  constructor
  · rintro ⟨x, -, hx, -⟩
    exact ⟨x, hx⟩
  · rintro ⟨x, hx⟩
    exact ⟨x, x, hx, hx, le_rfl⟩

theorem rank_sub (a b : Float) : rank (a - b) = unpackedRank (Float.Model.pack
    (UnpackedFloat.sub .binary64 a.toModel.unpack b.toModel.unpack)).unpack := rfl

/-- A double whose distance to itself is no number is not finite. -/
theorem not_finite_of_sub_self {a : Float} (h : rank (a - a) = none) :
    a.toModel.unpack = .notANumber ∨ ∃ s, a.toModel.unpack = .infinity s := by
  rw [rank_sub] at h
  cases hu : a.toModel.unpack with
  | notANumber => exact .inl rfl
  | infinity s => exact .inr ⟨s, rfl⟩
  | zero s => rw [hu] at h; cases s <;> cases h
  | finite s m e hm =>
    have nothing : UnpackedFloat.sub .binary64 (.finite s m e hm) (.finite s m e hm)
        = .zero .positive := by
      change UnpackedFloat.normalize _ (_ - _) _ _ = _
      rw [Int.sub_self]
      rfl
    rw [hu, nothing] at h
    cases h

theorem rank_zero : rank 0 = some (.of 0 0 0) := rfl

theorem rank_one : rank 1 = some (.of 1 (-52) (2 ^ 52)) := rfl

def bottomRank : Rank := .of (-2) 0 0

theorem bottomRank_le {x : Float} {r : Rank} (h : rank x = some r) : bottomRank ≤ r := by
  unfold rank at h
  rw [Prod.Lex.le_iff]
  cases hu : x.toModel.unpack with
  | notANumber => rw [hu] at h; cases h
  | infinity s | zero s | finite s =>
    rw [hu] at h
    cases s <;> cases h <;> simp [bottomRank, Rank.of]

theorem unpack_of_bottomRank {x : Float} (h : rank x = some bottomRank) :
    x.toModel.unpack = .infinity .negative := by
  unfold rank at h
  cases hu : x.toModel.unpack with
  | notANumber => rw [hu] at h; cases h
  | infinity s =>
    cases s with
    | negative => rfl
    | positive => rw [hu] at h; cases h
  | zero s | finite s => rw [hu] at h; cases s <;> cases h

/-- Negative infinity is the double of the lowest place. -/
theorem isBottom_iff (x : Float) : Scalar.isBottom x = true ↔ rank x = some bottomRank := by
  have asked : Scalar.isBottom x = true ↔ (x ≤ x ∧ ¬x - x ≤ x - x) ∧ x < 0 := by
    simp [Scalar.isBottom, Scalar.isInfinite, Scalar.isNaN]
  rw [asked, le_self_iff, le_self_iff, lt_iff]
  constructor
  · rintro ⟨⟨⟨r, hr⟩, hsub⟩, y, z, hy, hz, hlt⟩
    have hnone : rank (x - x) = none := by
      cases hd : rank (x - x) with
      | none => rfl
      | some d => exact absurd ⟨d, hd⟩ hsub
    obtain rfl : z = .of 0 0 0 := Option.some.inj (hz.symm.trans rank_zero)
    unfold rank at hr hy ⊢
    rcases not_finite_of_sub_self hnone with hu | ⟨s, hu⟩
    · rw [hu] at hr
      cases hr
    · rw [hu] at hy ⊢
      cases s with
      | negative => rfl
      | positive =>
        obtain rfl := Option.some.inj hy
        exact absurd hlt (by decide)
  · intro h
    have hu := unpack_of_bottomRank h
    refine ⟨⟨⟨_, h⟩, ?_⟩, _, _, h, rank_zero, by decide⟩
    rintro ⟨d, hd⟩
    rw [rank_sub, hu] at hd
    cases hd

/-- What lies above negative infinity is what is greater than it. -/
theorem aboveBottom_iff (x : Float) : Scalar.AboveBottom x ↔ -1 / 0 < x := by
  have bottom : rank (-1 / 0) = some bottomRank := rfl
  have number : Scalar.isNaN x = false ↔ ∃ r, rank x = some r :=
    Scalar.isNaN_eq_false_iff.trans (le_self_iff x)
  rw [Scalar.AboveBottom, number, Bool.eq_false_iff, Ne, isBottom_iff, lt_iff]
  constructor
  · rintro ⟨⟨r, hr⟩, hne⟩
    refine ⟨_, r, bottom, hr, lt_of_le_of_ne (bottomRank_le hr) ?_⟩
    rintro rfl
    exact hne hr
  · rintro ⟨y, r, hy, hr, hlt⟩
    obtain rfl := Option.some.inj (bottom.symm.trans hy)
    refine ⟨⟨r, hr⟩, fun h => ?_⟩
    obtain rfl := Option.some.inj (h.symm.trans hr)
    exact lt_irrefl _ hlt

end Double

/-- Doubles are compared by their places, and what is not a number has none. -/
instance Scalar.ordered_double : Scalar.Ordered Float where
  trans := by
    intro a b c hab hbc
    rw [Double.le_iff] at *
    obtain ⟨x, y, hx, hy, hxy⟩ := hab
    obtain ⟨y', z, hy', hz, hyz⟩ := hbc
    obtain rfl := Option.some.inj (hy.symm.trans hy')
    exact ⟨x, z, hx, hz, hxy.trans hyz⟩
  numbers := by
    intro a b hab
    rw [Double.le_self_iff, Double.le_self_iff]
    obtain ⟨x, y, hx, hy, -⟩ := (Double.le_iff a b).1 hab
    exact ⟨⟨x, hx⟩, ⟨y, hy⟩⟩
  total := by
    intro a b ha hb
    obtain ⟨x, hx⟩ := (Double.le_self_iff a).1 ha
    obtain ⟨y, hy⟩ := (Double.le_self_iff b).1 hb
    rw [Double.le_iff, Double.le_iff]
    exact (le_total x y).imp (fun h => ⟨x, y, hx, hy, h⟩) fun h => ⟨y, x, hy, hx, h⟩
  lt_iff := by
    intro a b
    rw [Double.lt_iff, Double.le_iff, Double.le_iff]
    constructor
    · rintro ⟨x, y, hx, hy, hlt⟩
      refine ⟨⟨x, y, hx, hy, hlt.le⟩, ?_⟩
      rintro ⟨y', x', hy', hx', hle⟩
      obtain rfl := Option.some.inj (hx.symm.trans hx')
      obtain rfl := Option.some.inj (hy.symm.trans hy')
      exact absurd hlt hle.not_gt
    · rintro ⟨⟨x, y, hx, hy, -⟩, hnot⟩
      exact ⟨x, y, hx, hy, lt_of_not_ge fun hle => hnot ⟨y, x, hy, hx, hle⟩⟩
  bottom_le := by
    intro a b ha hb
    obtain ⟨y, hy⟩ := (Double.le_self_iff b).1 hb
    exact (Double.le_iff a b).2
      ⟨_, y, (Double.isBottom_iff a).1 ha, hy, Double.bottomRank_le hy⟩
  le_bottom := by
    intro a b hab hb
    obtain ⟨x, y, hx, hy, hxy⟩ := (Double.le_iff a b).1 hab
    obtain rfl := Option.some.inj (hy.symm.trans ((Double.isBottom_iff b).1 hb))
    rw [Double.isBottom_iff, hx, le_antisymm hxy (Double.bottomRank_le hx)]

end BinaryQuadratic
