import Mathlib
import BinaryQuadratic.Proofs.Comparisons

/-!
# Rounding of doubles

How the value of a double is packed into its bits, and what rounding to a double does.

* `Canonical`, `unpack_pack`: what fits a double comes back from its bits;
* `roundWithAccuracy_of_shift`: rounding shifts a significand into place and carries once at most;
* `round_exact`: a significand with zeros behind it is rounded to itself;
* `Small`, `normalize_small`: a magnitude of at most one stays so where it is rounded.
-/

namespace BinaryQuadratic.Double

open Float.Model (Format UnpackedFloat totalExponent)
open Float.Model.UnpackedFloat

/-- Finite, with significand and exponent in the one form that a double has. -/
def Canonical : UnpackedFloat → Prop
  | .zero _ => True
  | .finite _ m e _ => m < 2 ^ 53 ∧ -1074 ≤ e ∧ e ≤ 971 ∧ (2 ^ 52 ≤ m ∨ e = -1074)
  | _ => False

def AtMostOne : UnpackedFloat → Prop
  | .zero _ => True
  | .finite _ m e _ => e < -52 ∨ e = -52 ∧ m ≤ 2 ^ 52
  | _ => False

/-- A double of a magnitude that is at most one. -/
structure Small (u : UnpackedFloat) : Prop where
  canonical : Canonical u
  atMostOne : AtMostOne u

section Packing

theorem log2_of_normal {m : Nat} (lo : 2 ^ 52 ≤ m) (hi : m < 2 ^ 53) : m.log2 = 52 :=
  (Nat.log2_eq_iff (by omega)).2 ⟨lo, hi⟩

theorem unpack_pack_normal (s : Sign) {m : Nat} {e : Int} (hm : 0 < m) (lo : 2 ^ 52 ≤ m)
    (hi : m < 2 ^ 53) (he : -1074 ≤ e) (he' : e ≤ 971) :
    (Float.Model.pack (.finite s m e hm)).unpack = .finite s m e hm := by
  have biased : (e + Format.binary64.exponentBias
      + Format.binary64.mantissaBitsWithoutImplicit).toNat = (e + 1075).toNat := by
    change (e + 1023 + 52).toNat = _
    omega
  have small : ¬2 ^ Format.binary64.exponentBits ≤ (e + 1075).toNat + 1 := by
    change ¬2048 ≤ _
    omega
  have full : m.log2 + 1 = Format.binary64.mantissaBits := by
    rw [log2_of_normal lo hi]
    rfl
  have exponent : (BitVec.ofNat 11 (e + 1075).toNat).toNat = (e + 1075).toNat := by
    rw [BitVec.toNat_ofNat]
    omega
  have notTop : BitVec.ofNat 11 (e + 1075).toNat ≠ -1#11 := by
    intro h
    have := congrArg BitVec.toNat h
    rw [exponent] at this
    change _ = 2047 at this
    omega
  have notZero : BitVec.ofNat 11 (e + 1075).toNat ≠ 0#11 := by
    intro h
    have := congrArg BitVec.toNat h
    rw [exponent] at this
    change _ = 0 at this
    omega
  have significand : (1#1 ++ BitVec.ofNat 52 m).toNat = m := by
    rw [BitVec.toNat_append, ← Nat.shiftLeft_add_eq_or_of_lt (BitVec.isLt _), BitVec.toNat_ofNat]
    change 2 ^ 52 + m % 2 ^ 52 = m
    omega
  change UnpackedFloat.unpack .binary64 (UnpackedFloat.pack .binary64 (.finite s m e hm)) = _
  simp only [UnpackedFloat.pack, biased, if_neg small, if_pos full, UnpackedFloat.unpack,
    unpackMantissa_packComponents, unpackExponent_packComponents, unpackSign_packComponents,
    if_neg notTop, if_neg notZero, Sign.ofBitVec_toBitVec, exponent, significand]
  congr 1
  change ((e + 1075).toNat : Int) - (1023 + 52) = e
  omega

theorem unpack_pack_subnormal (s : Sign) {m : Nat} (hm : 0 < m) (hi : m < 2 ^ 52) :
    (Float.Model.pack (.finite s m (-1074) hm)).unpack = .finite s m (-1074) hm := by
  have short : ¬m.log2 + 1 = Format.binary64.mantissaBits := by
    have := (Nat.log2_lt (Nat.ne_of_gt hm)).2 hi
    change ¬_ = 53
    omega
  have significand : (BitVec.ofNat 52 m).toNat = m := by
    rw [BitVec.toNat_ofNat, Nat.mod_eq_of_lt hi]
  have notZero : BitVec.ofNat 52 m ≠ 0#52 := by
    intro h
    have := congrArg BitVec.toNat h
    rw [significand] at this
    change m = 0 at this
    omega
  have small : ¬2 ^ Format.binary64.exponentBits ≤ (-1074 + (Format.binary64.exponentBias : Int)
      + Format.binary64.mantissaBitsWithoutImplicit).toNat + 1 := by decide
  change UnpackedFloat.unpack .binary64 (UnpackedFloat.pack .binary64 (.finite s m _ hm)) = _
  simp only [UnpackedFloat.pack, if_neg small, if_neg short, UnpackedFloat.unpack,
    unpackMantissa_packComponents, unpackExponent_packComponents, unpackSign_packComponents,
    Sign.ofBitVec_toBitVec, significand, dif_neg notZero]
  rfl

/-- What fits a double comes back from it. -/
theorem unpack_pack {x : UnpackedFloat} (h : Canonical x) : (Float.Model.pack x).unpack = x := by
  cases x with
  | notANumber => cases h
  | infinity s => cases h
  | zero s => cases s <;> rfl
  | finite s m e hm =>
    obtain ⟨hi, he, he', hlo⟩ := h
    by_cases lo : 2 ^ 52 ≤ m
    · exact unpack_pack_normal s hm lo hi he he'
    · obtain rfl := hlo.resolve_left lo
      exact unpack_pack_subnormal s hm (Nat.lt_of_not_le lo)

end Packing

section Rounding

variable {m k : Nat} {e : Int}

theorem mantissa_shiftRight (x : ExtendedMantissa) (k : Nat) :
    (x >>> k).mantissa = x.mantissa / 2 ^ k := by
  induction k with
  | zero => exact (Nat.div_one _).symm
  | succ k ih =>
    change (x >>> k).mantissa / 2 = _
    rw [ih, Nat.div_div_eq_div_mul, Nat.pow_succ]

/-- Bits that are zero leave no trace where they are shifted out. -/
theorem shiftRight_exact (m k : Nat) :
    ExtendedMantissa.ofMantissaAndAccuracy (m * 2 ^ k) .exact >>> k
      = ExtendedMantissa.ofMantissaAndAccuracy m .exact := by
  induction k generalizing m with
  | zero =>
    rw [Nat.pow_zero, Nat.mul_one]
    rfl
  | succ k ih =>
    change ExtendedMantissa.shiftRightOne
      (ExtendedMantissa.ofMantissaAndAccuracy (m * 2 ^ (k + 1)) .exact >>> k) = _
    rw [Nat.pow_succ', ← Nat.mul_assoc, ih]
    simp [ExtendedMantissa.shiftRightOne, ExtendedMantissa.ofMantissaAndAccuracy]

theorem roundedMantissa_bounds (x : ExtendedMantissa) :
    x.mantissa ≤ x.roundedMantissa ∧ x.roundedMantissa ≤ x.mantissa + 1 := by
  obtain ⟨m, r, s⟩ := x
  cases r <;> cases s <;> simp [ExtendedMantissa.roundedMantissa, ExtendedMantissa.accuracy,
    Accuracy.roundToNearestEven]
  omega

theorem targetExponent_eq (m : Nat) (e : Int) :
    Format.binary64.targetExponent (totalExponent m e) = max (m.log2 + e - 52) (-1074) := by
  change max ((m.log2 : Int) + 1 + e - 53) (-1074) = _
  omega

/-- A significand of 53 bits is not shifted. -/
theorem shift_fitting (hm : m < 2 ^ 53) (he : -1074 ≤ e) :
    shiftToTargetExponent .binary64 m e .exact
      = (ExtendedMantissa.ofMantissaAndAccuracy m .exact, e) := by
  have hlog : m.log2 ≤ 52 := by
    by_cases hzero : m = 0
    · simp [hzero]
    · have := (Nat.log2_lt hzero).2 hm
      omega
  have none : (Format.binary64.targetExponent (totalExponent m e) - e).toNat = 0 := by
    rw [targetExponent_eq]
    omega
  rw [shiftToTargetExponent, shiftToExponent, none]
  exact Prod.ext rfl (Int.add_zero e)

/-- A significand that rounding has carried into a 54th bit is shifted by it. -/
theorem shift_carried (he : -1074 ≤ e) : shiftToTargetExponent .binary64 (2 ^ 53) e .exact
    = (ExtendedMantissa.ofMantissaAndAccuracy (2 ^ 52) .exact, e + 1) := by
  have one : (Format.binary64.targetExponent (totalExponent (2 ^ 53) e) - e).toNat = 1 := by
    rw [targetExponent_eq, Nat.log2_two_pow]
    omega
  rw [shiftToTargetExponent, shiftToExponent, one]
  exact Prod.ext (shiftRight_exact (2 ^ 52) 1) rfl

/-- What rounding ends with, from the significand and the exponent after its first shift. -/
theorem roundWithAccuracy_of_shift {s : Sign} {a : Accuracy} {x : ExtendedMantissa} {t : Int}
    (hshift : shiftToTargetExponent .binary64 m e a = (x, t)) (ht : -1074 ≤ t)
    (hx : x.roundedMantissa ≤ 2 ^ 53) : roundWithAccuracy .binary64 s m e a =
      if h : x.roundedMantissa = 0 then .zero s
      else if x.roundedMantissa < 2 ^ 53 then .finite s x.roundedMantissa t (Nat.pos_of_ne_zero h)
      else .finite s (2 ^ 52) (t + 1) (by decide) := by
  rw [roundWithAccuracy, hshift]
  dsimp only
  by_cases hfits : x.roundedMantissa < 2 ^ 53
  · rw [shift_fitting hfits ht]
    simp only [if_pos hfits]
    rfl
  · have hcarried : x.roundedMantissa = 2 ^ 53 := by omega
    rw [hcarried, shift_carried ht]
    rfl

/-- A normal significand with zeros behind it is rounded to itself. -/
theorem round_exact (s : Sign) (hm : 0 < m) (lo : 2 ^ 52 ≤ m) (hi : m < 2 ^ 53) (he : -1074 ≤ e)
    (k : Nat) : roundWithAccuracy .binary64 s (m * 2 ^ k) (e - k) .exact = .finite s m e hm := by
  have hlog : (m * 2 ^ k).log2 = 52 + k := by
    have hne : m * 2 ^ k ≠ 0 := Nat.ne_of_gt (Nat.mul_pos hm (Nat.two_pow_pos k))
    rw [Nat.log2_eq_iff hne, Nat.pow_add, Nat.add_right_comm, Nat.pow_add]
    exact ⟨Nat.mul_le_mul_right _ lo, Nat.mul_lt_mul_of_pos_right hi (Nat.two_pow_pos k)⟩
  have hk : (Format.binary64.targetExponent (totalExponent (m * 2 ^ k) (e - k)) - (e - k)).toNat
      = k := by
    rw [targetExponent_eq, hlog]
    omega
  have hshift : shiftToTargetExponent .binary64 (m * 2 ^ k) (e - k) .exact
      = (ExtendedMantissa.ofMantissaAndAccuracy m .exact, e) := by
    rw [shiftToTargetExponent, shiftToExponent, hk, shiftRight_exact]
    exact Prod.ext rfl (Int.sub_add_cancel e k)
  have hrounded : (ExtendedMantissa.ofMantissaAndAccuracy m .exact).roundedMantissa = m := rfl
  rw [roundWithAccuracy_of_shift hshift he (by omega)]
  simp only [hrounded, if_pos hi, dif_neg (Nat.ne_of_gt hm)]

/-- A magnitude below one stays at most one where it is rounded. -/
theorem round_below_one (s : Sign) (a : Accuracy) (hone : m.log2 + e < 0)
    (he : e ≤ Format.binary64.targetExponent (totalExponent m e)) :
    Small (roundWithAccuracy .binary64 s m e a) := by
  obtain ⟨k, hk⟩ := Int.eq_ofNat_of_zero_le (Int.sub_nonneg.2 he)
  have ht := targetExponent_eq m e
  obtain ⟨x, hshift, hx⟩ : ∃ x, shiftToTargetExponent .binary64 m e a = (x, e + k) ∧
      x.mantissa = m / 2 ^ k := by
    refine ⟨ExtendedMantissa.ofMantissaAndAccuracy m a >>> k, ?_, ?_⟩
    · rw [shiftToTargetExponent, shiftToExponent, hk]
      rfl
    · rw [mantissa_shiftRight]
      cases a with
      | exact => rfl
      | inexact o => cases o <;> rfl
  have below : m / 2 ^ k < 2 ^ 53 := by
    rw [Nat.div_lt_iff_lt_mul (Nat.two_pow_pos k), ← Nat.pow_add]
    exact Nat.lt_of_lt_of_le Nat.lt_log2_self (Nat.pow_le_pow_right (by decide) (by omega))
  have above : 2 ^ 52 ≤ m / 2 ^ k ∨ e + k = -1074 := by
    by_cases hleast : e + k = -1074
    · exact .inr hleast
    · have hlog : m.log2 = 52 + k := by omega
      have hne : m ≠ 0 := by
        rintro rfl
        rw [Nat.log2_zero] at hlog
        omega
      rw [Nat.le_div_iff_mul_le (Nat.two_pow_pos k), ← Nat.pow_add, ← hlog]
      exact .inl (Nat.log2_self_le hne)
  obtain ⟨hlo, hhi⟩ := roundedMantissa_bounds x
  rw [hx] at hlo hhi
  rw [roundWithAccuracy_of_shift hshift (by omega) (by omega)]
  split
  · exact ⟨trivial, trivial⟩
  · split
    · exact ⟨⟨‹_›, by omega, by omega, by omega⟩, .inl (by omega)⟩
    · exact ⟨⟨by decide, by omega, by omega, .inl (Nat.le_refl _)⟩, by
        unfold AtMostOne
        omega⟩

theorem log2_shiftLeft (hm : m ≠ 0) (k : Nat) : (m <<< k).log2 = m.log2 + k := by
  have hne : m * 2 ^ k ≠ 0 := Nat.mul_ne_zero hm (Nat.ne_of_gt (Nat.two_pow_pos k))
  rw [Nat.shiftLeft_eq, Nat.log2_eq_iff hne, Nat.add_right_comm, Nat.pow_add, Nat.pow_add]
  exact ⟨Nat.mul_le_mul_right _ (Nat.log2_self_le hm),
    Nat.mul_lt_mul_of_pos_right Nat.lt_log2_self (Nat.two_pow_pos k)⟩

/-- Multiples of a power of two that are at most one. -/
theorem round_small (s : Sign) (hm : m ≠ 0) (hk : 53 ≤ k) (hle : m ≤ 2 ^ k) :
    Small (UnpackedFloat.round .binary64 s m (-k)) := by
  have ht := targetExponent_eq m (-k)
  rcases Nat.lt_or_eq_of_le hle with hlt | rfl
  · have hlog : m.log2 < k := (Nat.log2_lt hm).2 hlt
    apply round_below_one
    · rw [log2_shiftLeft hm]
      omega
    · rw [ht, targetExponent_eq, log2_shiftLeft hm]
      omega
  · -- One itself: its significand has zeros behind the 53 bits that are kept.
    rw [Nat.log2_two_pow] at ht
    have none : (-(k : Int) - Format.binary64.targetExponent (totalExponent (2 ^ k) (-k))).toNat
        = 0 := by omega
    have hsplit : 2 ^ k = 2 ^ 52 * 2 ^ (k - 52) := by
      rw [← Nat.pow_add]
      congr 1
      omega
    have hexponent : -(k : Int) = -52 - (k - 52 : Nat) := by omega
    have hround : UnpackedFloat.round .binary64 s (2 ^ k) (-k)
        = .finite s (2 ^ 52) (-52) (by decide) := by
      simp only [UnpackedFloat.round, decreaseExponent, none, Nat.shiftLeft_zero, Nat.cast_zero,
        Int.sub_zero]
      rw [hsplit, hexponent]
      exact round_exact s (by decide) (Nat.le_refl _) (by decide) (by decide) _
    rw [hround]
    exact ⟨⟨by decide, by decide, by decide, .inl (Nat.le_refl _)⟩, .inr ⟨rfl, Nat.le_refl _⟩⟩

/-- The same with a sign. -/
theorem normalize_small {d : Int} (hk : 53 ≤ k) (hd : d.natAbs ≤ 2 ^ k) (z : Sign) :
    Small (UnpackedFloat.normalize .binary64 d (-k) z) := by
  unfold UnpackedFloat.normalize
  cases hsign : compare d 0 with
  | lt =>
    have := Int.compare_eq_lt.1 hsign
    exact round_small .negative (by omega) hk (by omega)
  | eq => exact ⟨trivial, trivial⟩
  | gt =>
    have := Int.compare_eq_gt.1 hsign
    exact round_small .positive (by omega) hk (by omega)

end Rounding

end BinaryQuadratic.Double
