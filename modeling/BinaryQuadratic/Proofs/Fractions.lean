import BinaryQuadratic.Proofs.Rounding

/-!
# Fractions as doubles

The multiples of 2^-53 below one are doubles, so that dividing a number of 53 bits by 2^53 gives
exactly what it says.

* `significand`, `unpack_ofNat`: a number of at most 53 bits as a double;
* `div_resolution_exact`: its quotient by 2^53 has the same significand;
* `fraction_bounds`: such quotients lie in `[0, 1)`.
-/

namespace BinaryQuadratic.Double

open Float.Model (Format UnpackedFloat totalExponent)
open Float.Model.UnpackedFloat

variable {n m : Nat} {e : Int}

/-- A number shifted until it has 53 bits. -/
def significand (n : Nat) : Nat := n * 2 ^ (52 - n.log2)

theorem le_significand (hn : n ≠ 0) (hlt : n < 2 ^ 53) : 2 ^ 52 ≤ significand n := by
  have hlog : n.log2 < 53 := (Nat.log2_lt hn).2 hlt
  have hsum : 52 = n.log2 + (52 - n.log2) := by omega
  calc 2 ^ 52 = 2 ^ n.log2 * 2 ^ (52 - n.log2) := by rw [← Nat.pow_add, ← hsum]
    _ ≤ significand n := Nat.mul_le_mul_right _ (Nat.log2_self_le hn)

theorem significand_lt_two_pow (hn : n ≠ 0) (hlt : n < 2 ^ 53) : significand n < 2 ^ 53 := by
  have hlog : n.log2 < 53 := (Nat.log2_lt hn).2 hlt
  have hsum : n.log2 + 1 + (52 - n.log2) = 53 := by omega
  calc significand n < 2 ^ (n.log2 + 1) * 2 ^ (52 - n.log2) :=
        Nat.mul_lt_mul_of_pos_right Nat.lt_log2_self (Nat.two_pow_pos _)
    _ = 2 ^ 53 := by rw [← Nat.pow_add, hsum]

theorem normalize_natCast (hn : n ≠ 0) (hlt : n < 2 ^ 53) (hm : 0 < significand n) (z : Sign) :
    UnpackedFloat.normalize .binary64 n 0 z
      = .finite .positive (significand n) (n.log2 - 52) hm := by
  have hlog : n.log2 < 53 := (Nat.log2_lt hn).2 hlt
  have hshift : (0 - Format.binary64.targetExponent (totalExponent n 0)).toNat = 52 - n.log2 := by
    rw [targetExponent_eq]
    omega
  have hexponent : (0 : Int) - (52 - n.log2 : Nat) = n.log2 - 52 := by omega
  have hround := round_exact .positive hm (le_significand hn hlt) (significand_lt_two_pow hn hlt)
    (e := n.log2 - 52) (by omega) 0
  rw [Nat.pow_zero, Nat.mul_one, Nat.cast_zero, Int.sub_zero] at hround
  rw [UnpackedFloat.normalize, Int.compare_eq_gt.2 (by omega)]
  simp only [UnpackedFloat.round, decreaseExponent, Int.toNat_natCast, hshift, hexponent,
    Nat.shiftLeft_eq]
  exact hround

theorem mul_one_exact (hm : 0 < m) (lo : 2 ^ 52 ≤ m) (hi : m < 2 ^ 53) (he : -1074 ≤ e) :
    UnpackedFloat.mul .binary64 (.finite .positive m e hm)
      (.finite .positive (2 ^ 52) (-52) (by decide)) = .finite .positive m e hm :=
  round_exact .positive hm lo hi he 52

/-- Divided by 2^53, a significand stays as it is. -/
theorem div_resolution_exact (hm : 0 < m) (lo : 2 ^ 52 ≤ m) (hi : m < 2 ^ 53) (he : -1000 ≤ e) :
    UnpackedFloat.div .binary64 (.finite .positive m e hm)
      (.finite .positive (2 ^ 52) 1 (by decide)) = .finite .positive m (e - 53) hm := by
  have htarget : min (e - 1) (Format.binary64.targetExponent
      (totalExponent m e - totalExponent (2 ^ 52) 1)) = e - 54 := by
    have : totalExponent m e - totalExponent (2 ^ 52) 1 = e - 1 := by
      rw [totalExponent, totalExponent, log2_of_normal lo hi, Nat.log2_two_pow]
      omega
    rw [this]
    change min (e - 1) (max (e - 1 - 53) (-1074)) = _
    omega
  have hshift : (e - 1 - (e - 54)).toNat = 53 := by omega
  have hcore : divCore .binary64 m e (2 ^ 52) 1 = (m * 2 ^ 1, e - 53 - (1 : Nat), .exact) := by
    have hquotient : m * 2 ^ 53 / 2 ^ 52 = m * 2 ^ 1 := by omega
    have hrest : m * 2 ^ 53 % 2 ^ 52 = 0 := by omega
    have hexponent : e - 54 = e - 53 - (1 : Nat) := by omega
    simp only [divCore, htarget, hshift, Nat.shiftLeft_eq, hquotient, hrest]
    rw [hexponent]
    rfl
  simp only [UnpackedFloat.div, hcore]
  exact round_exact .positive hm lo hi (by omega) 1

theorem unpack_ofNat (hn : n ≠ 0) (hlt : n < 2 ^ 53) (hm : 0 < significand n) :
    (Float.ofNat n).toModel.unpack = .finite .positive (significand n) (n.log2 - 52) hm := by
  have hlo := le_significand hn hlt
  have hhi := significand_lt_two_pow hn hlt
  have hlog : n.log2 < 53 := (Nat.log2_lt hn).2 hlt
  have hcanonical : Canonical (.finite .positive (significand n) (n.log2 - 52) hm) :=
    ⟨hhi, by omega, by omega, .inl hlo⟩
  have hword : (n.toUInt64.toFloat).toModel.unpack
      = .finite .positive (significand n) (n.log2 - 52) hm := by
    have : n.toUInt64.toNat = n := by
      change n % 2 ^ 64 = n
      omega
    change (Float.Model.pack
      (UnpackedFloat.normalize .binary64 n.toUInt64.toNat 0 .positive)).unpack = _
    rw [this, normalize_natCast hn hlt hm]
    exact unpack_pack hcanonical
  have hone : (Float.ofBits 0x3FF0000000000000).toModel.unpack
      = .finite .positive (2 ^ 52) (-52) (by decide) := rfl
  have hproduct : Float.ofNat n = n.toUInt64.toFloat * Float.ofBits 0x3FF0000000000000 :=
    dif_pos ⟨hlt, by decide⟩
  rw [hproduct]
  change (Float.Model.pack (UnpackedFloat.mul .binary64 _ _)).unpack = _
  rw [hword, hone, mul_one_exact hm hlo hhi (by omega)]
  exact unpack_pack hcanonical

theorem unpack_resolution : (Float.ofNat (2 ^ 53)).toModel.unpack
    = .finite .positive (2 ^ 52) 1 (by decide) := rfl

/-- The multiples of 2^-53 from zero on, one excluded, are doubles in `[0, 1)`. -/
theorem fraction_bounds (hlt : n < 2 ^ 53) :
    0 ≤ Float.ofNat n / Float.ofNat (2 ^ 53) ∧ Float.ofNat n / Float.ofNat (2 ^ 53) < 1 := by
  by_cases hn : n = 0
  · subst hn
    decide +kernel
  · have hlo := le_significand hn hlt
    have hhi := significand_lt_two_pow hn hlt
    have hm : 0 < significand n := by omega
    have hlog : n.log2 < 53 := (Nat.log2_lt hn).2 hlt
    have hcanonical : Canonical (.finite .positive (significand n) (n.log2 - 52 - 53) hm) :=
      ⟨hhi, by omega, by omega, .inl hlo⟩
    have hquotient : (Float.ofNat n / Float.ofNat (2 ^ 53)).toModel.unpack
        = .finite .positive (significand n) (n.log2 - 52 - 53) hm := by
      change (Float.Model.pack (UnpackedFloat.div .binary64 _ _)).unpack = _
      rw [unpack_ofNat hn hlt hm, unpack_resolution, div_resolution_exact hm hlo hhi (by omega)]
      exact unpack_pack hcanonical
    have hrank : rank (Float.ofNat n / Float.ofNat (2 ^ 53))
        = some (.of 1 (n.log2 - 52 - 53) (significand n)) := by
      rw [rank, hquotient]
      rfl
    constructor
    · exact (le_iff _ _).2 ⟨_, _, rank_zero, hrank, rank_le_iff.2 (.inl (by decide))⟩
    · rw [lt_iff]
      refine ⟨_, _, hrank, rank_one, lt_of_not_ge ?_⟩
      rw [rank_le_iff]
      omega

end BinaryQuadratic.Double
