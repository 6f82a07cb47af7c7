import BinaryQuadratic.Proofs.Approximations
import BinaryQuadratic.Proofs.Rounding

/-!
# The choice nearest to one half

Which candidate a scan by distances from one half ends with, also where values are infinite, no
numbers or far away.

* `Double.sub_half_small`, `Double.abs_sub_half_le_one`: a double between -1/2 and 3/2 is at most
  one away from one half, as a difference of doubles;
* `Centred`: what is asked of a number type, which exact numbers and doubles have;
* `nearestHalf_eq_scan`: the scan of a point is a scan of scores, which nothing above one can begin;
* `nearest`, `closest`, `nearest_eq_closest`: the nearest candidates among those that are near,
  which are the closest of all if there is one;
* `LastNearest`, `nearest_half_chosen`: the last of them is chosen.
-/

namespace BinaryQuadratic

namespace Double

open Float.Model (UnpackedFloat)
open Float.Model.UnpackedFloat
open Scalar (half)

variable {x : Float} {u : UnpackedFloat}

/-- The significand of a double has at most 53 bits. -/
theorem significand_lt {s : Sign} {m : Nat} {e : Int} {hm : 0 < m}
    (h : x.toModel.unpack = .finite s m e hm) : m < 2 ^ 53 := by
  unfold Float.Model.unpack UnpackedFloat.unpack at h
  dsimp only at h
  split at h
  · split at h <;> cases h
  · split at h
    · split at h
      · cases h
      · cases h
        exact Nat.lt_of_lt_of_le (BitVec.isLt _) (by decide)
    · cases h
      exact BitVec.isLt _

theorem unpack_half : (half : Float).toModel.unpack
    = .finite .positive (2 ^ 52) (-53) (by decide) := rfl

theorem rank_neg_half : rank (-half) = some (.of (-1) 53 (-2 ^ 52)) := rfl

theorem rank_one_half : rank (1 + half) = some (.of 1 (-52) (3 * 2 ^ 51)) := rfl

theorem le_one (hu : x.toModel.unpack = u) (h : AtMostOne u) : x ≤ 1 := by
  obtain ⟨r, hr, hle⟩ : ∃ r, unpackedRank u = some r ∧ r ≤ .of 1 (-52) (2 ^ 52) := by
    cases u with
    | notANumber => cases h
    | infinity s => cases h
    | zero s => exact ⟨_, rfl, rank_le_iff.2 (.inl (by decide))⟩
    | finite s m e hm =>
      unfold AtMostOne at h
      cases s with
      | negative => exact ⟨_, rfl, rank_le_iff.2 (.inl (by decide))⟩
      | positive =>
        refine ⟨_, rfl, rank_le_iff.2 (.inr ⟨rfl, ?_⟩)⟩
        omega
  exact (le_iff x 1).2 ⟨r, _, by rw [rank, hu, hr], rank_one, hle⟩

/-- A small magnitude and one half, as multiples of the same power of two. -/
theorem sub_half_eq_normalize (s : Sign) {m k : Nat} (hm : 0 < m) (hk : 53 ≤ k) :
    UnpackedFloat.sub .binary64 (.finite s m (-k) hm) (half : Float).toModel.unpack
      = UnpackedFloat.normalize .binary64 (s.apply m - (2 ^ (k - 1) : Nat)) (-k) .positive := by
  have hmin : min (-(k : Int)) (-53) = -k := by omega
  have hshift : (-53 - -(k : Int)).toNat = k - 53 := by omega
  have hhalf : 2 ^ 52 * 2 ^ (k - 53) = 2 ^ (k - 1) := by
    rw [← Nat.pow_add]
    congr 1
    omega
  rw [unpack_half]
  simp only [UnpackedFloat.sub, decreaseExponent, hmin, hshift, Nat.shiftLeft_eq, hhalf,
    Int.sub_self, Int.toNat_zero, Nat.pow_zero, Nat.mul_one]
  rfl

theorem sub_half_positive {m : Nat} {e : Int} (hm : 0 < m) (hlt : m < 2 ^ 53)
    (h : e < -52 ∨ e = -52 ∧ m ≤ 3 * 2 ^ 51) :
    Small (UnpackedFloat.sub .binary64 (.finite .positive m e hm)
      (half : Float).toModel.unpack) := by
  rcases h with hsmall | ⟨rfl, hle⟩
  · obtain ⟨k, rfl⟩ := Int.exists_eq_neg_ofNat (show e ≤ 0 by omega)
    have hdouble := Nat.two_pow_pred_add_two_pow_pred (show 0 < k by omega)
    have hwide : 2 ^ 52 ≤ 2 ^ (k - 1) := Nat.pow_le_pow_right (by decide) (by omega)
    rw [sub_half_eq_normalize .positive hm (by omega)]
    apply normalize_small (by omega)
    change ((m : Int) - (2 ^ (k - 1) : Nat)).natAbs ≤ 2 ^ k
    omega
  · have hdouble : UnpackedFloat.sub .binary64 (.finite .positive m (-52) hm)
        (half : Float).toModel.unpack
          = UnpackedFloat.normalize .binary64 ((m * 2 : Nat) - (2 ^ 52 : Nat)) (-(53 : Nat))
            .positive := by
      rw [unpack_half]
      simp only [UnpackedFloat.sub, decreaseExponent, Nat.shiftLeft_eq]
      rfl
    rw [hdouble]
    apply normalize_small (Nat.le_refl 53)
    omega

theorem sub_half_negative {m : Nat} {e : Int} (hm : 0 < m) (hlt : m < 2 ^ 53)
    (h : e < -53 ∨ e = -53 ∧ m ≤ 2 ^ 52) :
    Small (UnpackedFloat.sub .binary64 (.finite .negative m e hm)
      (half : Float).toModel.unpack) := by
  obtain ⟨k, rfl⟩ := Int.exists_eq_neg_ofNat (show e ≤ 0 by omega)
  have hdouble := Nat.two_pow_pred_add_two_pow_pred (show 0 < k by omega)
  have hwide : m ≤ 2 ^ (k - 1) := by
    rcases h with hsmall | ⟨hk, hle⟩
    · have : 2 ^ 53 ≤ 2 ^ (k - 1) := Nat.pow_le_pow_right (by decide) (by omega)
      omega
    · obtain rfl : k = 53 := by omega
      exact hle
  rw [sub_half_eq_normalize .negative hm (by omega)]
  apply normalize_small (by omega)
  change (-(m : Int) - (2 ^ (k - 1) : Nat)).natAbs ≤ 2 ^ k
  omega

/-- A double between -1/2 and 3/2, less one half. -/
theorem sub_half_small (lo : -half ≤ x) (hi : x ≤ 1 + half) :
    Small (UnpackedFloat.sub .binary64 x.toModel.unpack (half : Float).toModel.unpack) := by
  rw [le_iff] at lo hi
  obtain ⟨_, r, hlow, hr, lo⟩ := lo
  obtain ⟨_, _, hr', hhigh, hi⟩ := hi
  obtain rfl := Option.some.inj (rank_neg_half.symm.trans hlow)
  obtain rfl := Option.some.inj (rank_one_half.symm.trans hhigh)
  obtain rfl := Option.some.inj (hr.symm.trans hr')
  unfold rank at hr
  cases hu : x.toModel.unpack with
  | notANumber =>
    rw [hu] at hr
    cases hr
  | infinity s =>
    rw [hu] at hr
    cases s <;> cases hr <;> rw [rank_le_iff] at lo hi <;> omega
  | zero s => exact ⟨⟨by decide, by decide, by decide, .inl (Nat.le_refl _)⟩, .inl (by decide)⟩
  | finite s m e hm =>
    have hlt := significand_lt hu
    rw [hu] at hr
    cases s with
    | positive =>
      obtain rfl := Option.some.inj hr
      rw [rank_le_iff] at hi
      exact sub_half_positive hm hlt (by omega)
    | negative =>
      obtain rfl := Option.some.inj hr
      rw [rank_le_iff] at lo
      exact sub_half_negative hm hlt (by omega)

theorem Small.neg (h : Small u) : Small u.neg := by
  cases u with
  | notANumber => cases h.canonical
  | infinity s => cases h.canonical
  | zero s => exact ⟨trivial, trivial⟩
  | finite s m e hm => exact ⟨h.canonical, h.atMostOne⟩

theorem abs_sub_half_le_one (lo : -half ≤ x) (hi : x ≤ 1 + half) : Scalar.abs (x - half) ≤ 1 := by
  have h := sub_half_small lo hi
  have hsub : (x - half).toModel.unpack
      = UnpackedFloat.sub .binary64 x.toModel.unpack (half : Float).toModel.unpack :=
    unpack_pack h.canonical
  unfold Scalar.abs
  split
  · have hneg : (-(x - half)).toModel.unpack = (x - half).toModel.unpack.neg :=
      unpack_pack (hsub ▸ h.neg.canonical)
    exact le_one hneg (hsub ▸ h.neg.atMostOne)
  · exact le_one hsub h.atMostOne

/-- What is not a number has no distance from one half. -/
theorem number_of_abs_sub_half_le (h : Scalar.abs (x - half) ≤ 1) : x ≤ x := by
  by_contra hnot
  have hx : x.toModel.unpack = .notANumber := by
    rw [le_self_iff, rank] at hnot
    cases hu : x.toModel.unpack with
    | notANumber => rfl
    | infinity s | zero s | finite s =>
      rw [hu] at hnot
      cases s <;> exact absurd ⟨_, rfl⟩ hnot
  have hsub : rank (x - half) = none := by
    rw [rank_sub, hx]
    rfl
  unfold Scalar.abs at h
  split at h
  next hneg =>
    obtain ⟨y, _, hy, -⟩ := (lt_iff _ _).1 hneg
    rw [hsub] at hy
    cases hy
  next =>
    obtain ⟨y, _, hy, -⟩ := (le_iff _ _).1 h
    rw [hsub] at hy
    cases hy

end Double

namespace Branching

open Scalar (Ordered half isNaN isNaN_eq_false_iff)

/-- What a choice by distances from one half relies on. -/
class Centred (α : Type) [Scalar α] : Prop where
  /-- What is not a number is not near. -/
  number : ∀ {v : α}, violation v ≤ 1 → v ≤ v
  near : ∀ {v : α}, -half ≤ v → v ≤ 1 + half → violation v ≤ 1
  low : -half ≤ (0 : α)
  high : (1 : α) ≤ 1 + half

theorem violation_rational (v : Rat) : violation v = |v - 1 / 2| := by
  rw [violation, half_rational, Scalar.abs]
  split
  · exact (abs_of_neg ‹_›).symm
  · exact (abs_of_nonneg (not_lt.1 ‹_›)).symm

instance centred_rational : Centred Rat where
  number _ := le_rfl
  near := by
    intro v lo hi
    rw [half_rational] at lo hi
    rw [violation_rational, abs_le]
    constructor <;> linarith
  low := by decide +kernel
  high := by decide +kernel

instance centred_double : Centred Float where
  number := Double.number_of_abs_sub_half_le
  near := Double.abs_sub_half_le_one
  low := by decide
  high := by decide

variable {α : Type} [Scalar α]

/-- At most the incumbent; without one, at most one. -/
def within (incumbent : Option α) (s : α) : Bool := decide (s ≤ incumbent.getD 1)

theorem within_iff {incumbent : Option α} {s : α} :
    within incumbent s = true ↔ s ≤ incumbent.getD 1 := decide_eq_true_iff

theorem seeks_within [Ordered α] : Seeks (α := α) within (fun a b => b ≤ a) true where
  refl_iff := seeks_falls.refl_iff
  numbers := seeks_falls.numbers
  trans := seeks_falls.trans
  total := seeks_falls.total
  begins := by
    intro a ha
    exact isNaN_eq_false_iff.2 (Ordered.numbers (within_iff.1 ha)).1
  dropped := by
    intro a b ha hb hle
    exact Bool.eq_false_iff.1 ha (within_iff.2 (Ordered.trans hle (within_iff.1 hb)))
  replaced := by
    intro a b
    rw [within_iff]
    exact ⟨fun hle => ⟨hle, .inl rfl⟩, And.left⟩

/-- The scan of a point is a scan of distances that only one of at most one can begin. -/
theorem nearestHalf_eq_scan {x : List α} {candidates : List Nat}
    (h : ∀ c ∈ candidates, c < x.length) (first : Nat) (incumbent : Incumbent α) :
    nearestHalf x ((incumbent.map Prod.fst).getD 1) ((incumbent.map Prod.snd).getD first) candidates
      = .ok (((scan within (x.map violation) incumbent candidates).map Prod.snd).getD first) := by
  induction candidates generalizing incumbent with
  | nil => rfl
  | cons c rest ih =>
    obtain ⟨hc, hrest⟩ := List.forall_mem_cons.1 h
    have hentry : x[c]? = some x[c] := List.getElem?_eq_getElem hc
    have hscore : (x.map violation)[c]? = some (violation x[c]) := by
      rw [List.getElem?_map, hentry, Option.map_some]
    unfold nearestHalf scan
    rw [hentry, hscore]
    simp only [within, decide_eq_true_eq]
    by_cases hle : violation x[c] ≤ (incumbent.map Prod.fst).getD 1
    · rw [if_pos hle, if_pos hle]
      exact ih hrest (some (violation x[c], c))
    · rw [if_neg hle, if_neg hle]
      exact ih hrest incumbent

def distance (x : List α) (i : Nat) : α := violation (x.getD i 0)

/-- The candidates that are at most one away and not farther than any other such. -/
def nearest (x : List α) (candidates : List Nat) : Set Nat :=
  {i | i ∈ candidates ∧ distance x i ≤ 1 ∧
    ∀ c ∈ candidates, distance x c ≤ 1 → distance x i ≤ distance x c}

/-- The candidates that are not farther away than any other. -/
def closest (x : List α) (candidates : List Nat) : Set Nat :=
  {i | i ∈ candidates ∧
    ∀ c ∈ candidates, isNaN (distance x c) = false → distance x i ≤ distance x c}

/-- The last candidate nearest to one half, or the first of all where none is near. -/
structure LastNearest (x : List α) (candidates : List Nat) (i : Nat) : Prop where
  near : (∃ c ∈ candidates, distance x c ≤ 1) → IsGreatest (nearest x candidates) i
  far : (∀ c ∈ candidates, ¬distance x c ≤ 1) → IsLeast {c | c ∈ candidates} i
  /-- A value that is not a number is not near. -/
  undefined : ∀ c ∈ candidates, isNaN (x.getD c 0) = true → ¬distance x c ≤ 1
  inside : (∃ c ∈ candidates, -half ≤ x.getD c 0 ∧ x.getD c 0 ≤ 1 + half) →
    IsGreatest (closest x candidates) i
  relaxed : (∃ c ∈ candidates, 0 ≤ x.getD c 0 ∧ x.getD c 0 ≤ 1) →
    IsGreatest (closest x candidates) i

section Nearest

variable [Ordered α] {x : List α} {candidates : List Nat} {c i : Nat}

/-- Where a candidate is near, the nearest ones are the closest of all. -/
theorem nearest_eq_closest (hc : c ∈ candidates) (hnear : distance x c ≤ 1) :
    nearest x candidates = closest x candidates := by
  ext i
  constructor
  · rintro ⟨hi, hone, hbest⟩
    refine ⟨hi, fun d hd hnumber => ?_⟩
    by_cases hd' : distance x d ≤ 1
    · exact hbest d hd hd'
    · -- A number that is not near is farther away than one that is.
      have hfar := Ordered.total (Ordered.numbers hone).2 (isNaN_eq_false_iff.1 hnumber)
      exact Ordered.trans hone (hfar.resolve_right hd')
  · rintro ⟨hi, hbest⟩
    have hle := hbest c hc (isNaN_eq_false_iff.2 (Ordered.numbers hnear).1)
    refine ⟨hi, Ordered.trans hle hnear, fun d hd hd' => ?_⟩
    exact hbest d hd (isNaN_eq_false_iff.2 (Ordered.numbers hd').1)

theorem Leads.nearest (h : Leads within (fun a b => b ≤ a) true (distance x) candidates i) :
    IsGreatest (nearest x candidates) i := by
  obtain ⟨d, hd, hbegun⟩ := h.begun
  have hone := within_iff.1 hbegun
  have hbest : ∀ c ∈ candidates, distance x c ≤ 1 → distance x i ≤ distance x c := by
    intro c hc hle
    exact h.best c hc (isNaN_eq_false_iff.2 (Ordered.numbers hle).1)
  refine ⟨⟨h.among, Ordered.trans (hbest d hd hone) hone, hbest⟩, ?_⟩
  rintro j ⟨hj, -, hleast⟩
  exact h.stays j hj (hleast i h.among (Ordered.trans (hbest d hd hone) hone))

theorem lastNearest_of_near [Centred α]
    (near : (∃ c ∈ candidates, distance x c ≤ 1) → IsGreatest (nearest x candidates) i)
    (far : (∀ c ∈ candidates, ¬distance x c ≤ 1) → IsLeast {c | c ∈ candidates} i) :
    LastNearest x candidates i := by
  have inside : (∃ c ∈ candidates, -half ≤ x.getD c 0 ∧ x.getD c 0 ≤ 1 + half) →
      IsGreatest (closest x candidates) i := by
    rintro ⟨c, hc, lo, hi⟩
    have hnear : distance x c ≤ 1 := Centred.near lo hi
    exact nearest_eq_closest hc hnear ▸ near ⟨c, hc, hnear⟩
  refine ⟨near, far, ?_, inside, ?_⟩
  · intro c _ hundefined hle
    rw [isNaN_eq_false_iff.2 (Centred.number hle)] at hundefined
    cases hundefined
  · rintro ⟨c, hc, lo, hi⟩
    exact inside ⟨c, hc, Ordered.trans Centred.low lo, Ordered.trans hi Centred.high⟩

end Nearest

/-- **The most violated variable is the last one nearest to one half.** A node with an unfixed
variable is given a variable, whatever its values are, as long as the unfixed ones have one. If the
value of an unfixed variable is at most one away from one half, it is the last of those that are
nearest, and otherwise the first unfixed one. A value that is not a number is not near. So once a
value lies between -1/2 and 3/2, as relaxed values do, no unfixed variable is closer to one half. -/
theorem nearest_half_chosen [Ordered α] [Centred α] (context : Context α) (node : Node α)
    (hopen : node.fixed.unfixed context.size ≠ [])
    (hcover : ∀ c ∈ node.fixed.unfixed context.size, c < node.solution.length) :
    ∃ i, mostViolated context node = .ok i ∧
      LastNearest node.solution (node.fixed.unfixed context.size) i := by
  obtain ⟨first, rest, hu⟩ := List.exists_cons_of_ne_nil hopen
  have hascending : (first :: rest).Pairwise (· < ·) := hu ▸ unfixed_ascending _ _
  rw [hu] at hcover ⊢
  have hscores : ∀ c ∈ first :: rest,
      (node.solution.map violation)[c]? = some (distance node.solution c) := by
    intro c hc
    simp [distance, List.getD_eq_getElem?_getD, hcover c hc]
  have hchosen := run_eq_choose hu .mostViolated
  simp only [run, choose] at hchosen
  refine ⟨_, hchosen.trans (nearestHalf_eq_scan hcover first none), ?_⟩
  rcases scan_answer seeks_within hscores hascending rfl with ⟨hnone, hfirst⟩ | hleads
  · apply lastNearest_of_near
    · rintro ⟨c, hc, hle⟩
      exact absurd (within_iff.2 hle) (Bool.eq_false_iff.1 (hnone c hc))
    · intro _
      rw [hfirst]
      exact first_isLeast hascending
  · apply lastNearest_of_near
    · exact fun _ => hleads.nearest
    · intro hfar
      obtain ⟨d, hd, hbegun⟩ := hleads.begun
      exact absurd (within_iff.1 hbegun) (hfar d hd)

def distantContext : Context Float where
  form := ⟨⟨5, [[], [], [], [], []], by decide⟩, [0, 0, 0, 0, 0], rfl, rfl⟩
  strategy := .known .mostViolated
  seed := .integer 0
  visited := .integer 0

/-- A value that is not a number, a far one, and two at the very ends of what is near. The variable
in the middle of the interval is fixed. -/
def distantNode : Node Float :=
  ⟨none, [0 / 0, 3 / 2, 9, -1 / 2, 1 / 2], ⟨[(-2, 1), (4, 0)], by decide⟩⟩

theorem nearest_half_chosen_distant :
    distantNode.fixed.unfixed distantContext.size ≠ [] ∧
    (∀ c ∈ distantNode.fixed.unfixed distantContext.size, c < distantNode.solution.length) ∧
    IsGreatest (closest distantNode.solution [0, 1, 2, 3]) 3 := by
  have hopen : distantNode.fixed.unfixed distantContext.size ≠ [] := by decide
  have hcover : ∀ c ∈ distantNode.fixed.unfixed distantContext.size,
      c < distantNode.solution.length := by decide
  obtain ⟨i, hchosen, last⟩ := nearest_half_chosen distantContext distantNode hopen hcover
  have third : mostViolated distantContext distantNode = .ok 3 := by decide +kernel
  obtain rfl : 3 = i := Except.ok.inj (third.symm.trans hchosen)
  exact ⟨hopen, hcover, last.inside ⟨1, by decide, by decide +kernel, by decide +kernel⟩⟩

end Branching

end BinaryQuadratic
