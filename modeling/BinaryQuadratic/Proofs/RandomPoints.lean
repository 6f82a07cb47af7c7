import BinaryQuadratic.Proofs.Fractions
import BinaryQuadratic.StartingPoint

/-!
# Random points as parts of one stream

A generator stands for the stream of the numbers it will draw, and random points of every kind are
made from the next of them.

* `Generator.after`, `Generator.draw`: the stream, by position;
* `units_eq`, `binary_eq`, `repeated_eq`: what each loop of draws takes from it and leaves behind;
* `UnitDraws`: draws lie in `[0, 1)`, exact ones and doubles;
* `points_run`, `binaryPoint_run`: nothing is drawn before all checks have passed;
* `points_untouched`, `Draw.run_untouched`: a refused request draws nothing;
* `points_followed`: one request for all points or two for parts of them;
* `InTurn`, `Rising`, `points_in_turn`: which draw makes which entry.
-/

namespace BinaryQuadratic

namespace Random.Generator

/-- The generator that so many draws leave behind. -/
def after (g : Generator) : Nat → Generator
  | 0 => g
  | m + 1 => g.next.2.after m

variable {α : Type} [Scalar α]

/-- The number that is drawn after so many others. -/
def draw (g : Generator) (m : Nat) : α := fraction (g.after m).next.1

theorem after_add (g : Generator) (m k : Nat) : g.after (m + k) = (g.after m).after k := by
  induction m generalizing g with
  | zero => rw [Nat.zero_add]; rfl
  | succ m ih =>
    rw [Nat.succ_add]
    exact ih g.next.2

theorem draw_after (g : Generator) (m k : Nat) : ((g.after m).draw k : α) = g.draw (m + k) := by
  rw [draw, draw, after_add]

def entries {β : Type} (entry : α → β) (n : Nat) (g : Generator) : List β :=
  (List.range n).map fun i => entry (g.draw i)

theorem entries_succ {β : Type} (entry : α → β) (n : Nat) (g : Generator) :
    entries entry (n + 1) g = entry (g.draw 0) :: entries entry n g.next.2 := by
  rw [entries, List.range_succ_eq_map, List.map_cons, List.map_map]
  rfl

theorem units_eq (n : Nat) (g : Generator) : (g.units n : List α × Generator)
    = (entries id n g, g.after n) := by
  induction n generalizing g with
  | zero => rfl
  | succ n ih =>
    rw [entries_succ]
    simp only [units, unit, ih]
    rfl

end Random.Generator

namespace StartingPoint

open BinaryQuadratic.Random (Generator)
open BinaryQuadratic.Random.Generator (entries entries_succ)
open Scalar (Ordered isNaN)

/-- What is asked of draws: they lie in `[0, 1)`. -/
class UnitDraws (α : Type) [Scalar α] : Prop where
  bounds : ∀ bits : UInt64, (0 : α) ≤ Generator.fraction bits ∧ Generator.fraction bits < (1 : α)

theorem topBits_lt (bits : UInt64) : bits.toNat / 0x800 < 2 ^ 53 := by
  have := bits.toNat_lt
  omega

instance unitDraws_rational : UnitDraws Rat where
  bounds bits := by
    have hlt := topBits_lt bits
    have hresolution : (0 : Rat) < 2 ^ 53 := by norm_num
    have htop : ((bits.toNat / 0x800 : Nat) : Rat) < 2 ^ 53 := by exact_mod_cast hlt
    constructor
    · exact div_nonneg (Nat.cast_nonneg _) (Nat.cast_nonneg _)
    · refine (div_lt_one ?_).2 ?_
      · exact_mod_cast Nat.two_pow_pos 53
      · exact_mod_cast hlt

instance unitDraws_double : UnitDraws Float where
  bounds bits := Double.fraction_bounds (topBits_lt bits)

section Streams

variable {α β : Type} [Scalar α]

theorem fractional_eq (n : Nat) (g : Generator) :
    (fractional n g : List α × Generator) = (entries id n g, g.after n) :=
  Generator.units_eq n g

theorem binary_eq (level : α) (n : Nat) (g : Generator) :
    binary level n g = (entries (fun u => decide (u < level)) n g, g.after n) := by
  induction n generalizing g with
  | zero => rfl
  | succ n ih =>
    rw [entries_succ]
    simp only [binary, Generator.unit, ih]
    rfl

def rows (entry : α → β) (n k : Nat) (g : Generator) : List (List β) :=
  (List.range k).map fun j => (List.range n).map fun i => entry (g.draw (j * n + i))

theorem rows_succ (entry : α → β) (n k : Nat) (g : Generator) :
    rows entry n (k + 1) g = entries entry n g :: rows entry n k (g.after n) := by
  rw [rows, List.range_succ_eq_map, List.map_cons, List.map_map]
  refine congrArg₂ List.cons (List.map_congr_left fun i _ => ?_)
    (List.map_congr_left fun j _ => List.map_congr_left fun i _ => ?_)
  · rw [Nat.zero_mul, Nat.zero_add]
  · rw [Generator.draw_after, Nat.succ_mul, Nat.add_right_comm, Nat.add_comm]

theorem repeated_eq {make : Generator → List β × Generator} {entry : α → β} {n : Nat}
    (hmake : ∀ g, make g = (entries entry n g, g.after n)) (k : Nat) (g : Generator) :
    repeated make k g = (rows entry n k g, g.after (n * k)) := by
  induction k generalizing g with
  | zero => rfl
  | succ k ih =>
    have hrest : g.after (n * (k + 1)) = (g.after n).after (n * k) := by
      rw [← Generator.after_add, Nat.mul_succ, Nat.add_comm]
    simp only [repeated, hmake, ih, rows_succ, hrest]

theorem repeated_add {γ : Type} (make : Generator → γ × Generator) (a b : Nat) (g : Generator) :
    repeated make (a + b) g = ((repeated make a g).1 ++ (repeated make b (repeated make a g).2).1,
      (repeated make b (repeated make a g).2).2) := by
  induction a generalizing g with
  | zero => rw [Nat.zero_add]; rfl
  | succ a ih =>
    rw [Nat.succ_add]
    simp only [repeated, ih]
    rfl

end Streams

section Runs

variable {β : Type} {make : Nat → Generator → β × Generator} {n count : Int} {m k : Nat}
  {fault : Fault} {g : Generator}

theorem checkCount_natCast (k : Nat) : checkCount k = .ok k := by
  rw [checkCount, if_neg (by omega), Int.toNat_natCast]

/-- Nothing is drawn before count and size are checked. -/
theorem points_run (make : Nat → Generator → β × Generator) (n count : Int) (g : Generator) :
    points make n count g =
      match checkCount count with
      | .error fault => (.error fault, g)
      | .ok 0 => (.ok [], g)
      | .ok (k + 1) =>
        match checkSize n with
        | .error fault => (.error fault, g)
        | .ok m => (.ok (repeated (make m) (k + 1) g).1, (repeated (make m) (k + 1) g).2) := by
  unfold points
  cases checkCount count with
  | error fault => rfl
  | ok k =>
    cases k with
    | zero => rfl
    | succ k => cases checkSize n <;> rfl

theorem points_negative (h : count < 0) :
    points make n count g = (.error ((Plain.integer count).refusal .negativeCount), g) := by
  rw [points_run, checkCount, if_pos h]

theorem points_made (hn : 0 < k → checkSize n = .ok m) :
    points make n k g = (.ok (repeated (make m) k g).1, (repeated (make m) k g).2) := by
  rw [points_run, checkCount_natCast]
  cases k with
  | zero => rfl
  | succ k => rw [hn (Nat.succ_pos k)]

theorem points_refused (hn : checkSize n = .error fault) (hk : 0 < k) :
    points make n k g = (.error fault, g) := by
  obtain ⟨k, rfl⟩ := Nat.exists_eq_succ_of_ne_zero hk.ne'
  rw [points_run, checkCount_natCast, hn]

/-- A refused request for points leaves the generator where it was. -/
theorem points_untouched (h : (points make n count g).1 = .error fault) :
    (points make n count g).2 = g := by
  rw [points_run] at h ⊢
  split at h
  · rfl
  · rfl
  · split at h
    · rfl
    · cases h

def followed {γ : Type} (first later : Drawing (List γ)) : Drawing (List γ) := do
  let xs ← first
  let ys ← later
  pure (xs ++ ys)

theorem followed_of_ok {γ : Type} {first later : Drawing (List γ)} {xs : List γ} {g' : Generator}
    (h : first g = (.ok xs, g')) :
    followed first later g = ((later g').1.map (xs ++ ·), (later g').2) := by
  simp only [followed, bind, ExceptT.bind, ExceptT.mk, StateT.bind, h, ExceptT.bindCont]
  cases later g' with
  | mk ys g'' => cases ys <;> rfl

theorem followed_of_error {γ : Type} {first later : Drawing (List γ)} {g' : Generator}
    (h : first g = (.error fault, g')) : followed first later g = (.error fault, g') := by
  simp only [followed, bind, ExceptT.bind, ExceptT.mk, StateT.bind, h, ExceptT.bindCont]
  rfl

theorem points_followed (make : Nat → Generator → β × Generator) (n : Int) (a b : Nat) :
    followed (points make n a) (points make n b) = points make n (a + b : Nat) := by
  funext g
  cases hn : checkSize n with
  | ok m =>
    rw [followed_of_ok (points_made fun _ => hn), points_made fun _ => hn, points_made fun _ => hn,
      repeated_add]
    rfl
  | error fault =>
    -- The size matters from the first request on that asks for a point.
    cases a with
    | zero =>
      have hnone : points make n (0 : Nat) g = (.ok [], g) := rfl
      rw [followed_of_ok hnone, Nat.zero_add]
      cases points make n b g with
      | mk ys g' => cases ys <;> rfl
    | succ a =>
      rw [followed_of_error (points_refused hn (by omega)), points_refused hn (by omega)]

variable {α : Type} [Scalar α]

/-- A binary point is drawn once density and size are checked. -/
theorem binaryPoint_run (n : Int) (d : Density α) (g : Generator) :
    binaryPoint n d g =
      if d.IsShare then
        match checkSize n with
        | .error fault => (.error fault, g)
        | .ok m => (.ok (binary d.value m g).1, (binary d.value m g).2)
      else (.error (.sparsityRange d.shown), g) := by
  unfold binaryPoint
  split
  · cases checkSize n <;> rfl
  · rfl

theorem binaryPoint_untouched {d : Density α}
    (h : (binaryPoint n d g).1 = .error fault) : (binaryPoint n d g).2 = g := by
  rw [binaryPoint_run] at h ⊢
  by_cases hshare : d.IsShare
  · rw [if_pos hshare] at h ⊢
    cases hn : checkSize n with
    | error fault => rfl
    | ok m =>
      rw [hn] at h
      cases h
  · rw [if_neg hshare]

omit [Scalar α] in
theorem wrapped_untouched {γ : Type} {x : Except Fault γ × Generator} {wrap : γ → Drawn α}
    (untouched : ∀ {fault}, x.1 = .error fault → x.2 = g) (h : x.1.map wrap = .error fault) :
    x.2 = g := by
  cases hx : x.1 with
  | error fault => exact untouched hx
  | ok a =>
    rw [hx] at h
    cases h

/-- A refused request leaves form and generator where they were. -/
theorem Draw.run_untouched {f : Quadratic α} {draw : Draw α}
    (h : (draw.run f g).1 = .error fault) : (draw.run f g).2 = (f, g) := by
  cases draw with
  | central n => rfl
  | alpha => cases h
  | rho => cases h
  | fractional n count =>
    simp only [Draw.run] at h ⊢
    cases hr : readExtents n count with
    | error fault => rfl
    | ok extents =>
      rw [hr] at h
      exact congrArg (Prod.mk f) (wrapped_untouched points_untouched h)
  | binary n density =>
    simp only [Draw.run] at h ⊢
    by_cases hshare : density.IsShare
    · rw [if_pos hshare] at h ⊢
      cases hr : readSize n with
      | error fault => rfl
      | ok n =>
        rw [hr] at h
        exact congrArg (Prod.mk f) (wrapped_untouched binaryPoint_untouched h)
    · rw [if_neg hshare]
  | binaries n count =>
    simp only [Draw.run] at h ⊢
    cases hr : readExtents n count with
    | error fault => rfl
    | ok extents =>
      rw [hr] at h
      exact congrArg (Prod.mk f) (wrapped_untouched points_untouched h)
  | refused fault => rfl

end Runs

section Sizes

variable {n : Nat}

theorem checkSize_within (h : (n : Int) ≤ sizeLimit) : checkSize n = .ok n := by
  have hindex : isIndex n = true := by
    simp only [isIndex, Bool.and_eq_true, decide_eq_true_eq]
    unfold indexRange
    unfold sizeLimit at h
    omega
  rw [checkSize, hindex, if_neg (by decide), if_neg (by omega), if_neg (by omega),
    Int.toNat_natCast]

theorem checkSize_beyond (h : sizeLimit < n) : ∃ fault, checkSize n = .error fault := by
  by_cases hindex : isIndex n
  · have hnonneg : ¬(n : Int) < 0 := by omega
    exact ⟨.largeSize, by rw [checkSize, hindex, if_neg (by decide), if_neg hnonneg, if_pos h]⟩
  · exact ⟨.wideSize, by rw [checkSize, Bool.eq_false_iff.2 hindex]; rfl⟩

end Sizes

section Points

variable {α : Type} [Scalar α]

/-- `k` points of numbers and `k` points of set variables, `n` entries each, from the same draws in
turn. A variable is set where its draw lies below one half. -/
structure InTurn (g : Generator) (n k : Nat) (xs : List (List α)) (bs : List (List Bool)) :
    Prop where
  counts : xs.length = k ∧ bs.length = k
  lengths : (∀ x ∈ xs, x.length = n) ∧ ∀ b ∈ bs, b.length = n
  entries : ∀ j < k, ∀ i < n, xs[j]?.bind (·[i]?) = some (g.draw (j * n + i)) ∧
    bs[j]?.bind (·[i]?) = some (decide ((g.draw (j * n + i) : α) < Scalar.half))

/-- A point at every level, whose variables stay set as the level grows. -/
structure Rising (n : Nat) (point : α → List Bool) : Prop where
  grows : ∀ {s t}, s ≤ t → List.Forall₂ (· ≤ ·) (point s) (point t)
  none : ∀ {s}, s ≤ 0 → point s = List.replicate n false
  all : ∀ {s}, 1 ≤ s → point s = List.replicate n true

section Rows

variable {β : Type} {entry : α → β} {g : Generator} {n k : Nat}

theorem length_rows : (rows entry n k g).length = k := by
  rw [rows, List.length_map, List.length_range]

theorem length_of_mem_rows {x : List β} (h : x ∈ rows entry n k g) : x.length = n := by
  obtain ⟨j, -, rfl⟩ := List.mem_map.1 h
  rw [List.length_map, List.length_range]

theorem getElem?_rows {i j : Nat} (hj : j < k) (hi : i < n) :
    (rows entry n k g)[j]?.bind (·[i]?) = some (entry (g.draw (j * n + i))) := by
  simp [rows, List.getElem?_range hj, List.getElem?_range hi]

end Rows

theorem rows_inTurn (g : Generator) (n k : Nat) :
    InTurn g n k (rows (id : α → α) n k g)
      (rows (fun u : α => decide (u < Scalar.half)) n k g) where
  counts := ⟨length_rows, length_rows⟩
  lengths := ⟨fun _ => length_of_mem_rows, fun _ => length_of_mem_rows⟩
  entries _ hj _ hi := ⟨getElem?_rows hj hi, getElem?_rows hj hi⟩

theorem draw_bounds [UnitDraws α] (g : Generator) (m : Nat) :
    (0 : α) ≤ g.draw m ∧ (g.draw m : α) < 1 :=
  UnitDraws.bounds _

theorem entries_rising [Ordered α] [UnitDraws α] (g : Generator) (n : Nat) :
    Rising n fun s : α => entries (fun u => decide (u < s)) n g where
  grows := by
    intro s t hst
    rw [entries, entries, List.forall₂_map_left_iff, List.forall₂_map_right_iff]
    refine List.forall₂_same.2 fun i _ => ?_
    rw [Bool.le_iff_imp, decide_eq_true_iff, decide_eq_true_iff, Ordered.lt_iff, Ordered.lt_iff]
    rintro ⟨hle, hnot⟩
    exact ⟨Ordered.trans hle hst, fun h => hnot (Ordered.trans hst h)⟩
  none := by
    intro s hs
    refine List.eq_replicate_iff.2 ⟨by rw [entries, List.length_map, List.length_range], ?_⟩
    intro b hb
    obtain ⟨i, -, rfl⟩ := List.mem_map.1 hb
    refine decide_eq_false fun hlt => (Ordered.lt_iff.1 hlt).2 ?_
    exact Ordered.trans hs (draw_bounds g i).1
  all := by
    intro s hs
    refine List.eq_replicate_iff.2 ⟨by rw [entries, List.length_map, List.length_range], ?_⟩
    intro b hb
    obtain ⟨i, -, rfl⟩ := List.mem_map.1 hb
    obtain ⟨hle, hnot⟩ := Ordered.lt_iff.1 (draw_bounds (α := α) g i).2
    exact decide_eq_true (Ordered.lt_iff.2
      ⟨Ordered.trans hle hs, fun h => hnot (Ordered.trans hs h)⟩)

end Points

/-- **Random points are drawn in turn.** Draws lie in `[0, 1)`. Points of numbers and points of set
variables take as many draws as they have entries together, entry by entry and point by point, and
leave the same generator behind, so that the points of two requests are those of one. A binary
point takes as many draws at every density, its variables stay set as the density grows, and none
is set at zero and all at one. A number of points below zero, a density that is no share and a size
that no array has are refused without a draw. -/
theorem points_in_turn {α : Type} [Scalar α] [Ordered α] [UnitDraws α] (g : Generator) :
    (∀ m, (0 : α) ≤ g.draw m ∧ (g.draw m : α) < 1) ∧
    (∀ n k : Nat, (0 < k → (n : Int) ≤ sizeLimit) → ∃ (xs : List (List α)) (bs : List (List Bool)),
      fractionalPoints n k g = (.ok xs, g.after (n * k)) ∧
      binaryPoints α n k g = (.ok bs, g.after (n * k)) ∧ InTurn g n k xs bs) ∧
    (∀ (n : Int) (a b : Nat),
      followed (fractionalPoints n a) (fractionalPoints n b)
        = fractionalPoints (α := α) n (a + b : Nat) ∧
      followed (binaryPoints α n a) (binaryPoints α n b) = binaryPoints α n (a + b : Nat)) ∧
    (∀ n : Nat, (n : Int) ≤ sizeLimit → ∃ point : α → List Bool, Rising n point ∧
      ∀ d : Density α, d.IsShare → binaryPoint n d g = (.ok (point d.value), g.after n)) ∧
    (∀ n k : Int, k < 0 →
      fractionalPoints (α := α) n k g = (.error ((Plain.integer k).refusal .negativeCount), g) ∧
      binaryPoints α n k g = (.error ((Plain.integer k).refusal .negativeCount), g)) ∧
    (∀ (n : Int) (d : Density α), isNaN d.value = true ∨ ¬(0 ≤ d.value ∧ d.value ≤ 1) →
      binaryPoint n d g = (.error (.sparsityRange d.shown), g)) ∧
    (∀ n k : Nat, sizeLimit < n → 0 < k → ∃ fault,
      fractionalPoints (α := α) n k g = (.error fault, g) ∧
      binaryPoints α n k g = (.error fault, g) ∧
      ∀ d : Density α, d.IsShare → binaryPoint n d g = (.error fault, g)) := by
  refine ⟨draw_bounds g, fun n k hn => ?_, fun n a b => ?_, fun n hn => ?_, fun n k hk => ?_,
    fun n d hd => ?_, fun n k hn hk => ?_⟩
  · have hsize : 0 < k → checkSize n = .ok n := fun hk => checkSize_within (hn hk)
    refine ⟨_, _, ?_, ?_, rows_inTurn g n k⟩
    · rw [fractionalPoints, points_made hsize, repeated_eq (fractional_eq n)]
    · rw [binaryPoints, points_made hsize, repeated_eq (binary_eq _ n)]
      rfl
  · exact ⟨points_followed fractional n a b, points_followed (binary evenDensity.value) n a b⟩
  · refine ⟨_, entries_rising g n, fun d hd => ?_⟩
    rw [binaryPoint_run, if_pos hd, checkSize_within hn]
    simp only [binary_eq]
  · exact ⟨points_negative hk, points_negative hk⟩
  · have hnot : ¬d.IsShare := by
      rcases hd with hnan | hd
      · rintro ⟨hle, -⟩
        rw [Scalar.isNaN_eq_false_iff.2 (Ordered.numbers hle).2] at hnan
        cases hnan
      · exact hd
    rw [binaryPoint_run, if_neg hnot]
  · obtain ⟨fault, hfault⟩ := checkSize_beyond hn
    refine ⟨fault, points_refused hfault hk, points_refused hfault hk, fun d hd => ?_⟩
    rw [binaryPoint_run, if_pos hd, hfault]

def blankGenerator : Generator := ⟨0, 1⟩

theorem points_in_turn_doubles :
    (∃ (xs : List (List Float)) (bs : List (List Bool)),
      fractionalPoints 3 2 blankGenerator = (.ok xs, blankGenerator.after 6) ∧
      binaryPoints Float 3 2 blankGenerator = (.ok bs, blankGenerator.after 6) ∧
      InTurn blankGenerator 3 2 xs bs) ∧
    binaryPoint 3 (⟨0 / 0, "nan"⟩ : Density Float) blankGenerator
      = (.error (.sparsityRange "nan"), blankGenerator) := by
  obtain ⟨-, drawn, -, -, -, refused, -⟩ := points_in_turn (α := Float) blankGenerator
  exact ⟨drawn 3 2 (by decide), refused 3 ⟨0 / 0, "nan"⟩ (.inl (by decide +kernel))⟩

end StartingPoint

end BinaryQuadratic
