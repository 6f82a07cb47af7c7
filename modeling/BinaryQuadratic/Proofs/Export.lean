import BinaryQuadratic.Proofs.Options
import BinaryQuadratic.Proofs.Spelling

/-!
# Options written out

Options as plain data whose keys are texts, and what is read from that data again.

* `Plain.writeInteger_eq_ok_iff`: which integers can be written at all;
* `Writing`: how each index is spelled, and whether the seed is a number or spelled too;
* `Writing.keyed`, `Writing.exported`: the fixed variables and all options written out;
* `keyed_eq`: every index keeps a key of its own, in the order of the indices;
* `options_restored`: the data is read as the options it was written from.
-/

namespace BinaryQuadratic

open Decimal (Spelling)

namespace Plain

/-- A key that is not there yet goes to the end. -/
theorem put_absent {key value : Plain} {pairs : List (Plain × Plain)}
    (h : ∀ p ∈ pairs, p.1.sameKey key = false) :
    put key value pairs = pairs ++ [(key, value)] := by
  induction pairs with
  | nil => rfl
  | cons p rest ih =>
    obtain ⟨hp, hrest⟩ := List.forall_mem_cons.1 h
    rw [put, hp, ih hrest]
    rfl

/-- Put in one after another, pairs whose keys are all different stay as they are. -/
theorem foldl_put {pairs : List (Plain × Plain)}
    (h : pairs.Pairwise fun p q => p.1.sameKey q.1 = false) :
    pairs.foldl (fun map p => put p.1 p.2 map) [] = pairs := by
  induction pairs using List.reverseRecOn with
  | nil => rfl
  | append_singleton pairs p ih =>
    obtain ⟨hpairs, -, hlast⟩ := List.pairwise_append.1 h
    rw [List.foldl_append, ih hpairs]
    exact put_absent fun q hq => hlast q hq p List.mem_cons_self

theorem toInteger_text {w : Spelling} {k : Int} (h : w.Fits k) :
    (text (w.text k)).toInteger = .ok k := by
  rw [toInteger, w.readInteger_text, if_pos h]

/-- An integer can be written exactly where the text of it can be read. -/
theorem writeInteger_eq_ok_iff {k : Int} {s : String} :
    writeInteger k = .ok s ↔ s = Decimal.integer k ∧ (text s).toInteger = .ok k := by
  have hwrite : writeInteger k =
      if Spelling.plain.Fits k then .ok (Decimal.integer k) else .error .unwritableInteger := rfl
  rw [hwrite]
  by_cases h : Spelling.plain.Fits k
  · rw [if_pos h]
    constructor
    · intro hwritten
      obtain rfl := Except.ok.inj hwritten
      refine ⟨rfl, ?_⟩
      rw [← Spelling.text_plain, toInteger_text h]
    · rintro ⟨rfl, -⟩
      rfl
  · rw [if_neg h]
    refine ⟨nofun, ?_⟩
    rintro ⟨rfl, hread⟩
    rw [toInteger, ← Spelling.text_plain, Spelling.readInteger_text, if_neg h] at hread
    cases hread

end Plain

namespace Options

/-- How options are written out: the spelling of each index, and that of the seed if it is not left
a number. -/
structure Writing where
  index : Int → Spelling
  seed : Option Spelling

namespace Writing

variable (writing : Writing) (options : Options Float)

def pair (e : Int × Float) : Plain × Plain := (.text ((writing.index e.1).text e.1), .float e.2)

/-- The fixed variables, put into a map one after another. -/
def keyed (fixed : Fixings Float) : List (Plain × Plain) :=
  (fixed.entries.map writing.pair).foldl (fun map p => Plain.put p.1 p.2 map) []

def writtenSeed (seed : Int) : Plain :=
  writing.seed.elim (.integer seed) fun spelling => .text (spelling.text seed)

def exported : List (String × Plain) :=
  [(fixedName, .map (writing.keyed options.fixed)), (strategyName, .text options.strategy.name),
    (maxTimeName, .float options.maxTime), (seedName, writing.writtenSeed options.seed)]

/-- No text has more digits than can be read. -/
structure Fits : Prop where
  index : ∀ k ∈ options.fixed.indices, (writing.index k).Fits k
  seed : ∀ spelling ∈ writing.seed, spelling.Fits options.seed

variable {writing options} {fixed : Fixings Float}

/-- No index takes the place of another, since their texts are different. -/
theorem keyed_eq (fits : ∀ k ∈ fixed.indices, (writing.index k).Fits k) :
    writing.keyed fixed = fixed.entries.map writing.pair := by
  apply Plain.foldl_put
  have distinct : fixed.entries.Pairwise fun d e => d.1 ≠ e.1 := List.pairwise_map.1 fixed.distinct
  refine List.pairwise_map.2 (distinct.imp_of_mem fun {d e} hd he hne => ?_)
  have apart : (writing.index d.1).text d.1 ≠ (writing.index e.1).text e.1 := by
    intro htext
    have hdfits := fits d.1 (List.mem_map_of_mem hd)
    have hefits := fits e.1 (List.mem_map_of_mem he)
    exact hne (Spelling.eq_of_text_eq hdfits hefits htext)
  exact decide_eq_false apart

theorem toInteger_writtenSeed (fits : ∀ w ∈ writing.seed, w.Fits options.seed) :
    (writing.writtenSeed options.seed).toInteger = .ok options.seed := by
  unfold writtenSeed
  cases hs : writing.seed with
  | none => rfl
  | some w => exact Plain.toInteger_text (fits w hs)

theorem collect_keyed (fits : ∀ k ∈ fixed.indices, (writing.index k).Fits k) :
    collect (.map (writing.keyed fixed)) = .ok fixed := by
  have hread : List.Forall₂ PairOf (writing.keyed fixed) fixed.entries := by
    rw [keyed_eq fits, List.forall₂_map_left_iff, List.forall₂_same]
    exact fun e he => ⟨Plain.toInteger_text (fits e.1 (List.mem_map_of_mem he)), rfl⟩
  simp only [collect, bind_eq_ok_iff, mapM_eq_ok_iff, readFixing_eq_ok_iff]
  exact ⟨_, rfl, _, hread, congrArg Except.ok fixed.ofList_entries⟩

theorem readFixed_keyed (fits : ∀ k ∈ fixed.indices, (writing.index k).Fits k) :
    readFixed (some (.map (writing.keyed fixed))) = .ok fixed := by
  cases hempty : (writing.keyed fixed).isEmpty with
  | false =>
    rw [readFixed, Plain.isEmpty, hempty]
    exact collect_keyed fits
  | true =>
    -- Without indices the map counts as missing.
    have hnil : fixed.entries = [] := by
      rwa [keyed_eq fits, List.isEmpty_iff, List.map_eq_nil_iff] at hempty
    rw [readFixed, Plain.isEmpty, hempty]
    exact congrArg Except.ok (Fixings.ext_entries hnil.symm)

end Writing

/-- **Options survive being written out.** Each index is written under a text of its own, the
strategy by its name, the time limit as it is and the seed as a number or a text. Whatever spellings
the texts have and in whatever order the names stand, the same options are read, with the fixed
variables in the same order. -/
theorem options_restored (writing : Writing) (options : Options Float) (fits : writing.Fits options)
    {written : List (String × Plain)} (h : written.Perm (writing.exported options)) :
    ofPlain (mapping written) = .ok options := by
  have distinct : ((writing.exported options).map Prod.fst).Nodup := by
    change names.Nodup
    decide
  have hgiven : ∀ name, given name written = given name (writing.exported options) :=
    find?_key_of_perm distinct h
  refine ofPlain_eq_ok_iff.2 ⟨?_, ?_, ?_, ?_, ?_⟩
  · rw [StrategyOf, hgiven]
    exact rfl
  · rw [TimeOf, hgiven]
    exact rfl
  · rw [SeedOf, hgiven]
    exact Writing.toInteger_writtenSeed fits.seed
  · rw [unrecognised_eq_nil_iff]
    intro e he
    exact List.mem_map_of_mem (f := Prod.fst) (h.mem_iff.1 he)
  · rw [hgiven]
    exact Writing.readFixed_keyed fits.index

/-- Blanks of several kinds, a plus, two zeros, and underscores that leave out the second gap. -/
def dressed : Spelling := ⟨[' ', '\t'], true, 2, [true, false, true], ['\u00a0', '\n'],
  List.all_eq_true.1 rfl, List.all_eq_true.1 rfl⟩

/-- Negative indices are dressed, the others plain. -/
def partlyDressed : Writing := ⟨fun k => if k < 0 then dressed else .plain, some dressed⟩

def scatteredOptions : Options Float :=
  ⟨⟨[(12, 1), (-3, 0.5), (0, 0)], by decide⟩, .worstApproximation, 5, 17⟩

theorem options_restored_dressed : partlyDressed.Fits scatteredOptions ∧
    (partlyDressed.exported scatteredOptions).reverse.Perm
      (partlyDressed.exported scatteredOptions) ∧
    (partlyDressed.index 12).text 12 = Decimal.integer 12 ∧
    partlyDressed.writtenSeed 17 = .text " \t+0_01_7\u00a0\n" ∧
    ofPlain (mapping (partlyDressed.exported scatteredOptions).reverse)
      = .ok scatteredOptions := by
  have fits : partlyDressed.Fits scatteredOptions := by
    constructor
    · decide +kernel
    · rintro _ ⟨⟩
      decide +kernel
  have hseed : dressed.text 17 = " \t+0_01_7\u00a0\n" := by decide +kernel
  refine ⟨fits, List.reverse_perm _, Spelling.text_plain 12, congrArg Plain.text hseed, ?_⟩
  exact options_restored partlyDressed scatteredOptions fits (List.reverse_perm _)

end Options

end BinaryQuadratic
