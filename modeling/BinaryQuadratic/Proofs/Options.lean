import Mathlib.Data.List.Induction
import BinaryQuadratic.Options
import BinaryQuadratic.Proofs.Assignments
import BinaryQuadratic.Proofs.KeyOrder

/-!
# Reading options

What options are read from plain data, and which step refuses them otherwise.

* `Fixings.ofList_entries`: inserted pairs whose indices are all different stay as they are;
* `Fixings.indices_ofList`, `Fixings.get?_ofList`: inserted pairs stand where their indices came
  first and have the values that came last;
* `mapping`, `given`, `unrecognised`: options by their names;
* `readStrategy_eq_ok_iff`, `checkNames_eq_error_iff`, `readFixed_eq_error_iff` and the like: when
  each step passes and how it fails;
* `Admitted`, `Refusal`, `Normal`: options that pass all steps, the first step that fails, and what
  is read;
* `returns_iff_admitted`, `refusal_of_error`, `error_of_refusal`, `normal_of_ok`, `options_read`:
  these are the outcomes of reading.
-/

namespace BinaryQuadratic

namespace Fixings

variable {α : Type}

theorem put_present {k : Int} {v : α} {entries : List (Int × α)}
    (h : k ∈ entries.map Prod.fst) : (put k v entries).map Prod.fst = entries.map Prod.fst := by
  induction entries with
  | nil => cases h
  | cons e rest ih =>
    unfold put
    split
    · next he => rw [List.map_cons, List.map_cons, he]
    · next he =>
      have hrest := (List.mem_cons.1 h).resolve_left (Ne.symm he)
      rw [List.map_cons, List.map_cons, ih hrest]

theorem ofList_concat (pairs : List (Int × α)) (e : Int × α) :
    ofList (pairs ++ [e]) = (ofList pairs).insert e.1 e.2 := by
  rw [ofList, List.foldl_append]
  rfl

theorem ext_entries {f g : Fixings α} (h : f.entries = g.entries) : f = g := by
  cases f
  cases g
  cases h
  rfl

theorem entries_ofList {pairs : List (Int × α)}
    (distinct : (pairs.map Prod.fst).Nodup) : (ofList pairs).entries = pairs := by
  induction pairs using List.reverseRecOn with
  | nil => rfl
  | append_singleton pairs e ih =>
    rw [List.map_append, List.map_singleton, List.nodup_append'] at distinct
    obtain ⟨hpairs, -, hdisjoint⟩ := distinct
    have habsent : e.1 ∉ (ofList pairs).indices := by
      rw [indices, ih hpairs]
      exact fun hin => hdisjoint hin List.mem_cons_self
    rw [ofList_concat, entries_insert habsent, ih hpairs]

/-- Indices that are all different are collected as they stand. -/
theorem ofList_entries (fixed : Fixings α) : ofList fixed.entries = fixed :=
  ext_entries (entries_ofList fixed.distinct)

/-- Inserted pairs stand where their indices came first. -/
theorem indices_ofList (pairs : List (Int × α)) :
    (ofList pairs).indices = (pairs.map Prod.fst).eraseDups := by
  induction pairs using List.reverseRecOn with
  | nil => rfl
  | append_singleton pairs e ih =>
    have hmem : e.1 ∈ (ofList pairs).indices ↔ e.1 ∈ pairs.map Prod.fst := by
      rw [ih, List.mem_eraseDups]
    rw [ofList_concat, List.map_append, List.eraseDups_append, ← ih]
    by_cases h : e.1 ∈ pairs.map Prod.fst
    · -- The index keeps its place.
      have hnone : ([e].map Prod.fst).removeAll (pairs.map Prod.fst) = [] := by
        simp [List.removeAll, h]
      rw [hnone, List.eraseDups_nil, List.append_nil]
      exact put_present (hmem.2 h)
    · have hone : ([e].map Prod.fst).removeAll (pairs.map Prod.fst) = [e.1] := by
        simp [List.removeAll, h]
      rw [hone, indices_insert fun hin => h (hmem.1 hin)]
      rfl

/-- Of several pairs with an index the last one counts. -/
theorem get?_ofList (pairs : List (Int × α)) (k : Int) :
    (ofList pairs).get? k = (pairs.reverse.find? fun e => e.1 = k).map Prod.snd := by
  induction pairs using List.reverseRecOn with
  | nil => rfl
  | append_singleton pairs e ih =>
    rw [ofList_concat, get?_insert, ih, List.reverse_append, List.reverse_singleton,
      List.singleton_append, List.find?_cons]
    by_cases h : k = e.1
    · simp [h]
    · simp [h, Ne.symm h]

end Fixings

theorem Strategy.ofName?_eq_some_iff {s : String} {strategy : Strategy} :
    ofName? s = some strategy ↔ strategy.name = s := by
  constructor
  · intro h
    simpa using List.find?_some h
  · rintro rfl
    exact ofName?_name strategy

theorem Strategy.ofName?_eq_none_iff {s : String} :
    ofName? s = none ↔ ∀ strategy : Strategy, strategy.name ≠ s := by
  rw [Option.eq_none_iff_forall_ne_some]
  exact forall_congr' fun strategy => not_congr ofName?_eq_some_iff

theorem Plain.mapM_shown_texts (texts : List String) :
    (texts.map Plain.text).mapM Plain.shown = .ok (texts.map Text.quoted) := by
  rw [mapM_eq_ok_iff, List.forall₂_map_left_iff, List.forall₂_map_right_iff, List.forall₂_same]
  intro s _
  rw [shown]

namespace Options

open Text (Ascending)

variable {options : List (String × Plain)} {fault : Fault}

def mapping (options : List (String × Plain)) : Plain :=
  .map (options.map fun e => (.text e.1, e.2))

def given (name : String) (options : List (String × Plain)) : Option Plain :=
  (options.find? fun e => e.1 = name).map Prod.snd

/-- The fixed variables that are given; null, false, zero and everything empty give none. -/
def givenFixed (options : List (String × Plain)) : Option Plain :=
  (given fixedName options).filter fun value => !value.isEmpty

def unrecognised (options : List (String × Plain)) : List String :=
  (options.map Prod.fst).filter fun name => name ∉ names

/-- The strategy of the given text, or the one for a missing text. -/
def StrategyOf (options : List (String × Plain)) (strategy : Strategy) : Prop :=
  (given strategyName options).elim (strategy = default.strategy) fun value =>
    value.asText = .ok strategy.name

/-- The given time limit as a number, or the one for a missing value. -/
def TimeOf (options : List (String × Plain)) (maxTime : Float) : Prop :=
  (given maxTimeName options).elim (maxTime = default.maxTime) fun value =>
    value.toFloat = .ok maxTime

/-- The given seed as a whole number, or the one for a missing value. -/
def SeedOf (options : List (String × Plain)) (seed : Int) : Prop :=
  (given seedName options).elim (seed = default.seed) fun value => value.toInteger = .ok seed

def PairOf (pair : Plain × Plain) (e : Int × Float) : Prop :=
  pair.1.toInteger = .ok e.1 ∧ pair.2.toFloat = .ok e.2

/-- One entry for each index, where it came first and with the value that came last. -/
structure Collects (fixed : Fixings Float) (pairs : List (Int × Float)) : Prop where
  indices : fixed.indices = (pairs.map Prod.fst).eraseDups
  values : ∀ k, fixed.get? k = (pairs.reverse.find? fun e => e.1 = k).map Prod.snd

/-- The given fixed variables, collected from the pairs that they are read as. -/
def FixedOf (options : List (String × Plain)) (fixed : Fixings Float) : Prop :=
  (givenFixed options).elim (fixed = Fixings.empty) fun value =>
    ∃ pairs read, value.toPairs = .ok pairs ∧ List.Forall₂ PairOf pairs read ∧ Collects fixed read

/-- What options are read as. -/
structure Normal (options : List (String × Plain)) (read : Options Float) : Prop where
  strategy : StrategyOf options read.strategy
  maxTime : TimeOf options read.maxTime
  seed : SeedOf options read.seed
  fixed : FixedOf options read.fixed

/-- The steps before the names are looked at pass. -/
structure Begun (options : List (String × Plain)) : Prop where
  strategy : ∃ strategy, StrategyOf options strategy
  maxTime : ∃ maxTime, TimeOf options maxTime
  seed : ∃ seed, SeedOf options seed

/-- What options must be like to be read. -/
structure Admitted (options : List (String × Plain)) : Prop extends Begun options where
  recognised : ∀ e ∈ options, e.1 ∈ names
  fixed : ∀ value, givenFixed options = some value → ∃ pairs, value.toPairs = .ok pairs ∧
    ∀ pair ∈ pairs, (∃ k, pair.1.toInteger = .ok k) ∧ ∃ v, pair.2.toFloat = .ok v

/-- The first step that fails, and how it does. -/
inductive Refusal (options : List (String × Plain)) : Fault → Prop
  | unwritable {value fault} (given : given strategyName options = some value)
      (fails : value.asText = .error fault) : Refusal options fault
  | strategy {value text} (given : given strategyName options = some value)
      (written : value.asText = .ok text) (unknown : ∀ strategy : Strategy, strategy.name ≠ text) :
      Refusal options (.unknownStrategy (Text.quoted text))
  | maxTime {value fault} (strategy : ∃ strategy, StrategyOf options strategy)
      (given : given maxTimeName options = some value) (fails : value.toFloat = .error fault) :
      Refusal options fault
  | seed {value fault} (strategy : ∃ strategy, StrategyOf options strategy)
      (maxTime : ∃ maxTime, TimeOf options maxTime)
      (given : given seedName options = some value) (fails : value.toInteger = .error fault) :
      Refusal options fault
  | names {unknown} (begun : Begun options) (some_unknown : unknown ≠ [])
      (exactly : unknown.Perm (unrecognised options)) (ascending : Ascending unknown) :
      Refusal options (.unknownOptions (unknown.map Text.quoted))
  | pairs {value fault} (begun : Begun options) (recognised : unrecognised options = [])
      (given : givenFixed options = some value) (fails : value.toPairs = .error fault) :
      Refusal options fault
  | key {value before pair after fault} (begun : Begun options)
      (recognised : unrecognised options = []) (given : givenFixed options = some value)
      (pairs : value.toPairs = .ok (before ++ pair :: after))
      (earlier : ∀ p ∈ before, ∃ e, PairOf p e) (fails : pair.1.toInteger = .error fault) :
      Refusal options fault
  | value {value before pair after k fault} (begun : Begun options)
      (recognised : unrecognised options = []) (given : givenFixed options = some value)
      (pairs : value.toPairs = .ok (before ++ pair :: after))
      (earlier : ∀ p ∈ before, ∃ e, PairOf p e) (key : pair.1.toInteger = .ok k)
      (fails : pair.2.toFloat = .error fault) : Refusal options fault

theorem get?_mapping (name : String) (options : List (String × Plain)) :
    Plain.get? name (options.map fun e => (.text e.1, e.2)) = given name options := by
  rw [Plain.get?, given, List.find?_map, Option.map_map]
  rfl

section Steps

variable {β : Type} {value : Option Plain} {standard b : β} {read : Plain → Except Fault β}

theorem elim_eq_ok_iff : value.elim (.ok standard) read = .ok b ↔
    value.elim (b = standard) fun value => read value = .ok b := by
  cases value with
  | none => exact ⟨fun h => (Except.ok.inj h).symm, fun h => h ▸ rfl⟩
  | some value => rfl

theorem elim_eq_error_iff : value.elim (.ok standard) read = .error fault ↔
    ∃ v, value = some v ∧ read v = .error fault := by
  cases value with
  | none => exact ⟨nofun, nofun⟩
  | some value => simp

theorem readStrategy_eq_ok_iff {strategy : Strategy} :
    readStrategy (given strategyName options) = .ok strategy ↔ StrategyOf options strategy := by
  unfold StrategyOf
  cases given strategyName options with
  | none => exact ⟨fun h => (Except.ok.inj h).symm, fun h => h ▸ rfl⟩
  | some value =>
    rw [Option.elim_some, readStrategy, bind_eq_ok_iff]
    constructor
    · rintro ⟨text, htext, h⟩
      cases hs : Strategy.ofName? text with
      | none =>
        rw [hs] at h
        cases h
      | some found =>
        rw [hs] at h
        obtain rfl := Except.ok.inj h
        rw [htext, Strategy.ofName?_eq_some_iff.1 hs]
    · intro h
      refine ⟨_, h, ?_⟩
      rw [Strategy.ofName?_name]
      rfl

theorem readStrategy_eq_error_iff :
    readStrategy (given strategyName options) = .error fault ↔
      ∃ value, given strategyName options = some value ∧ (value.asText = .error fault ∨
        ∃ text, value.asText = .ok text ∧ (∀ strategy : Strategy, strategy.name ≠ text) ∧
          fault = .unknownStrategy (Text.quoted text)) := by
  cases given strategyName options with
  | none => exact ⟨nofun, nofun⟩
  | some value =>
    simp only [Option.some.injEq, exists_eq_left', readStrategy, bind_eq_error_iff,
      ← Strategy.ofName?_eq_none_iff]
    refine or_congr_right (exists_congr fun text => and_congr_right fun _ => ?_)
    cases Strategy.ofName? text with
    | none => exact ⟨fun h => ⟨rfl, (Except.error.inj h).symm⟩, fun h => h.2 ▸ rfl⟩
    | some strategy =>
      constructor
      · intro h
        cases h
      · rintro ⟨h, -⟩
        cases h

theorem unknownKeys_mapping (options : List (String × Plain)) :
    unknownKeys (options.map fun e => (.text e.1, e.2)) = (unrecognised options).map .text := by
  have same : ∀ name, (!names.any fun other => (Plain.text name).sameKey (.text other))
      = decide (name ∉ names) := by
    intro name
    rw [← Bool.decide_coe (names.any _), ← decide_not]
    refine decide_eq_decide.2 (not_congr ?_)
    simp [Plain.sameKey]
  rw [unknownKeys, unrecognised, List.filter_map, List.filter_map, List.map_map, List.map_map]
  simp only [Function.comp_def, same]

theorem unrecognised_eq_nil_iff : unrecognised options = [] ↔ ∀ e ∈ options, e.1 ∈ names := by
  simp [unrecognised]

theorem checkNames_eq_ok_iff {passed : Unit} :
    checkNames (options.map fun e => (.text e.1, e.2)) = .ok passed
      ↔ unrecognised options = [] := by
  rw [checkNames, unknownKeys_mapping]
  cases unrecognised options with
  | nil => exact ⟨fun _ => rfl, fun _ => rfl⟩
  | cons name rest =>
    refine ⟨fun h => ?_, nofun⟩
    obtain ⟨keys, -, hwrite⟩ := bind_eq_ok_iff.1 h
    obtain ⟨shown, -, hthrow⟩ := bind_eq_ok_iff.1 hwrite
    cases hthrow

theorem checkNames_eq_error_iff :
    checkNames (options.map fun e => (.text e.1, e.2)) = .error fault ↔
      ∃ unknown, unknown ≠ [] ∧ unknown.Perm (unrecognised options) ∧ Ascending unknown ∧
        fault = .unknownOptions (unknown.map Text.quoted) := by
  rw [checkNames, unknownKeys_mapping]
  cases hu : unrecognised options with
  | nil =>
    refine ⟨nofun, ?_⟩
    rintro ⟨unknown, hne, hperm, -⟩
    exact absurd hperm.eq_nil hne
  | cons name rest =>
    have hsorted := Text.sorted_ascending (name :: rest)
    have hperm : (Text.sorted (name :: rest)).Perm (name :: rest) := List.mergeSort_perm _ _
    have hthrown : (do
        let sorted ← Plain.sortedKeys ((name :: rest).map .text)
        let shown ← sorted.mapM Plain.shown
        throw (.unknownOptions shown) : Except Fault Unit)
          = .error (.unknownOptions ((Text.sorted (name :: rest)).map Text.quoted)) := by
      rw [Plain.sortedKeys_texts, bind_eq_error_iff]
      refine .inr ⟨_, rfl, bind_eq_error_iff.2 (.inr ⟨_, Plain.mapM_shown_texts _, rfl⟩)⟩
    constructor
    · intro h
      have hfault := Except.error.inj (h.symm.trans hthrown)
      refine ⟨Text.sorted (name :: rest), ?_, hperm, hsorted, hfault⟩
      intro hnil
      rw [hnil] at hperm
      exact absurd hperm.symm.eq_nil nofun
    · rintro ⟨unknown, -, hperm', hascending, rfl⟩
      rw [hascending.unique hsorted (hperm'.trans hperm.symm)]
      exact hthrown

theorem readFixing_eq_ok_iff {pair : Plain × Plain} {e : Int × Float} :
    readFixing pair = .ok e ↔ PairOf pair e := by
  simp only [readFixing, bind_eq_ok_iff, PairOf]
  constructor
  · rintro ⟨k, hk, v, hv, heq⟩
    obtain rfl := Except.ok.inj heq
    exact ⟨hk, hv⟩
  · rintro ⟨hk, hv⟩
    exact ⟨e.1, hk, e.2, hv, rfl⟩

theorem readFixing_eq_error_iff {pair : Plain × Plain} :
    readFixing pair = .error fault ↔ pair.1.toInteger = .error fault ∨
      ∃ k, pair.1.toInteger = .ok k ∧ pair.2.toFloat = .error fault := by
  simp only [readFixing, bind_eq_error_iff]
  refine or_congr_right (exists_congr fun k => and_congr_right fun _ => ?_)
  refine ⟨fun h => h.resolve_right ?_, .inl⟩
  rintro ⟨v, -, heq⟩
  cases heq

def collect (value : Plain) : Except Fault (Fixings Float) := do
  let pairs ← value.toPairs
  let read ← pairs.mapM readFixing
  pure (Fixings.ofList read)

theorem readFixed_eq (options : List (String × Plain)) : readFixed (given fixedName options)
    = (givenFixed options).elim (.ok Fixings.empty) collect := by
  unfold givenFixed
  cases given fixedName options with
  | none => rfl
  | some value =>
    rw [readFixed, Option.filter_some]
    cases value.isEmpty <;> rfl

theorem readFixed_eq_ok_iff {fixed : Fixings Float} :
    readFixed (given fixedName options) = .ok fixed ↔
      (givenFixed options).elim (fixed = Fixings.empty) fun value =>
        ∃ pairs read, value.toPairs = .ok pairs ∧ List.Forall₂ PairOf pairs read ∧
          fixed = Fixings.ofList read := by
  rw [readFixed_eq, elim_eq_ok_iff]
  cases givenFixed options with
  | none => rfl
  | some value =>
    simp only [Option.elim_some, collect, bind_eq_ok_iff, mapM_eq_ok_iff, readFixing_eq_ok_iff]
    constructor
    · rintro ⟨pairs, hpairs, read, hread, heq⟩
      exact ⟨pairs, read, hpairs, hread, (Except.ok.inj heq).symm⟩
    · rintro ⟨pairs, read, hpairs, hread, rfl⟩
      exact ⟨pairs, hpairs, read, hread, rfl⟩

theorem readFixed_eq_error_iff :
    readFixed (given fixedName options) = .error fault ↔
      ∃ value, givenFixed options = some value ∧ (value.toPairs = .error fault ∨
        ∃ before pair after, value.toPairs = .ok (before ++ pair :: after) ∧
          (∀ p ∈ before, ∃ e, PairOf p e) ∧ readFixing pair = .error fault) := by
  rw [readFixed_eq, elim_eq_error_iff]
  refine exists_congr fun value => and_congr_right fun _ => ?_
  simp only [collect, bind_eq_error_iff, mapM_eq_error_iff, readFixing_eq_ok_iff]
  refine or_congr_right ⟨?_, ?_⟩
  · rintro ⟨pairs, hpairs, ⟨before, pair, after, rfl, hbefore, hpair⟩ | ⟨_, _, heq⟩⟩
    · exact ⟨before, pair, after, hpairs, hbefore, hpair⟩
    · cases heq
  · rintro ⟨before, pair, after, hpairs, hbefore, hpair⟩
    exact ⟨_, hpairs, .inl ⟨before, pair, after, rfl, hbefore, hpair⟩⟩

theorem ofPlain_mapping (options : List (String × Plain)) : ofPlain (mapping options) = (do
    let strategy ← readStrategy (given strategyName options)
    let maxTime ← (given maxTimeName options).elim (.ok default.maxTime) Plain.toFloat
    let seed ← (given seedName options).elim (.ok default.seed) Plain.toInteger
    checkNames (options.map fun e => (.text e.1, e.2))
    let fixed ← readFixed (given fixedName options)
    pure ⟨fixed, strategy, maxTime, seed⟩) := by
  simp only [← get?_mapping]
  rfl

theorem ofPlain_eq_ok_iff {read : Options Float} : ofPlain (mapping options) = .ok read ↔
    StrategyOf options read.strategy ∧ TimeOf options read.maxTime ∧ SeedOf options read.seed ∧
      unrecognised options = [] ∧ readFixed (given fixedName options) = .ok read.fixed := by
  simp only [ofPlain_mapping, bind_eq_ok_iff, readStrategy_eq_ok_iff, elim_eq_ok_iff,
    checkNames_eq_ok_iff]
  constructor
  · rintro ⟨strategy, hs, x, hx, k, hk, _, hnames, fixed, hfixed, heq⟩
    obtain rfl := Except.ok.inj heq
    exact ⟨hs, hx, hk, hnames, hfixed⟩
  · rintro ⟨hs, hx, hk, hnames, hfixed⟩
    exact ⟨_, hs, _, hx, _, hk, (), hnames, _, hfixed, rfl⟩

/-- Once strategy, time limit and seed are read, names and fixed variables are left. -/
theorem ofPlain_of_begun (begun : Begun options) : ∃ strategy maxTime seed,
    ofPlain (mapping options) = (do
      checkNames (options.map fun e => (.text e.1, e.2))
      let fixed ← readFixed (given fixedName options)
      pure ⟨fixed, strategy, maxTime, seed⟩) := by
  obtain ⟨⟨strategy, hs⟩, ⟨maxTime, hx⟩, ⟨seed, hk⟩⟩ := begun
  refine ⟨strategy, maxTime, seed, ?_⟩
  rw [ofPlain_mapping, readStrategy_eq_ok_iff.2 hs, elim_eq_ok_iff.2 hx, elim_eq_ok_iff.2 hk]
  rfl

theorem ofPlain_of_fixed_error (begun : Begun options) (recognised : unrecognised options = [])
    (h : readFixed (given fixedName options) = .error fault) :
    ofPlain (mapping options) = .error fault := by
  obtain ⟨strategy, maxTime, seed, hrun⟩ := ofPlain_of_begun begun
  have hnames : checkNames (options.map fun e => (.text e.1, e.2)) = .ok () :=
    checkNames_eq_ok_iff.2 recognised
  rw [hrun, hnames, h]
  rfl

theorem refusal_of_error (h : ofPlain (mapping options) = .error fault) :
    Refusal options fault := by
  simp only [ofPlain_mapping, bind_eq_error_iff, readStrategy_eq_ok_iff, elim_eq_ok_iff,
    readStrategy_eq_error_iff, elim_eq_error_iff, checkNames_eq_ok_iff] at h
  rcases h with ⟨value, hv, hf | ⟨text, htext, hno, rfl⟩⟩ | ⟨strategy, hs, h⟩
  · exact .unwritable hv hf
  · exact .strategy hv htext hno
  rcases h with ⟨value, hv, hf⟩ | ⟨maxTime, hx, h⟩
  · exact .maxTime ⟨strategy, hs⟩ hv hf
  rcases h with ⟨value, hv, hf⟩ | ⟨seed, hk, h⟩
  · exact .seed ⟨strategy, hs⟩ ⟨maxTime, hx⟩ hv hf
  have begun : Begun options := ⟨⟨strategy, hs⟩, ⟨maxTime, hx⟩, ⟨seed, hk⟩⟩
  rcases h with hf | ⟨_, recognised, h⟩
  · obtain ⟨unknown, hne, hperm, hascending, rfl⟩ := checkNames_eq_error_iff.1 hf
    exact .names begun hne hperm hascending
  rcases h with hf | ⟨_, _, hpure⟩
  · obtain ⟨value, hv, hf | ⟨before, pair, after, hpairs, hbefore, hpair⟩⟩ :=
      readFixed_eq_error_iff.1 hf
    · exact .pairs begun recognised hv hf
    · rcases readFixing_eq_error_iff.1 hpair with hf | ⟨k, hkey, hf⟩
      · exact .key begun recognised hv hpairs hbefore hf
      · exact .value begun recognised hv hpairs hbefore hkey hf
  · cases hpure

theorem error_of_refusal (h : Refusal options fault) :
    ofPlain (mapping options) = .error fault := by
  cases h with
  | unwritable hv hf =>
    rw [ofPlain_mapping, readStrategy_eq_error_iff.2 ⟨_, hv, .inl hf⟩]
    rfl
  | strategy hv htext hno =>
    rw [ofPlain_mapping, readStrategy_eq_error_iff.2 ⟨_, hv, .inr ⟨_, htext, hno, rfl⟩⟩]
    rfl
  | maxTime hs hv hf =>
    obtain ⟨strategy, hs⟩ := hs
    rw [ofPlain_mapping, readStrategy_eq_ok_iff.2 hs, elim_eq_error_iff.2 ⟨_, hv, hf⟩]
    rfl
  | seed hs hx hv hf =>
    obtain ⟨strategy, hs⟩ := hs
    obtain ⟨maxTime, hx⟩ := hx
    rw [ofPlain_mapping, readStrategy_eq_ok_iff.2 hs, elim_eq_ok_iff.2 hx,
      elim_eq_error_iff.2 ⟨_, hv, hf⟩]
    rfl
  | names begun hne hperm hascending =>
    obtain ⟨strategy, maxTime, seed, hrun⟩ := ofPlain_of_begun begun
    rw [hrun, checkNames_eq_error_iff.2 ⟨_, hne, hperm, hascending, rfl⟩]
    rfl
  | pairs begun recognised hv hf =>
    exact ofPlain_of_fixed_error begun recognised (readFixed_eq_error_iff.2 ⟨_, hv, .inl hf⟩)
  | key begun recognised hv hpairs hbefore hf =>
    exact ofPlain_of_fixed_error begun recognised (readFixed_eq_error_iff.2
      ⟨_, hv, .inr ⟨_, _, _, hpairs, hbefore, readFixing_eq_error_iff.2 (.inl hf)⟩⟩)
  | value begun recognised hv hpairs hbefore hkey hf =>
    exact ofPlain_of_fixed_error begun recognised (readFixed_eq_error_iff.2
      ⟨_, hv, .inr ⟨_, _, _, hpairs, hbefore, readFixing_eq_error_iff.2 (.inr ⟨_, hkey, hf⟩)⟩⟩)

theorem exists_pairs_iff {pairs : List (Plain × Plain)} :
    (∃ read, List.Forall₂ PairOf pairs read) ↔
      ∀ pair ∈ pairs, (∃ k, pair.1.toInteger = .ok k) ∧ ∃ v, pair.2.toFloat = .ok v := by
  induction pairs with
  | nil => exact ⟨fun _ => nofun, fun _ => ⟨[], .nil⟩⟩
  | cons pair pairs ih =>
    rw [List.forall_mem_cons, ← ih]
    constructor
    · rintro ⟨_, _ | ⟨⟨hk, hv⟩, hrest⟩⟩
      exact ⟨⟨⟨_, hk⟩, ⟨_, hv⟩⟩, ⟨_, hrest⟩⟩
    · rintro ⟨⟨⟨k, hk⟩, ⟨v, hv⟩⟩, ⟨read, hread⟩⟩
      exact ⟨(k, v) :: read, .cons ⟨hk, hv⟩ hread⟩

/-- Options are read when no step fails. -/
theorem returns_iff_admitted :
    (∃ read, ofPlain (mapping options) = .ok read) ↔ Admitted options := by
  simp only [ofPlain_eq_ok_iff, readFixed_eq_ok_iff, unrecognised_eq_nil_iff]
  constructor
  · rintro ⟨read, hs, hx, hk, recognised, hfixed⟩
    refine ⟨⟨⟨_, hs⟩, ⟨_, hx⟩, ⟨_, hk⟩⟩, recognised, fun value hv => ?_⟩
    rw [hv] at hfixed
    obtain ⟨pairs, entries, hpairs, hentries, -⟩ := hfixed
    exact ⟨pairs, hpairs, exists_pairs_iff.1 ⟨entries, hentries⟩⟩
  · rintro ⟨⟨⟨s, hs⟩, ⟨x, hx⟩, ⟨k, hk⟩⟩, recognised, hfixed⟩
    cases hv : givenFixed options with
    | none => exact ⟨⟨Fixings.empty, s, x, k⟩, hs, hx, hk, recognised, rfl⟩
    | some value =>
      obtain ⟨pairs, hpairs, hreadable⟩ := hfixed value hv
      obtain ⟨entries, hentries⟩ := exists_pairs_iff.2 hreadable
      exact ⟨⟨.ofList entries, s, x, k⟩, hs, hx, hk, recognised, pairs, entries, hpairs,
        hentries, rfl⟩

theorem normal_of_ok {read : Options Float} (h : ofPlain (mapping options) = .ok read) :
    Normal options read := by
  obtain ⟨hs, hx, hk, -, hfixed⟩ := ofPlain_eq_ok_iff.1 h
  refine ⟨hs, hx, hk, ?_⟩
  rw [readFixed_eq_ok_iff] at hfixed
  unfold FixedOf
  cases hv : givenFixed options with
  | none =>
    rw [hv] at hfixed
    exact hfixed
  | some value =>
    rw [hv] at hfixed
    obtain ⟨pairs, entries, hpairs, hentries, heq⟩ := hfixed
    refine ⟨pairs, entries, hpairs, hentries, ?_⟩
    rw [heq]
    exact ⟨Fixings.indices_ofList entries, Fixings.get?_ofList entries⟩

end Steps

/-- **Options are read step by step.** From a map with names for keys they are read exactly when
each step passes, and otherwise the first that fails says why: the strategy, the time limit, the
seed, the names that no option has, all of them in order, the pairs of the fixed variables, and then
the pairs one after another, the index before its value. Of several pairs with one index the first
gives the place and the last the value. -/
theorem options_read (options : List (String × Plain)) :
    ((∃ read, ofPlain (mapping options) = .ok read) ↔ Admitted options) ∧
    (∀ fault, ofPlain (mapping options) = .error fault ↔ Refusal options fault) ∧
    ∀ read, ofPlain (mapping options) = .ok read → Normal options read :=
  ⟨returns_iff_admitted, fun _ => ⟨refusal_of_error, error_of_refusal⟩, fun _ => normal_of_ok⟩

/-- Two spellings of one index around another index, and a seed as a text. -/
def collidingOptions : List (String × Plain) :=
  [("fixed_variables", .map [(.text "0", .integer 1), (.float 7.5, .bool true),
    (.text " +0_0", .text "5e-1")]), ("seed", .text "17")]

theorem options_read_colliding : ∃ read, ofPlain (mapping collidingOptions) = .ok read ∧
    Normal collidingOptions read ∧ read.fixed.indices = [0, 7] ∧ read.fixed.get? 0 = some 0.5 := by
  obtain ⟨-, -, normal⟩ := options_read collidingOptions
  have collected : (ofPlain (mapping collidingOptions)).toOption.map
      (fun read => (read.fixed.indices, read.fixed.get? 0)) = some ([0, 7], some 0.5) := by
    decide +kernel
  cases h : ofPlain (mapping collidingOptions) with
  | error fault =>
    rw [h] at collected
    cases collected
  | ok read =>
    rw [h] at collected
    obtain ⟨hindices, hvalue⟩ := Prod.mk.inj (Option.some.inj collected)
    exact ⟨read, rfl, normal read h, hindices, hvalue⟩

end Options

end BinaryQuadratic
