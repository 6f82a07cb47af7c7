/-!
# Fixed variables

Values fixed by index, in the order in which the indices were first fixed. An index may lie outside
a vector; a negative one counts from its end.

* `Fixings.insert`: an index that is there keeps its place and takes the new value;
* `Fixings.get?`: the value of an index;
* `Fixings.overlay`: writes the values over a vector, in order, and names the first index that does
  not fit;
* `Fixings.unfixed`: the variables whose own index is not there.
-/

namespace BinaryQuadratic

/-- Values by index; no index occurs twice. -/
structure Fixings (α : Type) where
  entries : List (Int × α)
  distinct : (entries.map Prod.fst).Nodup
  deriving DecidableEq, Repr

namespace Fixings

variable {α β : Type}

def empty : Fixings α := ⟨[], List.nodup_nil⟩

def size (f : Fixings α) : Nat := f.entries.length

def indices (f : Fixings α) : List Int := f.entries.map Prod.fst

def contains (f : Fixings α) (k : Int) : Bool := f.indices.contains k

def get? (f : Fixings α) (k : Int) : Option α :=
  (f.entries.find? fun e => e.1 = k).map Prod.snd

/-- Replaces the value of an index, or adds the index at the end. -/
def put (k : Int) (v : α) : List (Int × α) → List (Int × α)
  | [] => [(k, v)]
  | e :: rest => if e.1 = k then (k, v) :: rest else e :: put k v rest

theorem mem_put_fst {k j : Int} {v : α} {entries : List (Int × α)}
    (h : j ∈ (put k v entries).map Prod.fst) : j = k ∨ j ∈ entries.map Prod.fst := by
  induction entries with
  | nil => simpa [put] using h
  | cons e rest ih =>
    unfold put at h
    split at h
    · rename_i he
      rcases List.mem_cons.1 h with hj | hj
      · exact .inl hj
      · exact .inr (List.mem_cons_of_mem _ hj)
    · rcases List.mem_cons.1 h with hj | hj
      · exact .inr (List.mem_cons.2 (.inl hj))
      · rcases ih hj with hk | hr
        · exact .inl hk
        · exact .inr (List.mem_cons_of_mem _ hr)

theorem nodup_put {k : Int} {v : α} {entries : List (Int × α)}
    (h : (entries.map Prod.fst).Nodup) : ((put k v entries).map Prod.fst).Nodup := by
  induction entries with
  | nil => simp [put]
  | cons e rest ih =>
    have hnot : e.1 ∉ rest.map Prod.fst := (List.nodup_cons.1 h).1
    have hrest := (List.nodup_cons.1 h).2
    unfold put
    split
    · rename_i he
      exact List.nodup_cons.2 ⟨he ▸ hnot, hrest⟩
    · rename_i he
      refine List.nodup_cons.2 ⟨fun hin => ?_, ih hrest⟩
      rcases mem_put_fst hin with hk | hr
      · exact he hk
      · exact hnot hr

def insert (f : Fixings α) (k : Int) (v : α) : Fixings α :=
  ⟨put k v f.entries, nodup_put f.distinct⟩

theorem find?_put (k j : Int) (v : α) (entries : List (Int × α)) :
    ((put k v entries).find? fun e => e.1 = j).map Prod.snd
      = if j = k then some v else (entries.find? fun e => e.1 = j).map Prod.snd := by
  induction entries with
  | nil => by_cases h : k = j <;> simp [put, h, eq_comm]
  | cons e rest ih =>
    unfold put
    by_cases he : e.1 = k <;> by_cases hj : j = k <;> by_cases hej : e.1 = j <;> grind

/-- The inserted index has the inserted value, every other index the one it had. -/
theorem get?_insert (f : Fixings α) (k j : Int) (v : α) :
    (f.insert k v).get? j = if j = k then some v else f.get? j :=
  find?_put k j v f.entries

def erase (f : Fixings α) (k : Int) : Fixings α where
  entries := f.entries.filter fun e => e.1 ≠ k
  distinct := f.distinct.sublist (List.filter_sublist.map Prod.fst)

def ofList (pairs : List (Int × α)) : Fixings α :=
  pairs.foldl (fun f e => f.insert e.1 e.2) empty

/-- The place of an index in a vector; a negative index counts from the end. -/
def place (size : Nat) (k : Int) : Option Nat :=
  if 0 ≤ k then if k < size then some k.toNat else none
  else if 0 ≤ k + size then some (k + size).toNat else none

theorem place_lt {size i : Nat} {k : Int} (h : place size k = some i) : i < size := by
  unfold place at h
  split at h <;> split at h <;> grind

/-- Writes values over a vector one after another; fails at the first index without a place. -/
def write (x : List β) : List (Int × β) → Except Int (List β)
  | [] => .ok x
  | (k, v) :: rest =>
    match place x.length k with
    | some i => write (x.set i v) rest
    | none => .error k

theorem length_write {x y : List β} {entries : List (Int × β)} (h : write x entries = .ok y) :
    y.length = x.length := by
  induction entries generalizing x with
  | nil => cases h; rfl
  | cons e rest ih =>
    obtain ⟨k, v⟩ := e
    unfold write at h
    split at h
    · simpa using ih h
    · cases h

/-- The vector with the fixed values, as `image` makes them, in their places. -/
def overlay (f : Fixings α) (image : α → β) (x : List β) : Except Int (List β) :=
  write x (f.entries.map fun e => (e.1, image e.2))

/-- The variables, in ascending order, whose index is not fixed. A negative index fixes none. -/
def unfixed (f : Fixings α) (n : Nat) : List Nat :=
  (List.range n).filter fun i => !f.contains i

theorem mem_unfixed {f : Fixings α} {n i : Nat} :
    i ∈ f.unfixed n ↔ i < n ∧ (i : Int) ∉ f.indices := by
  simp [unfixed, contains]

end Fixings

end BinaryQuadratic
