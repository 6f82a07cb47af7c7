import BinaryQuadratic.Sparse.LineOrder
import BinaryQuadratic.Summation

/-!
# Sparse matrices

A matrix is kept line by line, each line a list of (position, value) entries in storage order.
Entries may be unsorted, repeated or zero; a repeated position stands for the sum.

The same type serves rows and columns: read by rows, the lines of `regroup` are the columns.

* `Sparse.regroup`: walks the entries in storage order and appends each to the line of its
  position, so within a new line the order is that of the old lines;
* `Sparse.merged`: each line sorted by position, repeated positions added up in order;
* `Sparse.times`, `Sparse.timesTransposed`, `Sparse.diagonal`, `Sparse.cell`: the readings of the
  matrix, each in its own order of addition.
-/

namespace BinaryQuadratic

/-- Lines of entries; every position lies below `width`. -/
structure Sparse (α : Type) where
  width : Nat
  lines : List (List (Nat × α))
  bounded : ∀ line ∈ lines, ∀ entry ∈ line, entry.1 < width
  deriving DecidableEq

structure Entry (α : Type) where
  line : Nat
  position : Nat
  value : α
  deriving DecidableEq, Repr

namespace Sparse

variable {α : Type}

def height (m : Sparse α) : Nat := m.lines.length

/-- The entries of one line, none beyond the last line. -/
def line (m : Sparse α) (i : Nat) : List (Nat × α) := m.lines.getD i []

/-- The entries of the lines, the first of which has number `first`. -/
def number (first : Nat) : List (List (Nat × α)) → List (Entry α)
  | [] => []
  | line :: rest => line.map (fun e => ⟨first, e.1, e.2⟩) ++ number (first + 1) rest

/-- All entries in storage order. -/
def entries (m : Sparse α) : List (Entry α) := number 0 m.lines

def values (m : Sparse α) : List α := m.lines.flatten.map Prod.snd

def positions (m : Sparse α) : List Nat := m.lines.flatten.map Prod.fst

/-- Where each line starts among the stored values, and at the end how many there are. -/
def offsets (m : Sparse α) : List Nat :=
  m.lines.scanl (fun start line => start + line.length) 0

def empty (height width : Nat) : Sparse α where
  width := width
  lines := List.replicate height []
  bounded := by
    intro line hline entry hentry
    obtain rfl := List.eq_of_mem_replicate hline
    exact absurd hentry List.not_mem_nil

def append (lines : List (List (Nat × α))) (e : Entry α) : List (List (Nat × α)) :=
  lines.modify e.position (· ++ [(e.line, e.value)])

theorem number_line_lt {first : Nat} {lines : List (List (Nat × α))} {e : Entry α}
    (h : e ∈ number first lines) : e.line < first + lines.length := by
  induction lines generalizing first with
  | nil => simp [number] at h
  | cons line rest ih =>
    simp only [number, List.mem_append, List.mem_map] at h
    rcases h with ⟨_, _, rfl⟩ | h
    · simp
    · have := ih h
      simp only [List.length_cons]
      omega

theorem entries_line_lt {m : Sparse α} {e : Entry α} (h : e ∈ m.entries) : e.line < m.height := by
  simpa [height] using number_line_lt h

theorem length_append (lines : List (List (Nat × α))) (e : Entry α) :
    (append lines e).length = lines.length := by
  simp [append]

theorem length_foldl_append (lines : List (List (Nat × α))) (es : List (Entry α)) :
    (es.foldl append lines).length = lines.length := by
  induction es generalizing lines with
  | nil => rfl
  | cons e es ih => rw [List.foldl_cons, ih, length_append]

theorem bounded_append {bound : Nat} {lines : List (List (Nat × α))} {e : Entry α}
    (h : ∀ line ∈ lines, ∀ entry ∈ line, entry.1 < bound) (he : e.line < bound) :
    ∀ line ∈ append lines e, ∀ entry ∈ line, entry.1 < bound := by
  intro line hline entry hentry
  obtain ⟨i, hi, rfl⟩ := List.mem_iff_getElem.1 hline
  rw [length_append] at hi
  simp only [append, List.getElem_modify] at hentry
  split at hentry
  · rcases List.mem_append.1 hentry with hold | hnew
    · exact h _ (List.getElem_mem hi) _ hold
    · obtain rfl := List.mem_singleton.1 hnew
      exact he
  · exact h _ (List.getElem_mem hi) _ hentry

theorem bounded_foldl_append {bound : Nat} {lines : List (List (Nat × α))} {es : List (Entry α)}
    (h : ∀ line ∈ lines, ∀ entry ∈ line, entry.1 < bound) (hes : ∀ e ∈ es, e.line < bound) :
    ∀ line ∈ es.foldl append lines, ∀ entry ∈ line, entry.1 < bound := by
  induction es generalizing lines with
  | nil => exact h
  | cons e es ih =>
    exact ih (bounded_append h (hes e List.mem_cons_self))
      fun e' he' => hes e' (List.mem_cons_of_mem _ he')

/-- The same matrix by its other lines: columns for rows, rows for columns. -/
def regroup (m : Sparse α) : Sparse α where
  width := m.height
  lines := m.entries.foldl append (List.replicate m.width [])
  bounded :=
    bounded_foldl_append (empty m.width m.height).bounded fun _ h => entries_line_lt h

theorem regroup_height (m : Sparse α) : m.regroup.height = m.width := by
  simp [height, regroup, length_foldl_append]

/-- The lines with their entries by position: as they are if all of them are so already, else all of
them sorted. -/
def orderedLines (m : Sparse α) : List (List (Nat × α)) :=
  if m.lines.all LineOrder.isSorted then m.lines else m.lines.map LineOrder.sorted

theorem orderedLines_perm {m : Sparse α} {line : List (Nat × α)} (h : line ∈ m.orderedLines) :
    ∃ old ∈ m.lines, line.Perm old := by
  unfold orderedLines at h
  split at h
  · exact ⟨line, h, .refl _⟩
  · obtain ⟨old, hold, rfl⟩ := List.mem_map.1 h
    exact ⟨old, hold, LineOrder.sorted_perm old⟩

theorem length_orderedLines (m : Sparse α) : m.orderedLines.length = m.lines.length := by
  unfold orderedLines
  split <;> simp

variable [Scalar α]

/-- Adds neighbours of one position, from left to right, to the value held for position `j`. -/
def absorb (j : Nat) (v : α) : List (Nat × α) → List (Nat × α)
  | [] => [(j, v)]
  | (k, w) :: rest => if k = j then absorb j (v + w) rest else (j, v) :: absorb k w rest

/-- A line without repeated neighbours. -/
def combine : List (Nat × α) → List (Nat × α)
  | [] => []
  | (j, v) :: rest => absorb j v rest

theorem mem_absorb {j : Nat} {v : α} {line : List (Nat × α)} {e : Nat × α}
    (h : e ∈ absorb j v line) : e.1 = j ∨ ∃ e' ∈ line, e.1 = e'.1 := by
  induction line generalizing j v with
  | nil =>
    obtain rfl := List.mem_singleton.1 h
    exact .inl rfl
  | cons kw rest ih =>
    obtain ⟨k, w⟩ := kw
    unfold absorb at h
    split at h
    · rcases ih h with hj | ⟨e', he', hk⟩
      · exact .inl hj
      · exact .inr ⟨e', List.mem_cons_of_mem _ he', hk⟩
    · rcases List.mem_cons.1 h with rfl | h
      · exact .inl rfl
      · rcases ih h with hk | ⟨e', he', hk⟩
        · exact .inr ⟨(k, w), List.mem_cons_self, hk⟩
        · exact .inr ⟨e', List.mem_cons_of_mem _ he', hk⟩

theorem mem_combine {line : List (Nat × α)} {e : Nat × α} (h : e ∈ combine line) :
    ∃ e' ∈ line, e.1 = e'.1 := by
  cases line with
  | nil => simp [combine] at h
  | cons jv rest =>
    rcases mem_absorb h with hj | ⟨e', he', hk⟩
    · exact ⟨jv, List.mem_cons_self, hj⟩
    · exact ⟨e', List.mem_cons_of_mem _ he', hk⟩

/-- Every line sorted by position and free of repetitions. -/
def merged (m : Sparse α) : Sparse α where
  width := m.width
  lines := m.orderedLines.map combine
  bounded := by
    intro line hline entry hentry
    obtain ⟨ordered, hordered, rfl⟩ := List.mem_map.1 hline
    obtain ⟨e, he, hpos⟩ := mem_combine hentry
    obtain ⟨old, hold, hperm⟩ := orderedLines_perm hordered
    rw [hpos]
    exact m.bounded old hold e (hperm.mem_iff.1 he)

theorem merged_height (m : Sparse α) : m.merged.height = m.height := by
  simp [height, merged, length_orderedLines]

/-- The value of one position of a line: what is stored there, added to zero in order. -/
def entryAt (line : List (Nat × α)) (j : Nat) : α :=
  Summation.running ((line.filter fun e => e.1 = j).map Prod.snd)

def cell (m : Sparse α) (i j : Nat) : α := entryAt (m.line i) j

def dense (m : Sparse α) : List (List α) :=
  m.lines.map fun line => (List.range m.width).map (entryAt line)

/-- The entries on the diagonal, as many as the shorter side is long. -/
def diagonal (m : Sparse α) : List α :=
  (List.range (min m.height m.width)).map fun i => m.cell i i

/-- One line times a vector, added to zero in storage order. -/
def lineTimes (x : List α) (line : List (Nat × α)) : α :=
  Summation.running (line.map fun e => e.2 * x.getD e.1 0)

def times (m : Sparse α) (x : List α) : List α := m.lines.map (lineTimes x)

/-- The transposed matrix times a vector: every entry is added to its column's sum in storage
order. -/
def timesTransposed (m : Sparse α) (x : List α) : List α :=
  m.entries.foldl (fun y e => y.modify e.position (· + e.value * x.getD e.line 0))
    (List.replicate m.width 0)

end Sparse

end BinaryQuadratic
