import BinaryQuadratic.Node
import BinaryQuadratic.Quadratic
import BinaryQuadratic.Random.Generator

/-!
# Starting points

Points at which a relaxation can start.

* `central`: one half for every variable;
* `ofAlpha`, `ofRho`: a form's best common value for every variable;
* `fractional`, `fractionalPoints`: uniform in `[0, 1)`, one draw for each variable;
* `binary`, `binaryPoints`: one draw for each variable, which is set when the draw lies below the
  density;
* `Drawing`: a request that draws, with the generator that it leaves behind in either case;
* `Draw.run`, `Draw.runAll`: any of these from a form and a generator, with what is left behind.
-/

namespace BinaryQuadratic.StartingPoint

open BinaryQuadratic.Random (Generator)

variable {α : Type} [Scalar α]

def checkCount (count : Int) : Except Fault Nat :=
  if count < 0 then .error ((Plain.integer count).refusal .negativeCount) else .ok count.toNat

/-- The number of points from plain data: a number, which is first refused below zero and then where
it is not whole. -/
def readCount (value : Plain) : Except Fault Int :=
  match value.operand? with
  | some (.inl count) => .ok count
  | some (.inr x) =>
    .error (if x < 0 then value.refusal .negativeCount else .notCount value.kind)
  | none => .error (.incomparable "<" value.kind (Plain.integer 0).kind)

def central (n : Nat) : List α := List.replicate n Scalar.half

def ofAlpha (f : Quadratic α) : List α := List.replicate f.size f.alpha

def ofRho (f : Quadratic α) : List α := List.replicate f.size f.rho

/-- A share of set variables, and how it was written. -/
structure Density (α : Type) where
  value : α
  shown : String
  deriving DecidableEq, Repr

/-- The share lies in `[0, 1]`; one that is not a number does not. -/
def Density.IsShare (d : Density α) : Prop := 0 ≤ d.value ∧ d.value ≤ 1

instance (d : Density α) : Decidable d.IsShare := inferInstanceAs (Decidable (_ ∧ _))

/-- A share from plain data, which must be a number; one beyond all doubles is no share. An integer
that cannot be written is none either, and is refused at once. -/
def Density.ofPlain (value : Plain) : Except Fault (Density Float) :=
  match value with
  | .bool _ | .integer _ | .float _ => do
    let shown ← value.shown
    pure ⟨value.toFloat.toOption.getD (0 / 0), shown⟩
  | other => .error (.incomparable "<=" (Plain.float 0).kind other.kind)

def evenDensity : Density α := ⟨Scalar.half, "0.5"⟩

/-- Points drawn from a generator, which stays behind also where they are refused. -/
abbrev Drawing (β : Type) : Type := ExceptT Fault (StateM Generator) β

def fractional (n : Nat) (g : Generator) : List α × Generator := g.units n

/-- A point whose variables are drawn one after another, each set where its draw lies below the
level. -/
def binary (level : α) : Nat → Generator → List Bool × Generator
  | 0, g => ([], g)
  | n + 1, g =>
    let (u, g) : α × Generator := g.unit
    let (rest, g) := binary level n g
    (decide (u < level) :: rest, g)

def repeated {β : Type} (make : Generator → β × Generator) : Nat → Generator → List β × Generator
  | 0, g => ([], g)
  | count + 1, g =>
    let (point, g) := make g
    let (rest, g) := repeated make count g
    (point :: rest, g)

/-- The size counts only where a point is made. -/
def points {β : Type} (make : Nat → Generator → β × Generator) (n count : Int) :
    Drawing (List β) := do
  let count ← checkCount count
  if count = 0 then pure []
  else do
    let n ← checkSize n
    ExceptT.lift (repeated (make n) count)

def fractionalPoints (n count : Int) : Drawing (List (List α)) := points fractional n count

/-- A binary point at a density, which is checked before anything is drawn. -/
def binaryPoint (n : Int) (density : Density α) : Drawing (List Bool) := do
  if density.IsShare then do
    let n ← checkSize n
    ExceptT.lift (binary density.value n)
  else throw (.sparsityRange density.shown)

def binaryPoints (α : Type) [Scalar α] (n count : Int) : Drawing (List (List Bool)) :=
  points (binary (evenDensity (α := α)).value) n count

/-- A request for starting points, sizes and counts as they are given. -/
inductive Draw (α : Type)
  | central (n : Plain)
  | alpha
  | rho
  | fractional (n count : Plain)
  | binary (n : Plain) (density : Density α)
  | binaries (n count : Plain)
  /-- A request that cannot be read. -/
  | refused (fault : Fault)

inductive Drawn (α : Type)
  | point (x : List α)
  | points (xs : List (List α))
  | bits (x : List Bool)
  | bitPoints (xs : List (List Bool))
  deriving DecidableEq, Repr

/-- A size and a count; the size is only looked at where a point is made. -/
def readExtents (n count : Plain) : Except Fault (Int × Int) := do
  let count ← readCount count
  let n ← if 0 < count then readSize n else pure 0
  pure (n, count)

/-- The requested points, and the form and the generator left behind. Taking `alpha` merges the
repeated entries of the form. -/
def Draw.run (f : Quadratic α) (g : Generator) :
    Draw α → Except Fault (Drawn α) × Quadratic α × Generator
  | .central n =>
    (do
      let n ← readSize n
      let n ← checkSize n
      pure (.point (StartingPoint.central n)), f, g)
  | .alpha => (.ok (.point (ofAlpha f)), f.merged, g)
  | .rho => (.ok (.point (ofRho f)), f, g)
  | .fractional n count =>
    match readExtents n count with
    | .ok (n, count) =>
      let (xs, g) := fractionalPoints n count g
      (xs.map .points, f, g)
    | .error fault => (.error fault, f, g)
  | .binary n density =>
    if density.IsShare then
      match readSize n with
      | .ok n =>
        let (x, g) := binaryPoint n density g
        (x.map .bits, f, g)
      | .error fault => (.error fault, f, g)
    else (.error (.sparsityRange density.shown), f, g)
  | .binaries n count =>
    match readExtents n count with
    | .ok (n, count) =>
      let (xs, g) := StartingPoint.binaryPoints α n count g
      (xs.map .bitPoints, f, g)
    | .error fault => (.error fault, f, g)
  | .refused fault => (.error fault, f, g)

/-- The points of several requests, drawn one after another from what those before leave behind. -/
def Draw.runAll (f : Quadratic α) (g : Generator) :
    List (Draw α) → List (Except Fault (Drawn α))
  | [] => []
  | draw :: rest =>
    let (drawn, f, g) := draw.run f g
    drawn :: runAll f g rest

end BinaryQuadratic.StartingPoint
