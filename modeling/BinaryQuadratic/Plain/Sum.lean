import BinaryQuadratic.Plain

/-!
# Sums of plain values

* `Plain.operand?`: a value as a number, exactly where it is whole;
* `Plain.plus`: numbers are added, texts and lists are joined to their like, nothing else has a sum;
* `Plain.successor`: a value and one.
-/

namespace BinaryQuadratic.Plain

def operand? : Plain → Option (Int ⊕ Float)
  | bool b => some (.inl (if b then 1 else 0))
  | integer i => some (.inl i)
  | float x => some (.inr x)
  | _ => none

def toDouble : Int ⊕ Float → Except Fault Float
  | .inl i => nearest i
  | .inr x => .ok x

/-- The sum of two numbers, whole if both are. -/
def add : Int ⊕ Float → Int ⊕ Float → Except Fault Plain
  | .inl i, .inl j => .ok (integer (i + j))
  | a, b => do
    let x ← toDouble a
    let y ← toDouble b
    pure (float (x + y))

def noSum (sign : String) (a b : Plain) : Fault :=
  match a with
  | text _ | list _ => .notConcatenable a.kind b.kind
  | _ => .inoperable sign a.kind b.kind

def plus (a b : Plain) : Except Fault Plain :=
  match a, b with
  | text s, text t => .ok (text (s ++ t))
  | list items, list more => .ok (list (items ++ more))
  | a, b =>
    match a.operand?, b.operand? with
    | some x, some y => add x y
    | _, _ => .error (noSum "+" a b)

/-- A value to which one is added in its place. A list would take further items. -/
def successor (a : Plain) : Except Fault Plain :=
  match a, a.operand? with
  | _, some x => add x (.inl 1)
  | list _, _ => .error (.notIterable (integer 1).kind)
  | a, none => .error (noSum "+=" a (integer 1))

end BinaryQuadratic.Plain
