import BinaryQuadratic.Plain.Sum

/-!
# Indices and sizes

Indices are integers of 64 bits with a sign, and arrays and lists have eight bytes for each entry.

* `isIndex`: the integers that can be an index;
* `Fault.misplaced`, `Fault.misplacedBound`: why an index has no place in a vector or in a box;
* `readSize`, `checkSize`: how many doubles an array may hold;
* `readLength`, `checkLength`: how many entries a list may have;
* `readIndex`, `readExtent`: an index and an extent as they are given.
-/

namespace BinaryQuadratic

/-- How many indices there are on either side of zero: 2^63. -/
def indexRange : Int := 0x8000000000000000

def isIndex (k : Int) : Bool := -indexRange ≤ k && k < indexRange

namespace Fault

/-- Why an index has no place in a vector: it lies outside, it is an integer of 64 bits without a
sign, or it is no integer of a fixed width at all. -/
def misplaced (k : Int) (size : Nat) : Fault :=
  if isIndex k then .outOfBounds k size
  else if 0 ≤ k && k < 2 * indexRange then .wideIndex
  else .unusableIndex

def misplacedBound (k : Int) : Fault := if isIndex k then .boundIndex else .wideBoundIndex

end Fault

/-- An index from plain data, which has to be one of 64 bits. -/
def readIndex (value : Plain) : Except Fault Int := do
  let k ← value.toInteger
  if isIndex k then pure k else throw .wideIndex

/-- The extent of a matrix from plain data, which has to be whole. -/
def readExtent (value : Plain) : Except Fault Int :=
  match value.operand? with
  | some (.inl n) => .ok n
  | _ => .error (.notCount value.kind)

/-- The size of an array from plain data, which has to be an integer and no truth value. -/
def readSize : Plain → Except Fault Int
  | .integer n => .ok n
  | value => .error (value.refusal .fractionalShape)

/-- The most doubles of an array: eight bytes each have to stay below 2^63. -/
def sizeLimit : Int := 0xFFFFFFFFFFFFFFF

/-- The number of doubles of an array to be made. -/
def checkSize (n : Int) : Except Fault Nat :=
  if !isIndex n then .error .wideSize
  else if n < 0 then .error .negativeSize
  else if sizeLimit < n then .error .largeSize
  else .ok n.toNat

/-- The length of a list from plain data, which has to be whole. -/
def readLength (value : Plain) : Except Fault Int :=
  match value.operand? with
  | some (.inl n) => .ok n
  | _ => .error (.unrepeatable value.kind)

/-- Lists from 2^44 entries on fit no memory. -/
def lengthLimit : Int := 0x100000000000

/-- The number of entries of a list to be made; below zero there are none. -/
def checkLength (n : Int) : Except Fault Nat :=
  if !isIndex n then .error .wideLength
  else if lengthLimit ≤ n then .error .noMemory
  else .ok n.toNat

end BinaryQuadratic
