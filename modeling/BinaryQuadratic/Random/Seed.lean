import BinaryQuadratic.Hexadecimal
import BinaryQuadratic.Plain
import BinaryQuadratic.Random.Generator

/-!
# Seeds

A seed is a whole number that is not negative, or a list of such. In a list numbers may also be
written as texts, in decimal or behind `0x` in hexadecimal, and lists may stand in one another.

* `Seed.words`: the 32-bit words of a value in a list;
* `Seed.generator`: the generator of a seed as it is given.
-/

namespace BinaryQuadratic.Seed

def ofInteger (i : Int) : Except Fault (List UInt32) :=
  if i < 0 then .error .negativeSeed else .ok (Random.words i.toNat)

def ofText (s : String) : Except Fault (List UInt32) :=
  match s.toList with
  | '0' :: 'x' :: _ =>
    match Hexadecimal.read? s with
    | some n => .ok (Random.words n)
    | none => .error (.notInteger 16 (Plain.excerpt s))
  | c :: _ =>
    if Text.isDigit c then do
      let i ← (Plain.text s).toInteger
      ofInteger i
    else .error .unknownSeedText
  | [] => .error .unknownSeedText

def ofTexts : List (Plain × Plain) → Except Fault (List UInt32)
  | [] => .ok []
  | (key, _) :: rest => do
    let text ← key.asText
    let first ← ofText text
    let later ← ofTexts rest
    pure (first ++ later)

/-- The words of a value in a list; a list has those of all its items, a map those of its keys. -/
def words : Plain → Except Fault (List UInt32)
  | .bool b => .ok (Random.words (if b then 1 else 0))
  | .integer i => ofInteger i
  | .float _ => .error .fractionalSeed
  | .text s => ofText s
  | .list items => ofItems items
  | .map pairs => ofTexts pairs
  | .null => .error (.unsizedSeed Plain.null.kind)
where
  /-- The words of all items, one after another. -/
  ofItems : List Plain → Except Fault (List UInt32)
    | [] => .ok []
    | item :: rest => do
      let first ← words item
      let later ← ofItems rest
      pure (first ++ later)

def generator (seed : Plain) : Except Fault Random.Generator :=
  match seed with
  | .bool _ | .integer _ | .list _ => (words seed).map Random.Generator.ofWords
  | other => do
    let text ← other.asText
    throw (.unusableSeed text)

end BinaryQuadratic.Seed
