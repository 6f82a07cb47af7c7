import BinaryQuadratic.Fault
import BinaryQuadratic.Text.Quoted

/-!
# Plain values

Data of unknown shape, as options and nested numbers arrive: null, booleans, integers, doubles,
texts, lists, and maps that keep the order of their keys.

* `Plain.shown`: the written form, texts in quotes; an integer has at most as many digits as one
  that is read;
* `Plain.refusal`: a fault that shows a value;
* `Plain.toInteger`, `Plain.toFloat`: the number a value stands for;
* `Plain.toPairs`: a value read as a map, from a map or from a list of pairs;
* `Plain.sameKey`: numbers are one key when they are equal, whatever their kind.
-/

namespace BinaryQuadratic

inductive Plain
  | null
  | bool (b : Bool)
  | integer (i : Int)
  | float (x : Float)
  | text (s : String)
  | list (items : List Plain)
  | map (pairs : List (Plain × Plain))

namespace Plain

/-- What a value is called in messages. -/
def kind : Plain → String
  | null => "NoneType"
  | bool _ => "bool"
  | integer _ => "int"
  | float _ => "float"
  | text _ => "str"
  | list _ => "list"
  | map _ => "dict"

def writeInteger (i : Int) : Except Fault String :=
  if (Decimal.digits i.natAbs).length ≤ Decimal.digitLimit then .ok (Decimal.integer i)
  else .error .unwritableInteger

mutual

/-- The written form of a value, unless an integer in it has too many digits. -/
def shown : Plain → Except Fault String
  | null => .ok "None"
  | bool b => .ok (if b then "True" else "False")
  | integer i => writeInteger i
  | float x => .ok (Decimal.float x)
  | text s => .ok (Text.quoted s)
  | list items => do
    let parts ← shownItems items
    pure ("[" ++ ", ".intercalate parts ++ "]")
  | map pairs => do
    let parts ← shownPairs pairs
    pure ("\x7b" ++ ", ".intercalate parts ++ "\x7d")

def shownItems : List Plain → Except Fault (List String)
  | [] => .ok []
  | item :: rest => do
    let first ← item.shown
    let others ← shownItems rest
    pure (first :: others)

def shownPairs : List (Plain × Plain) → Except Fault (List String)
  | [] => .ok []
  | pair :: rest => do
    let first ← shownPair pair
    let others ← shownPairs rest
    pure (first :: others)

def shownPair : Plain × Plain → Except Fault String
  | (key, value) => do
    let left ← key.shown
    let right ← value.shown
    pure (left ++ ": " ++ right)

end

/-- A fault that shows a value; where that cannot be written, this is the fault. -/
def refusal (value : Plain) (fault : String → Fault) : Fault :=
  match value.shown with
  | .ok shown => fault shown
  | .error unwritable => unwritable

def isText : Plain → Bool
  | text _ => true
  | _ => false

/-- A text as it is, any other value in its written form. -/
def asText : Plain → Except Fault String
  | text s => .ok s
  | other => other.shown

/-- Null, false, zero and everything empty. -/
def isEmpty : Plain → Bool
  | null => true
  | bool b => !b
  | integer i => i = 0
  | float x => x == 0
  | text s => s.isEmpty
  | list items => items.isEmpty
  | map pairs => pairs.isEmpty

/-- The double nearest to an integer, if it is finite. -/
def nearest (i : Int) : Except Fault Float :=
  let x := Float.ofInt i
  if x.isFinite then .ok x else .error .floatOverflow

/-- The most characters of a text that a message about an integer shows. -/
def shownLimit : Nat := 200

def excerpt (s : String) : String := String.ofList ((Text.quoted s).toList.take shownLimit)

/-- The integer a value stands for: doubles lose their fraction, texts are read in decimal. -/
def toInteger : Plain → Except Fault Int
  | bool b => .ok (if b then 1 else 0)
  | integer i => .ok i
  | float x =>
    match Double.toRational? x with
    | some q => .ok (Int.tdiv q.num q.den)
    | none => .error (if x.isNaN then .undefinedInteger else .infiniteInteger)
  | text s =>
    match Decimal.readInteger s with
    | .ok i => .ok i
    | .error .malformed => .error (.notInteger 10 (excerpt s))
    | .error (.tooLong digits) => .error (.integerTooLong digits)
  | other => .error (.notIntegral other.kind)

/-- The double a value stands for: integers are rounded, texts are read in decimal. -/
def toFloat : Plain → Except Fault Float
  | bool b => .ok (if b then 1 else 0)
  | integer i => nearest i
  | float x => .ok x
  | text s =>
    match Decimal.readFloat s with
    | some x => .ok x
    | none => .error (.notFloat (Text.quoted s))
  | other => .error (.notReal other.kind)

/-- The exact value of a key that is a number. -/
def number? : Plain → Option Rat
  | bool b => some (if b then 1 else 0)
  | integer i => some i
  | float x => Double.toRational? x
  | _ => none

/-- One key for two values: equal numbers, equal texts, or null. -/
def sameKey : Plain → Plain → Bool
  | null, null => true
  | text s, text t => s = t
  | float x, float y => x == y
  | a, b =>
    match a.number?, b.number? with
    | some p, some q => p = q
    | _, _ => false

/-- Puts a value under a key: a key that is there keeps its place and its first form. -/
def put (key value : Plain) : List (Plain × Plain) → List (Plain × Plain)
  | [] => [(key, value)]
  | (k, v) :: rest => if k.sameKey key then (k, value) :: rest else (k, v) :: put key value rest

def get? (name : String) (pairs : List (Plain × Plain)) : Option Plain :=
  (pairs.find? fun pair => pair.1.sameKey (text name)).map Prod.snd

def without (name : String) (pairs : List (Plain × Plain)) : List (Plain × Plain) :=
  pairs.filter fun pair => !pair.1.sameKey (text name)

/-- The items of a value that is a sequence; the characters of a text, the keys of a map. -/
def toItems : Plain → Option (List Plain)
  | text s => some (s.toList.map fun c => text (String.singleton c))
  | list items => some items
  | map pairs => some (pairs.map Prod.fst)
  | _ => none

/-- Lists and maps cannot be keys. -/
def isKey : Plain → Bool
  | list _ => false
  | map _ => false
  | _ => true

def toPair (index : Nat) (item : Plain) : Except Fault (Plain × Plain) :=
  match item.toItems with
  | none => .error (.notPair index)
  | some [key, value] =>
    if key.isKey then .ok (key, value) else .error (.unhashable key.kind)
  | some items => .error (.pairLength index items.length)

/-- Reads pairs one after another into the map collected so far. -/
def collect (index : Nat) (pairs : List (Plain × Plain)) :
    List Plain → Except Fault (List (Plain × Plain))
  | [] => .ok pairs
  | item :: rest =>
    match toPair index item with
    | .ok (key, value) => collect (index + 1) (put key value pairs) rest
    | .error fault => .error fault

/-- A map as it is, a sequence as the list of its pairs. -/
def toPairs (value : Plain) : Except Fault (List (Plain × Plain)) :=
  match value with
  | map pairs => .ok pairs
  | other =>
    match other.toItems with
    | some items => collect 0 [] items
    | none => .error (.notIterable other.kind)

end Plain

end BinaryQuadratic
