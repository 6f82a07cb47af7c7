import BinaryQuadratic.Text.Blank
import BinaryQuadratic.Text.Digit

/-!
# Reading decimal numbers

* `readInteger`: blanks, a sign, digits of any script, single underscores between digits;
* `readFloat`: the same for a number with a fraction and an exponent, and the words for infinity
  and for what is not a number in any case of letters;
* `nearestFloat`: the double nearest to `m · 10^e`, a tie going to the even one.
-/

namespace BinaryQuadratic.Decimal

open Text

inductive IntegerFlaw
  | malformed
  | tooLong (digits : Nat)
  deriving DecidableEq, Repr

/-- The most digits an integer may be written with. -/
def digitLimit : Nat := 4300

/-- The value of a list of ASCII digits, the most significant one first. -/
def value (digits : List Char) : Nat :=
  digits.foldl (fun n c => 10 * n + (c.toNat - '0'.toNat)) 0

/-- A sign in front, and whether it is a minus. -/
def splitSign : List Char → Bool × List Char
  | '-' :: rest => (true, rest)
  | '+' :: rest => (false, rest)
  | unsigned => (false, unsigned)

/-- Takes out the underscores, each of which must stand between two digits. -/
def ungroup (afterDigit : Bool) : List Char → Option (List Char)
  | [] => some []
  | c :: rest =>
    if c = '_' then
      if afterDigit && rest.head?.any isDigit then ungroup false rest else none
    else (ungroup (isDigit c) rest).map (c :: ·)

def isIntegral (c : Char) : Bool := isDigit c || c = '_'

/-- The integer without its sign; nothing may follow the digits. -/
def readMagnitude (cs : List Char) : Except IntegerFlaw Nat :=
  match ungroup false (cs.takeWhile isIntegral) with
  | none => .error .malformed
  | some digits =>
    if digitLimit < digits.length then .error (.tooLong digits.length)
    else if digits.isEmpty || !(cs.dropWhile isIntegral).isEmpty then .error .malformed
    else .ok (value digits)

def readInteger (s : String) : Except IntegerFlaw Int :=
  let (minus, body) := splitSign ((trim s.toList).map westernize)
  (readMagnitude body).map fun n => if minus then -(n : Int) else n

/-- The double nearest to `m · 10^e`. Far outside the range of doubles only the size of the
exponent decides. -/
def nearestFloat (m : Nat) (e : Int) : Float :=
  let magnitude := (Nat.toDigits 10 m).length + e
  if m = 0 || magnitude < -400 then 0
  else if 400 < magnitude then Float.ofScientific 1 false 400
  else Float.ofScientific m (e < 0) e.natAbs

/-- The exponent after its letter: nothing, or a letter, a sign and at least one digit. -/
def readExponent : List Char → Option Int
  | [] => some 0
  | c :: rest =>
    let (minus, digits) := splitSign rest
    if (c = 'e' || c = 'E') && !digits.isEmpty && digits.all isDigit then
      some (if minus then -(value digits : Int) else value digits)
    else none

/-- Digits with at most one point among or beside them, then the exponent. -/
def readUnsigned (cs : List Char) : Option Float :=
  let whole := cs.takeWhile isDigit
  let afterWhole := cs.dropWhile isDigit
  let afterPoint := if afterWhole.head? = some '.' then afterWhole.tail else []
  let fraction := afterPoint.takeWhile isDigit
  let exponent :=
    if afterWhole.head? = some '.' then afterPoint.dropWhile isDigit else afterWhole
  if whole.isEmpty && fraction.isEmpty then none
  else (readExponent exponent).map fun e =>
    nearestFloat (value (whole ++ fraction)) (e - fraction.length)

/-- The words for a double that is no finite number. -/
def readWord (cs : List Char) : Option Float :=
  let word := String.ofList (cs.map Char.toLower)
  if word = "inf" || word = "infinity" then some (Float.ofScientific 1 false 400)
  else if word = "nan" then some (0 / 0)
  else none

def readFloat (s : String) : Option Float :=
  match ungroup false ((trim s.toList).map westernize) with
  | none => none
  | some cs =>
    let (minus, body) := splitSign cs
    ((readWord body).orElse fun _ => readUnsigned body).map fun x => if minus then -x else x

end BinaryQuadratic.Decimal
