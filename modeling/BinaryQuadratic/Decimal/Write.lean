import BinaryQuadratic.Double
import BinaryQuadratic.Text.Digit

/-!
# Writing decimal numbers

* `integer`: an integer without superfluous zeros;
* `Magnitude`: a finite positive double as the interval of rationals that round to it;
* `shortest`: the fewest digits that read back as the same double, and among those the nearest;
* `float`: positional from 10^-4 up to 10^16, else with an exponent.
-/

namespace BinaryQuadratic.Decimal

open Text
open Double (power)

/-- The digits of a natural number, the most significant one first. -/
def digits (n : Nat) : List Char :=
  if n < 10 then [digitChar n] else digits (n / 10) ++ [digitChar (n % 10)]

def integerDigits (i : Int) : List Char :=
  if i < 0 then '-' :: digits i.natAbs else digits i.natAbs

def integer (i : Int) : String := String.ofList (integerDigits i)

/-- A positive double: its exact value and the ends of the interval that rounds to it. The ends
belong to the interval when the significand is even. -/
structure Magnitude where
  exact : Rat
  low : Rat
  high : Rat
  closed : Bool
  deriving DecidableEq, Repr

/-- `m · 2^q`. Just below a power of two the doubles are twice as dense, so the lower end is
nearer there, except at the smallest exponent. -/
def Magnitude.ofBinary (m : Nat) (q : Int) : Magnitude where
  exact := m * power 2 q
  low := if m = Double.fractionCount && -1074 < q then (4 * m - 1 : Nat) * power 2 (q - 2)
    else (2 * m - 1 : Nat) * power 2 (q - 1)
  high := (2 * m + 1 : Nat) * power 2 (q - 1)
  closed := m % 2 = 0

def Magnitude.holds (v : Magnitude) (x : Rat) : Bool :=
  if v.closed then v.low ≤ x && x ≤ v.high else v.low < x && x < v.high

/-- The power of ten of the leading digit of a positive rational, given an estimate that is at
most one below it. -/
def leadingPower (x : Rat) (estimate : Int) : Int :=
  if power 10 (estimate + 1) ≤ x then estimate + 1 else estimate

/-- Of the two neighbours of the value on a grid of spacing `10^p`, the nearer one that reads
back; a tie goes to the even neighbour. -/
def onGrid (v : Magnitude) (p : Int) : Option Nat :=
  let below := (v.exact / power 10 p).floor.toNat
  let distance (n : Nat) : Rat :=
    let d := n * power 10 p - v.exact
    if d < 0 then -d else d
  let nearer :=
    if distance below < distance (below + 1) then below
    else if distance (below + 1) < distance below then below + 1
    else if below % 2 = 0 then below else below + 1
  let farther := if nearer = below then below + 1 else below
  if v.holds (nearer * power 10 p) then some nearer
  else if v.holds (farther * power 10 p) then some farther
  else none

/-- Finer and finer grids, `fuel` of them, until one has a point that reads back. -/
def search (v : Magnitude) (p : Int) : Nat → Nat × Int
  | 0 => (0, p)
  | fuel + 1 =>
    match onGrid v p with
    | some n => (n, p)
    | none => search v (p - 1) fuel

/-- The significand and the power of ten of the shortest decimal; seventeen digits always do. -/
def shortest (m : Nat) (q : Int) : Nat × Int :=
  let v := Magnitude.ofBinary m q
  search v (leadingPower v.exact ((q + Nat.log2 m) * 30103 / 100000)) 17

/-- Where positional writing ends on either side, and how many digits an exponent has at least. -/
structure Layout where
  leastPower : Int
  powerLimit : Int
  exponentWidth : Nat
  deriving DecidableEq, Repr

/-- Positional from 10^-4 up to 10^16; exponents of two digits or more. -/
def layout : Layout := ⟨-4, 16, 2⟩

def dropZeros (cs : List Char) : List Char := (cs.reverse.dropWhile (· = '0')).reverse

def padLeft (width : Nat) (cs : List Char) : List Char :=
  List.replicate (width - cs.length) '0' ++ cs

/-- With an exponent: one digit, the others after a point, the power of the first digit. -/
def scientific (leading : Int) : List Char → List Char
  | [] => []
  | first :: rest =>
    first :: (if rest.isEmpty then [] else '.' :: rest) ++
      'e' :: (if leading < 0 then '-' else '+') ::
        padLeft layout.exponentWidth (digits leading.natAbs)

/-- Without an exponent: zeros fill the places up to the point, and one digit follows it. -/
def positional (leading : Int) (significant : List Char) : List Char :=
  if leading < 0 then
    '0' :: '.' :: List.replicate (leading.natAbs - 1) '0' ++ significant
  else
    let places := leading.natAbs + 1
    let whole := significant.take places
    let fraction := significant.drop places
    whole ++ List.replicate (places - whole.length) '0' ++
      '.' :: (if fraction.isEmpty then ['0'] else fraction)

def positiveDigits (m : Nat) (q : Int) : List Char :=
  let (n, p) := shortest m q
  let all := digits n
  let leading := p + ((all.length - 1 : Nat) : Int)
  let significant := dropZeros all
  if layout.leastPower ≤ leading && leading < layout.powerLimit then
    positional leading significant
  else scientific leading significant

def float (x : Float) : String :=
  let signed (negative : Bool) (magnitude : String) :=
    if negative then "-" ++ magnitude else magnitude
  match Double.parts x with
  | .undefined => "nan"
  | .infinite negative => signed negative "inf"
  | .finite negative 0 _ => signed negative "0.0"
  | .finite negative significand e =>
    signed negative (String.ofList (positiveDigits significand e))

end BinaryQuadratic.Decimal
