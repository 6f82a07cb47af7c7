/-!
# Doubles as exact numbers

* `Double.parts`: what a double stands for, an integer times a power of two or something that is no
  finite number;
* `Double.toRational?`: the exact value of a finite double;
* `Double.ofRational`: the double nearest to a rational, a tie going to the even one.
-/

namespace BinaryQuadratic.Double

inductive Parts
  | finite (negative : Bool) (significand : Nat) (power : Int)
  | infinite (negative : Bool)
  | undefined
  deriving DecidableEq, Repr

/-- How many fractions each exponent has: 2^52. -/
def fractionCount : Nat := 0x10000000000000

/-- How many exponents each sign has: 2^11. -/
def exponentCount : Nat := 0x800

/-- Reads the sign, the eleven bits of the exponent and the 52 bits of the fraction. The significand
has a leading one that is not stored, except at the smallest exponent. -/
def parts (x : Float) : Parts :=
  let bits : Nat := x.toBits.toNat
  let negative : Bool := bits / (exponentCount * fractionCount) = 1
  let exponent : Nat := bits / fractionCount % exponentCount
  let fraction : Nat := bits % fractionCount
  if exponent = exponentCount - 1 then
    if fraction = 0 then .infinite negative else .undefined
  else if exponent = 0 then .finite negative fraction (-1074)
  else .finite negative (fractionCount + fraction) ((exponent : Int) - 1075)

def power (base : Nat) (e : Int) : Rat :=
  if e < 0 then 1 / (Nat.pow base e.natAbs : Rat) else (Nat.pow base e.natAbs : Rat)

/-- The exact value of a finite double. -/
def toRational? (x : Float) : Option Rat :=
  match parts x with
  | .finite negative significand e =>
    let magnitude := significand * power 2 e
    some (if negative then -magnitude else magnitude)
  | _ => none

/-- A positive rational is scaled to at least 60 bits. What is cut off is kept as one last bit, so
rounding the rest once more to 53 bits rounds the rational itself. -/
def ofPositive (num den : Nat) : Float :=
  let shift : Int := 60 + (Nat.log2 den : Int) - Nat.log2 num
  let num := if shift < 0 then num else num * Nat.pow 2 shift.natAbs
  let den := if shift < 0 then den * Nat.pow 2 shift.natAbs else den
  let sticky := if num % den = 0 then 0 else 1
  Float.scaleB (Float.ofNat (2 * (num / den) + sticky)) (-(shift + 1))

/-- The double nearest to a rational. -/
def ofRational (q : Rat) : Float :=
  if q.num = 0 then 0
  else if q.num < 0 then -(ofPositive q.num.natAbs q.den)
  else ofPositive q.num.natAbs q.den

end BinaryQuadratic.Double
