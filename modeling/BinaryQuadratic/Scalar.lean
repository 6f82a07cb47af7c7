/-!
# Scalars

The number type a form is built from is a parameter: the same definitions run
on binary floating point and on exact rationals.

* `Scalar`: the operations the library asks of a number type, and no laws;
* `Scalar.isNaN`, `Scalar.isInfinite`: the exceptional values, told apart by
  comparison and subtraction alone, so they are empty on the rationals;
* `Scalar.roundRational`, `Scalar.roundDouble`: rounding to a whole number on the two types.
-/

namespace BinaryQuadratic

/-- What a number type must provide. Nothing is assumed of the operations. -/
class Scalar (α : Type) extends Zero α, One α, Add α, Sub α, Mul α, Div α, Neg α,
    LE α, LT α, NatCast α where
  decidableLE : DecidableLE α
  decidableLT : DecidableLT α
  /-- The nearest whole number, a half going to the even one. -/
  round : α → α

namespace Scalar

attribute [reducible, instance] decidableLE decidableLT

variable {α : Type} [Scalar α]

def two : α := 1 + 1

def half : α := 1 / two

/-- The absolute value; a value that is neither above nor below zero is kept. -/
def abs (a : α) : α := if a < 0 then -a else a

/-- Only a value that is not a number fails to be at most itself. -/
def isNaN (a : α) : Bool := !decide (a ≤ a)

/-- An infinite value is comparable, but its distance to itself is not a number. -/
def isInfinite (a : α) : Bool := !isNaN a && isNaN (a - a)

def isTop (a : α) : Bool := isInfinite a && decide (0 < a)

def isBottom (a : α) : Bool := isInfinite a && decide (a < 0)

/-- Both compare as at most the other; false when one is not a number. -/
def agree (a b : α) : Bool := decide (a ≤ b) && decide (b ≤ a)

/-- The nearest whole number, a half going to the even one. -/
def roundRational (a : Rat) : Int :=
  let below := a.floor
  let rest := a - below
  if rest < 1 / 2 then below
  else if 1 / 2 < rest then below + 1
  else if below % 2 = 0 then below else below + 1

/-- Doubles from 2^52 on are whole and one apart, so adding 2^52 to a smaller magnitude and
taking it off again rounds to a whole number, and the addition sends a half to the even one. -/
def roundDouble (a : Float) : Float :=
  let unit : Float := 4503599627370496
  if 0 < a && a < unit then (a + unit) - unit
  else if a < 0 && -unit < a then -((unit - a) - unit)
  else a

instance : Scalar Rat where
  zero := 0
  one := 1
  decidableLE := inferInstance
  decidableLT := inferInstance
  round a := roundRational a

instance : Scalar Float where
  zero := 0
  one := 1
  natCast := Float.ofNat
  decidableLE := inferInstance
  decidableLT := inferInstance
  round := roundDouble

end Scalar

end BinaryQuadratic
