import BinaryQuadratic.Text.Blank
import BinaryQuadratic.Text.Digit

/-!
# Reading hexadecimal numbers

* `digit?`: the value of a digit, a letter in either case;
* `read?`: a number behind `0x`, with single underscores before and between its digits and blanks
  after them.
-/

namespace BinaryQuadratic.Hexadecimal

def digit? (c : Char) : Option Nat :=
  if Text.isDigit c then some (c.toNat - '0'.toNat)
  else if 'a' ≤ c && c ≤ 'f' then some (c.toNat - 'a'.toNat + 10)
  else if 'A' ≤ c && c ≤ 'F' then some (c.toNat - 'A'.toNat + 10)
  else none

/-- The number that further digits make of a value; an underscore stands before a digit. -/
def readDigits (value : Nat) : List Char → Option Nat
  | [] => some value
  | '_' :: c :: rest => (digit? c).bind fun d => readDigits (16 * value + d) rest
  | c :: rest => (digit? c).bind fun d => readDigits (16 * value + d) rest

/-- A number behind `0x`, which has at least one digit. Digits of any script count. -/
def read? (s : String) : Option Nat :=
  match (Text.trim s.toList).map Text.westernize with
  | '0' :: 'x' :: c :: rest => readDigits 0 (c :: rest)
  | _ => none

end BinaryQuadratic.Hexadecimal
