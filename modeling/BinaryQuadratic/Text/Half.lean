/-!
# Halves of pairs

A text may hold half of a pair of UTF-16 units on its own, which is no character. It is kept as one
of the private characters from U+10A000 on.

* `ofUnit`: the character that a unit is kept as;
* `code`: the code point that a character stands for; `code_ofUnit` says that halves come back;
* `below`: texts in the order of their code points.
-/

namespace BinaryQuadratic.Text

/-- The first half that a pair can begin with. -/
def firstHalf : Nat := 0xD800

/-- How many halves there are, the first and the second ones of pairs. -/
def halfCount : Nat := 0x800

/-- The character that the first half is kept as. -/
def keptFrom : Nat := 0x10A000

/-- The character of a unit that is not part of a pair. -/
def ofUnit (unit : Nat) : Char :=
  if firstHalf ≤ unit && unit < firstHalf + halfCount then
    Char.ofNat (keptFrom + (unit - firstHalf))
  else Char.ofNat unit

def isHalf (c : Char) : Bool := keptFrom ≤ c.toNat && c.toNat < keptFrom + halfCount

/-- The code point that a character stands for. -/
def code (c : Char) : Nat := if isHalf c then firstHalf + (c.toNat - keptFrom) else c.toNat

/-- Whether a text comes before another one in the order of their code points. -/
def below (s t : String) : Bool := decide (s.toList.map code < t.toList.map code)

theorem toNat_ofNat {n : Nat} (h : n.isValidChar) : (Char.ofNat n).toNat = n := by
  rw [Char.ofNat, dif_pos h]
  rfl

theorem code_ofUnit {unit : Nat} (low : firstHalf ≤ unit) (high : unit < firstHalf + halfCount) :
    code (ofUnit unit) = unit := by
  have valid : (keptFrom + (unit - firstHalf)).isValidChar := by
    unfold firstHalf halfCount keptFrom at *
    exact .inr ⟨by omega, by omega⟩
  have kept := toNat_ofNat valid
  have half : isHalf (Char.ofNat (keptFrom + (unit - firstHalf))) = true := by
    simp only [isHalf, kept, Bool.and_eq_true, decide_eq_true_eq]
    omega
  rw [ofUnit, if_pos (by simp [low, high]), code, if_pos half, kept]
  omega

end BinaryQuadratic.Text
