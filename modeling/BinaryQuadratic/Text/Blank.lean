/-!
# Blanks

The white space that may stand before and after a number: in ASCII the space and the controls from
tab to carriage return, beyond ASCII every Unicode white space character.

* `trim`: the text between the blanks at its two ends.
-/

namespace BinaryQuadratic.Text

/-- The ranges of white space, in ascending order, both ends included. -/
def blanks : List (Nat × Nat) :=
  [(0x09, 0x0D), (0x20, 0x20), (0x85, 0x85), (0xA0, 0xA0), (0x1680, 0x1680), (0x2000, 0x200A),
    (0x2028, 0x2029), (0x202F, 0x202F), (0x205F, 0x205F), (0x3000, 0x3000)]

def isBlank (c : Char) : Bool :=
  blanks.any fun range => range.1 ≤ c.toNat && c.toNat ≤ range.2

def trim (cs : List Char) : List Char :=
  ((cs.dropWhile isBlank).reverse.dropWhile isBlank).reverse

end BinaryQuadratic.Text
