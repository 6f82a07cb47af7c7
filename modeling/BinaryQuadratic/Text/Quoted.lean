import BinaryQuadratic.Text.Half
import BinaryQuadratic.Text.Printable

/-!
# Quoted text

Text between quotes with everything that cannot be printed escaped.

* `quoteFor`: a single quote, unless the text holds one and no double quote;
* `escape`: the quote in use and the backslash behind a backslash, tab, line feed and carriage
  return as letters, other unprintable characters by their code point in hexadecimal.
-/

namespace BinaryQuadratic.Text

/-- The hexadecimal digits of a number, at least `width` of them. -/
def hex : Nat → Nat → List Char
  | 0, _ => []
  | width + 1, n => hex width (n / 16) ++ [Nat.digitChar (n % 16)]

/-- The shortest of the three forms that holds the code point. -/
def escapeCode (n : Nat) : List Char :=
  if n < 0x100 then '\\' :: 'x' :: hex 2 n
  else if n < 0x10000 then '\\' :: 'u' :: hex 4 n
  else '\\' :: 'U' :: hex 8 n

def escape (quote c : Char) : List Char :=
  if c = quote || c = '\\' then ['\\', c]
  else if c = '\t' then ['\\', 't']
  else if c = '\n' then ['\\', 'n']
  else if c = '\r' then ['\\', 'r']
  else if isPrintable c then [c]
  else escapeCode (code c)

/-- A double quote for text that holds single quotes only. -/
def quoteFor (cs : List Char) : Char :=
  if cs.contains '\'' && !cs.contains '"' then '"' else '\''

def quoted (s : String) : String :=
  let quote := quoteFor s.toList
  String.ofList (quote :: s.toList.flatMap (escape quote) ++ [quote])

end BinaryQuadratic.Text
