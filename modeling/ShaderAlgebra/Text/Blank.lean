/-!
# Blanks and lines

The white space of a text, by the Unicode property `White_Space`, and the two things that are done
with it: dropping it from the ends of a text, and taking the first line.
-/

namespace ShaderAlgebra.Text

/-- The code points with the property `White_Space` are these and the ones from `0x9` to `0xd` and
from `0x2000` to `0x200a`. -/
def scatteredBlanks : List Nat :=
  [0x20, 0x85, 0xa0, 0x1680, 0x2028, 0x2029, 0x202f, 0x205f, 0x3000]

/-- Whether a character is white space. -/
def isBlank (c : Char) : Bool :=
  (0x9 ≤ c.toNat && c.toNat ≤ 0xd) || (0x2000 ≤ c.toNat && c.toNat ≤ 0x200a)
    || scatteredBlanks.contains c.toNat

/-- A list of characters without the blanks at its end. -/
def dropTrailing (cs : List Char) : List Char :=
  (cs.reverse.dropWhile isBlank).reverse

/-- The text without the blanks at its end. -/
def trimEnd (text : String) : String := String.ofList (dropTrailing text.toList)

/-- The text without the blanks at its two ends. -/
def trim (text : String) : String :=
  String.ofList (dropTrailing (text.toList.dropWhile isBlank))

/-- The first line of a text. It ends at a line feed, or at a carriage return with a line feed
behind it. -/
def firstLine (text : String) : String :=
  let cs := text.toList
  let line := cs.takeWhile (· != '\n')
  if line.length < cs.length && line.getLast? == some '\r' then String.ofList line.dropLast
  else String.ofList line

end ShaderAlgebra.Text
