import Scripting.Text.Bounds

/-!
Blank characters: what separates tokens and what is stripped from the ends of a text. Zero-width
characters are not blank.
-/

namespace Scripting.Text

def blankBounds : List Nat := [
  9, 14, 28, 33, 133, 134, 160, 161, 5760, 5761, 8192, 8203, 8232, 8234, 8239, 8240, 8287, 8288,
  12288, 12289]

def isBlank (c : Char) : Bool := Bounds.mem blankBounds c.toNat

/-- Whether a character may stand around a numeral: a blank that is no information separator. -/
def isPadding (c : Char) : Bool := isBlank c && !(28 ≤ c.toNat && c.toNat < 32)

def stripFront (cs : List Char) : List Char := cs.dropWhile isBlank

def stripBack (cs : List Char) : List Char := (stripFront cs.reverse).reverse

def strip (cs : List Char) : List Char := stripBack (stripFront cs)

/-- The text without the padding of a numeral at either end. -/
def unpad (cs : List Char) : List Char :=
  ((cs.dropWhile isPadding).reverse.dropWhile isPadding).reverse

end Scripting.Text
