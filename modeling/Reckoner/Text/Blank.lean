import Reckoner.Text.Basic

/-!
# Blank characters

The white space characters of Unicode and the four ASCII separators from file to
unit. A text is blank when it holds nothing else.
-/

namespace Reckoner

def isBlank (c : Char) : Bool :=
  let n := c.toNat
  (9 ≤ n && n ≤ 13) || (28 ≤ n && n ≤ 32) || n == 0x85 || n == 0xa0 || n == 0x1680 ||
    (0x2000 ≤ n && n ≤ 0x200a) || n == 0x2028 || n == 0x2029 || n == 0x202f || n == 0x205f ||
    n == 0x3000

/-- White space in the Unicode sense: blank, and none of the four separators. -/
def isSpace (c : Char) : Bool := isBlank c && !(28 ≤ c.toNat && c.toNat ≤ 31)

namespace Text

/-- Drops the characters in the class `p` from both ends. -/
def trim (p : Char → Bool) (t : Text) : Text :=
  ((t.dropWhile p).reverse.dropWhile p).reverse

def strip (t : Text) : Text := t.trim isBlank

def allBlank (t : Text) : Bool := t.all isBlank

end Text

end Reckoner
