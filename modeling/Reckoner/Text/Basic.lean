/-!
# Text

A text is a list of characters, so every function on it is a recursion that a
proof can follow. Positions in a text count characters from zero.
-/

namespace Reckoner

abbrev Text := List Char

namespace Text

/-! ## Numbers in text -/

def natural (n : Nat) : Text := Nat.toDigits 10 n

def integer : Int → Text
  | .ofNat n => natural n
  | .negSucc n => '-' :: natural (n + 1)

/-- `width` lowercase hexadecimal digits, filled with zeros on the left. -/
def hexadecimal (width n : Nat) : Text :=
  let digits := Nat.toDigits 16 n
  List.replicate (width - digits.length) '0' ++ digits

/-! ## Letters -/

/-- Small letters for capital ones, ASCII alone. -/
def lower (t : Text) : Text := t.map Char.toLower

/-- The capital of a letter, for every letter whose capital is an ASCII letter:
the dotless i and the long s are the two outside ASCII. -/
def capital (c : Char) : Char :=
  if c = 'ı' then 'I' else if c = 'ſ' then 'S' else c.toUpper

def upper (t : Text) : Text := t.map capital

/-! ## Cutting -/

/-- What stands before and after the first `mark`, if there is one. -/
def cut? (mark : Char) : Text → Option (Text × Text)
  | [] => none
  | c :: rest =>
    if c = mark then some ([], rest)
    else (cut? mark rest).map fun (before, after) => (c :: before, after)

/-- The pieces between the marks, one more than there are marks. -/
def pieces (mark : Char) : Text → List Text
  | [] => [[]]
  | c :: rest =>
    if c = mark then [] :: pieces mark rest
    else match pieces mark rest with
      | [] => [[c]]
      | piece :: more => (c :: piece) :: more

end Text

end Reckoner
