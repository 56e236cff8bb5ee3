import Reckoner.Text.Blank
import Reckoner.Text.Digit

/-!
# Numerals

A numeral is an optional sign before digits with an optional point and an
optional power of ten, or before a word for infinity or for a value that is no
number. It stands for the float nearest to what it says.
-/

namespace Reckoner

inductive Numeral
  | finite (negative : Bool) (digits : Nat) (exponent : Int)
  | infinite (negative : Bool)
  | notANumber
  deriving DecidableEq, Repr

namespace Numeral

/-! ## Reading -/

def number (digits : Text) : Nat := digits.foldl (fun n c => n * 10 + (c.toNat - 48)) 0

def sign : Text → Bool × Text
  | '-' :: rest => (true, rest)
  | '+' :: rest => (false, rest)
  | t => (false, t)

/-- Digits after a point, and what follows them. -/
def fraction : Text → Text × Text
  | '.' :: rest => (rest.takeWhile isDigit, rest.dropWhile isDigit)
  | t => ([], t)

/-- The power of ten that ends a numeral; nothing stands for zero. -/
def exponent? : Text → Option Int
  | [] => some 0
  | mark :: rest =>
    let (negative, digits) := sign rest
    if (mark = 'e' || mark = 'E') && !digits.isEmpty && digits.all isDigit then
      some (if negative then -(number digits : Int) else number digits)
    else none

/-- Digits with an optional point among or around them, and a power of ten. -/
def unsigned? (negative : Bool) (t : Text) : Option Numeral :=
  let whole := t.takeWhile isDigit
  let (places, rest) := fraction (t.dropWhile isDigit)
  if whole.isEmpty && places.isEmpty then none
  else (exponent? rest).map fun e => finite negative (number (whole ++ places)) (e - places.length)

def parse? (t : Text) : Option Numeral :=
  let (negative, body) := sign t
  let word := body.lower
  if word = "inf".toList || word = "infinity".toList then some (infinite negative)
  else if word = "nan".toList then some notANumber
  else unsigned? negative body

/-! ## Free forms -/

/-- Takes out underscores, none of them at an end or beside another. -/
def withoutUnderscores? (t : Text) : Option Text :=
  if (t.pieces '_').all (!·.isEmpty) then some (t.pieces '_').flatten else none

/-- Takes out underscores, each of which has to stand between two digits; the
character before the text is `previous`. -/
def ungroup? (previous : Char) : Text → Option Text
  | [] => if previous = '_' then none else some []
  | c :: rest =>
    if c = '_' then if isDigit previous then ungroup? '_' rest else none
    else if previous = '_' && !isDigit c then none
    else (ungroup? c rest).map (c :: ·)

/-- The ASCII character that a character of another script counts as: a digit for
a digit, a space for white space, and a mark that no numeral holds for the rest. -/
def plain (c : Char) : Char :=
  if c.toNat < 127 then c
  else if isBlank c then ' '
  else match digitValue? c with
    | some n => Nat.digitChar n
    | none => '?'

def isPlainSpace (c : Char) : Bool := (9 ≤ c.toNat && c.toNat ≤ 13) || c = ' '

/-- Reads a numeral in digits of any script, with white space around it and
underscores between digits. -/
def parseFree? (t : Text) : Option Numeral :=
  (ungroup? ' ' ((Text.trim isPlainSpace (t.map plain)))).bind parse?

/-! ## Value -/

def infinity : Float := Float.ofBits 0x7ff0000000000000

def nan : Float := Float.ofBits 0x7ff8000000000000

def negateIf (negative : Bool) (x : Float) : Float := if negative then -x else x

/-- The float nearest to the numeral, infinite when it is too large. -/
def toFloat : Numeral → Float
  | finite negative digits exponent =>
    negateIf negative (Float.ofScientific digits (decide (exponent < 0)) exponent.natAbs)
  | infinite negative => negateIf negative infinity
  | notANumber => nan

end Numeral

end Reckoner
