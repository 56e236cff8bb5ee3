import Reckoner.Decimal.Numeral

/-!
# Integers in text

The plain form of an integer is a minus or nothing, then digits without leading
zeros, no more of them than a bound. A free form may have white space around it, a
plus, zeros before the digits, single underscores between them, and a point with
zeros behind them: it is read by way of the plain form, where it has one.
-/

namespace Reckoner.Integer

/-! ## The plain form -/

inductive Refusal
  | malformed
  | tooLong
  deriving DecidableEq, Repr

/-- The greatest number of digits of an integer in text; a minus does not count. -/
def maxDigits : Nat := 4300

def minus : Text → Bool × Text
  | '-' :: rest => (true, rest)
  | t => (false, t)

/-- Too many digits are refused for their number, whatever follows them. -/
def ofPlain (t : Text) : Except Refusal Int :=
  let (negative, body) := minus t
  let digits := body.takeWhile isDigit
  if body = ['0'] then .ok 0
  else if digits.isEmpty || digits.head? = some '0' then .error .malformed
  else if maxDigits < digits.length then .error .tooLong
  else if digits.length < body.length then .error .malformed
  else .ok (if negative then -(Numeral.number digits : Int) else Numeral.number digits)

/-! ## Free forms -/

/-- What follows leading zeros and the underscores after them: digits, or a minus and
digits. Where a point or nothing follows, the last character before it stays. -/
def behindZeros? (previous : Char) : Text → Option Text
  | [] => some [previous]
  | c :: rest =>
    if c = '0' || c = '_' then behindZeros? c rest
    else if c = '.' then some (previous :: c :: rest)
    else if isDigit c || c = '-' then some (c :: rest)
    else none

/-- The text from its first digit on that is no leading zero. -/
def significant? : Text → Option Text
  | [] => none
  | c :: rest =>
    if c = '0' then behindZeros? '0' rest
    else if isDigit c || c = '-' then some (c :: rest)
    else none

/-- Takes a point and the zeros behind it off the end. -/
def withoutPlaces (t : Text) : Text :=
  match Text.cut? '.' t with
  | some (whole, places) => if !places.isEmpty && places.all (· = '0') then whole else t
  | none => t

/-- The digits of a free form without what the plain form has no place for. -/
def bare? (t : Text) : Option Text :=
  (significant? t).map fun digits =>
    (Numeral.withoutUnderscores? (withoutPlaces digits)).getD (withoutPlaces digits)

/-- The plain form of a free one; what has none is no integer. -/
def plain? (t : Text) : Option Text :=
  match t.trim isSpace with
  | '+' :: '-' :: _ => none
  | '+' :: rest => bare? rest
  | '-' :: rest => (bare? rest).map ('-' :: ·)
  | rest => bare? rest

/-- Reads the plain form, else a free one. Too many digits are told of only where the
text starts as the plain form does; a free form with too many is malformed. -/
def ofText (t : Text) : Except Refusal Int :=
  match ofPlain t with
  | .ok n => .ok n
  | .error .tooLong => .error .tooLong
  | .error .malformed =>
    match (plain? t).map ofPlain with
    | some (.ok n) => .ok n
    | _ => .error .malformed

end Reckoner.Integer
