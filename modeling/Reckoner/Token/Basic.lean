import Reckoner.Decimal.Numeral
import Reckoner.Fault

/-!
# Tokens

A token keeps the text it was read from and where that text starts.
-/

namespace Reckoner

inductive Kind
  | number
  | identifier
  | operator
  | parenthesis
  deriving DecidableEq, Repr

structure Token where
  kind : Kind
  text : Text
  position : Nat
  deriving DecidableEq, Repr

namespace Token

/-- Whether the token's text is an opening parenthesis, whatever its kind. -/
def opens (t : Token) : Bool := t.text == ['(']

/-- The value of a number token: finite, or a fault. -/
def value (t : Token) : Except Fault Float :=
  if t.kind = .number then
    match Numeral.parseFree? t.text with
    | none => .error (.malformedNumber t.text)
    | some n => if n.toFloat.isFinite then .ok n.toFloat else .error (.evaluation t.text .literalTooLarge)
  else .error (.notANumber t.text)

theorem isFinite_of_value {t : Token} {x : Float} (h : t.value = .ok x) : x.isFinite = true := by
  unfold value at h
  split at h
  · split at h
    · cases h
    · split at h
      · cases h; assumption
      · cases h
  · cases h

/-- The texts with a space between neighbours. -/
def render (tokens : List Token) : Text := [' '].intercalate (tokens.map Token.text)

end Token

end Reckoner
