import Reckoner.Decimal.Shortest

/-!
# Layout of decimals

A float is written as its shortest decimal, positionally where its exponent lies
between two bounds and with a power of ten outside them.
-/

namespace Reckoner

/-- The least and the greatest exponent that is written positionally, and the
least number of digits in any other exponent. -/
structure Layout where
  least : Int
  greatest : Int
  width : Nat

namespace Layout

/-- Values are positional from a ten-thousandth up to sixteen digits before the point. -/
def values : Layout := ⟨-4, 15, 2⟩

/-- All digits with the point among them, and at least one on each side of it. -/
def positional (d : Decimal) : Text :=
  if d.exponent < 0 then
    "0.".toList ++ List.replicate (-d.exponent - 1).toNat '0' ++ d.digits
  else
    let before := d.exponent.toNat + 1
    d.digits.take before ++ List.replicate (before - d.digits.length) '0' ++ ['.'] ++
      (if d.digits.length ≤ before then ['0'] else d.digits.drop before)

/-- One digit, the point if others follow, and a power of ten with its sign. -/
def scientific (width : Nat) (d : Decimal) : Text :=
  let power := Text.natural d.exponent.natAbs
  d.digits.take 1 ++ (if d.digits.length ≤ 1 then [] else '.' :: d.digits.drop 1) ++ ['e'] ++
    [if d.exponent < 0 then '-' else '+'] ++ List.replicate (width - power.length) '0' ++ power

def decimal (l : Layout) (d : Decimal) : Text :=
  if l.least ≤ d.exponent && d.exponent ≤ l.greatest then positional d else scientific l.width d

def float (l : Layout) (x : Float) : Text :=
  let sign := if isNegative x then ['-'] else []
  match magnitude x with
  | .notANumber => "nan".toList
  | .infinite => sign ++ "inf".toList
  | .finite 0 _ => sign ++ "0.0".toList
  | .finite m e => sign ++ l.decimal (Decimal.shortest m e)

end Layout

def Text.float (x : Float) : Text := Layout.values.float x

end Reckoner
