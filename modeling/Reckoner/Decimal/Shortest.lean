import Reckoner.Text.Basic

/-!
# Shortest decimals

Every finite float is the only one in an interval of the reals that round to it.
Its shortest decimal is the one with the fewest digits in that interval, and the
nearest of those to the float itself.
-/

namespace Reckoner

/-! ## Parts of a float -/

inductive Magnitude
  | infinite
  | notANumber
  /-- `mantissa` times two to the power of `exponent`. -/
  | finite (mantissa : Nat) (exponent : Int)
  deriving DecidableEq, Repr

/-- The number of fractions that a binade holds. -/
def binade : Nat := 0x10000000000000

def isNegative (x : Float) : Bool := 2048 * binade ≤ x.toBits.toNat

def magnitude (x : Float) : Magnitude :=
  let fraction := x.toBits.toNat % binade
  let biased : Nat := x.toBits.toNat / binade % 2048
  if biased = 2047 then if fraction = 0 then .infinite else .notANumber
  else if biased = 0 then .finite fraction (-1074)
  else .finite (binade + fraction) ((biased : Int) - 1075)

/-! ## Decimal grids -/

/-- A positive decimal: its digits, the point after the first of them, times ten
to the power of `exponent`. -/
structure Decimal where
  digits : Text
  exponent : Int
  deriving DecidableEq, Repr

namespace Decimal

/-- The exponent of the first digit of `numerator / denominator`. -/
def leading (numerator denominator : Nat) : Int :=
  if denominator ≤ numerator then (Text.natural (numerator / denominator)).length - 1
  else -((Text.natural ((denominator - 1) / numerator)).length : Int)

/-- `units` on the grid of ten to the power of `place`, without zeros at its end. -/
def onGrid (units : Nat) (place : Int) : Decimal :=
  let digits := Text.natural units
  ⟨(digits.reverse.dropWhile (· = '0')).reverse, place + digits.length - 1⟩

/-- The point of a grid in the interval that is nearest to the value, if there is
one; of two equally near, the even one. Everything is measured in `denominator`ths
of a grid step. -/
def nearest? (low value high denominator : Nat) (closed : Bool) : Option Nat :=
  let below := value / denominator
  let inside (n : Nat) : Bool :=
    if closed then low ≤ n * denominator && n * denominator ≤ high
    else low < n * denominator && n * denominator < high
  let down := value - below * denominator
  let up := (below + 1) * denominator - value
  match inside below, inside (below + 1) with
  | true, true => if down < up || (down = up && below % 2 = 0) then some below else some (below + 1)
  | true, false => some below
  | false, true => some (below + 1)
  | false, false => none

/-- The shortest decimal of the float `mantissa` times two to the power of
`exponent`. Quarters of the last binary place hold both ends of its interval; the
lower end is nearer below a power of two. -/
def shortest (mantissa : Nat) (exponent : Int) : Decimal :=
  let scaled := exponent - 2
  let above := Nat.pow 2 scaled.toNat
  let below := Nat.pow 2 (-scaled).toNat
  let low := 4 * mantissa - (if mantissa = binade && -1074 < exponent then 1 else 2)
  let first := leading (4 * mantissa * above) below
  let onPlace (place : Int) : Option Decimal :=
    let scale := above * Nat.pow 10 (-place).toNat
    (nearest? (low * scale) (4 * mantissa * scale) ((4 * mantissa + 2) * scale)
      (below * Nat.pow 10 place.toNat) (mantissa % 2 = 0)).map (onGrid · place)
  ((List.range 17).findSome? fun (n : Nat) => onPlace (first - n)).getD ⟨['0'], 0⟩

end Decimal

end Reckoner
