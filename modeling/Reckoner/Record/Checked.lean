import Reckoner.Decimal.Integer
import Reckoner.Record.Value

/-!
# Checked records

Reading a record checks every field and tells all flaws together, in the order of
the fields. A reader takes what clearly stands for a value of its type: a digit
string or a whole float for an integer, a numeral for a float.
-/

namespace Reckoner

inductive Complaint
  | missing
  | notText
  | tooShort
  | tooLong
  | wrongForm
  | notAllowed
  | notInteger
  | unreadableInteger
  | tooLargeInteger
  | notFinite
  | fractional
  | tooSmall
  | notNumber
  | unreadableNumber
  | refused
  | notAPath
  | notAFile
  deriving DecidableEq, Repr

structure Flaw where
  field : Option Text
  complaint : Complaint
  deriving DecidableEq, Repr

/-! ## Checks -/

inductive Checked (α : Type)
  | good (a : α)
  | flawed (flaws : List Flaw)

namespace Checked

variable {α β : Type}

def map (f : α → β) : Checked α → Checked β
  | good a => good (f a)
  | flawed flaws => flawed flaws

/-- Two checks together: the flaws of the first come first. -/
def seq : Checked (α → β) → Checked α → Checked β
  | good f, c => c.map f
  | flawed flaws, good _ => flawed flaws
  | flawed flaws, flawed more => flawed (flaws ++ more)

instance : Applicative Checked where
  map := map
  pure := good
  seq f c := seq f (c ())

end Checked

/-! ## Readers -/

abbrev Reader (α : Type) := Value → Except Complaint α

namespace Reader

variable {α : Type}

def text : Reader Text
  | .text t => .ok t
  | _ => .error .notText

/-- A text of at least `least` characters and at most `most` where that is given. -/
def textOf (least : Nat) (most : Option Nat) : Reader Text
  | .text t =>
    if t.length < least then .error .tooShort
    else match most with
      | none => .ok t
      | some m => if m < t.length then .error .tooLong else .ok t
  | _ => .error .notText

def expression : Reader Text
  | .text t => if t.allBlank then .error .refused else .ok t
  | _ => .error .notText

def oneOf (ofText? : Text → Option α) : Reader α
  | .text t => match ofText? t with
    | some a => .ok a
    | none => .error .notAllowed
  | _ => .error .notAllowed

def optional (reader : Reader α) : Reader (Option α)
  | .null => .ok none
  | v => (reader v).map some

/-! ### Integers -/

/-- The integer that a float is equal to, as far as two to the power of 63 in either direction. -/
def whole (x : Float) : Except Complaint Int :=
  match magnitude x with
  | .finite m e =>
    let denominator := Nat.pow 2 (-e).toNat
    let n := m * Nat.pow 2 e.toNat / denominator
    if m % denominator ≠ 0 then .error .fractional
    else if 0x8000000000000000 ≤ n then .error .tooLargeInteger
    else .ok (if isNegative x then -(n : Int) else n)
  | _ => .error .notFinite

def integer : Reader Int
  | .int n => .ok n
  | .bool b => .ok b.toInt
  | .float x => whole x
  | .text t => match Integer.ofText t with
    | .ok n => .ok n
    | .error .malformed => .error .unreadableInteger
    | .error .tooLong => .error .tooLargeInteger
  | _ => .error .notInteger

def atLeast (least : Nat) : Reader Nat := fun v =>
  match integer v with
  | .ok n => if n < least then .error .tooSmall else .ok n.toNat
  | .error complaint => .error complaint

/-! ### Floats -/

/-- A numeral with white space around it, or with single underscores in it. -/
def number? (t : Text) : Option Float :=
  match Numeral.parse? (t.trim isSpace) with
  | some n => some n.toFloat
  | none => ((Numeral.withoutUnderscores? t).bind Numeral.parse?).map Numeral.toFloat

/-- The float nearest to an integer, if there is one that is finite. -/
def floatOfInt? (n : Int) : Option Float :=
  let x := (Numeral.finite (n < 0) n.natAbs 0).toFloat
  if x.isFinite then some x else none

def number : Reader Float
  | .float x => .ok x
  | .int n => match floatOfInt? n with
    | some x => .ok x
    | none => .error .notNumber
  | .bool b => .ok (if b then 1 else 0)
  | .text t => match number? t with
    | some x => .ok x
    | none => .error .unreadableNumber
  | _ => .error .notNumber

end Reader

/-! ## Fields -/

namespace Record

variable {α : Type}

def named (field : Text) : Except Complaint α → Checked α
  | .ok a => .good a
  | .error complaint => .flawed [⟨some field, complaint⟩]

def required (r : Record) (field : String) (reader : Reader α) : Checked α :=
  named field.toList (match r.get? field.toList with
    | some v => reader v
    | none => .error .missing)

/-- A field that has the value `default` where it is not given. -/
def withDefault (r : Record) (field : String) (default : α) (reader : Reader α) : Checked α :=
  match r.get? field.toList with
  | some v => named field.toList (reader v)
  | none => .good default

end Record

end Reckoner
