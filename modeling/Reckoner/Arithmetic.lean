import Reckoner.Fault
import Reckoner.Operator

/-!
# Arithmetic

A rule computes an operator or a function on floats, or says why it cannot. Over
any rules a finite operand never gives a value that is not finite: that is a fault
of the result.
-/

namespace Reckoner

structure Rules where
  binary : Operator → Float → Float → Except Reason Float
  unary : Function → Float → Except Reason Float

namespace Rules

/-! ## The rules of real numbers -/

/-- A finite power of finite operands, or the reason that there is none: the base
zero or no real root, else a result beyond all floats. -/
def power (a b : Float) : Except Reason Float :=
  let r := Float.pow a b
  if !a.isFinite || !b.isFinite || r.isFinite then .ok r
  else if r.isNaN || a == 0 then .error .domain
  else .error .powerTooLarge

def quotient (a b : Float) : Except Reason Float :=
  if b == 0 then .error .divisionByZero else .ok (a / b)

/-- A function that has no value where it gives none for a number. -/
def trigonometric (f : Float → Float) (x : Float) : Except Reason Float :=
  let r := f x
  if r.isNaN && !x.isNaN then .error .domain else .ok r

def standard : Rules where
  binary
    | .power, a, b => power a b
    | .times, a, b => .ok (a * b)
    | .divide, a, b => quotient a b
    | .plus, a, b => .ok (a + b)
    | .minus, a, b => .ok (a - b)
  unary
    | .neg, x => .ok (-x)
    | .sin, x => trigonometric Float.sin x
    | .cos, x => trigonometric Float.cos x
    | .tan, x => trigonometric Float.tan x

/-! ## Guarded use -/

/-- The outcome of a rule used as `symbol` on operands that are `finite` or not. -/
def guarded (symbol : Text) (finite : Bool) : Except Reason Float → Except Fault Float
  | .error reason => .error (.evaluation symbol reason)
  | .ok x => if finite && !x.isFinite then .error (.evaluation symbol .resultTooLarge) else .ok x

def combine (rules : Rules) (symbol : Text) (a b : Float) : Except Fault Float :=
  match Operator.ofText? symbol with
  | none => .error (.unknownOperator symbol)
  | some o => guarded symbol (a.isFinite && b.isFinite) (rules.binary o a b)

def call (rules : Rules) (name : Text) (x : Float) : Except Fault Float :=
  match Function.ofText? name with
  | none => .error (.unknownFunction name)
  | some f => guarded name x.isFinite (rules.unary f x)

/-- Whatever the rule, finite operands give a finite value or a fault. -/
theorem isFinite_of_guarded {symbol : Text} {r : Except Reason Float} {x : Float}
    (h : guarded symbol true r = .ok x) : x.isFinite = true := by
  cases r with
  | error reason => cases h
  | ok y =>
    by_cases hy : y.isFinite = true
    · have hg : guarded symbol true (.ok y) = .ok y := by simp [guarded, hy]
      rw [hg] at h
      cases h
      exact hy
    · simp [guarded, hy] at h

end Rules

end Reckoner
