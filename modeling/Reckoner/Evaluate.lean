import Reckoner.Arithmetic
import Reckoner.Rpn
import Reckoner.Token.Scan

/-!
# Evaluation

Tokens in reverse Polish order are applied to a stack of values, whose top is the
head of a list. An expression is evaluated in two passes, through its tokens in
that order, or in one, where each token is applied as soon as it leaves the
conversion.
-/

namespace Reckoner

/-! ## Values on a stack -/

/-- One token applied to the values below it. -/
def Rules.apply (rules : Rules) (token : Token) (values : List Float) : Except Fault (List Float) :=
  match token.kind with
  | .number => token.value.map (· :: values)
  | .identifier =>
    if (Function.ofText? token.text).isNone then .error (.unknownFunction token.text)
    else match values with
      | [] => .error .invalid
      | x :: below => (rules.call token.text x).map (· :: below)
  | .operator =>
    match values with
    | b :: a :: below => (rules.combine token.text a b).map (· :: below)
    | _ => .error .invalid
  | .parenthesis => .error .invalid

def single : List Float → Except Fault Float
  | [x] => .ok x
  | _ => .error .invalid

theorem single_eq_ok_iff {values : List Float} {x : Float} : single values = .ok x ↔ values = [x] := by
  match values with
  | [] => simp [single]
  | [y] => simp [single]
  | _ :: _ :: _ => simp [single]

def Rules.evaluateRpn (rules : Rules) (tokens : List Token) : Except Fault Float := do
  single (← tokens.foldlM (fun values t => rules.apply t values) [])

/-! ## Expressions -/

inductive Mode
  | twoPass
  | fused
  deriving DecidableEq, Repr

namespace Mode

def all : List Mode := [twoPass, fused]

def name : Mode → Text
  | twoPass => "two-pass".toList
  | fused => "fused".toList

def ofText? (t : Text) : Option Mode := all.find? fun m => m.name == t

theorem ofText?_name (m : Mode) : ofText? m.name = some m := by
  cases m <;> rfl

end Mode

def rpnTokens (e : Text) : Except Fault (List Token) := do
  Rpn.ofTokens (← scan .infixed e)

def toRpn (e : Text) : Except Fault Text := (rpnTokens e).map Token.render

namespace Rules

variable (rules : Rules)

def evaluateReversed (e : Text) : Except Fault Float := do
  rules.evaluateRpn (← scan .reversed e)

def evaluateTwoPass (e : Text) : Except Fault Float := do
  rules.evaluateRpn (← rpnTokens e)

/-- Applies a token unless a fault is held already. A fault of the expression is held
in place of the values, any other ends the evaluation. -/
def applyHeld (held : Except Fault (List Float)) (token : Token) :
    Except Fault (Except Fault (List Float)) :=
  match held with
  | .error fault => .ok (.error fault)
  | .ok values =>
    match rules.apply token values with
    | .ok values => .ok (.ok values)
    | .error fault => if fault.isExpression then .ok (.error fault) else .error fault

/-- Applies each token as it leaves the conversion. The first fault of a value is held
until the conversion ends, so a parenthesis without its partner comes first. -/
def evaluateFused (e : Text) : Except Fault Float := do
  let tokens ← scan .infixed e
  let held ← Rpn.convert rules.applyHeld (.ok []) tokens
  single (← held)

def evaluate : Mode → Text → Except Fault Float
  | .twoPass => rules.evaluateTwoPass
  | .fused => rules.evaluateFused

end Rules

end Reckoner
