import Reckoner.Evaluate
import Reckoner.Record.Checked

/-!
# Requests and outcomes

A request is an expression to evaluate and the mode to do it in. An outcome is
what became of a line: a value, or the words for why there is none.
-/

namespace Reckoner

/-! ## Requests -/

structure Request where
  expression : Text
  mode : Mode
  deriving DecidableEq, Repr

def Request.ofRecord (r : Record) : Checked Request :=
  Request.mk <$> r.required "expression" Reader.expression
    <*> r.withDefault "mode" .twoPass (Reader.oneOf Mode.ofText?)

structure NoMode where
  value : Value

def NoMode.message (n : NoMode) : Text := n.value.render ++ " is not a valid EvaluationMode".toList

def Mode.ofValue : Value → Except NoMode Mode
  | .text t => match Mode.ofText? t with
    | some mode => .ok mode
    | none => .error ⟨.text t⟩
  | v => .error ⟨v⟩

/-! ## Outcomes -/

inductive Verdict
  | value (x : Float)
  | failure (message : Text)
  deriving DecidableEq

structure Outcome where
  line : Nat
  expression : Text
  rpn : Option Text
  verdict : Verdict
  deriving DecidableEq

namespace Outcome

def succeeded (o : Outcome) : Bool :=
  match o.verdict with
  | .value _ => true
  | .failure _ => false

def value? (o : Outcome) : Option Float :=
  match o.verdict with
  | .value x => some x
  | .failure _ => none

def failure? (o : Outcome) : Option Text :=
  match o.verdict with
  | .value _ => none
  | .failure message => some message

/-- The outcome as one line of output, without a terminator. -/
def render (o : Outcome) : Text :=
  match o.verdict with
  | .value x => o.expression ++ " = ".toList ++ Text.float x
  | .failure message => o.expression ++ " -> ERROR: ".toList ++ message

/-! ### As a record -/

def ofText : Option Text → Value
  | none => .null
  | some t => .text t

def ofFloat : Option Float → Value
  | none => .null
  | some x => .float x

def toRecord (o : Outcome) : Record :=
  [("line".toList, .int o.line), ("expression".toList, .text o.expression),
    ("postfix".toList, ofText o.rpn), ("result".toList, ofFloat o.value?),
    ("error".toList, ofText o.failure?)]

/-- The fields of an outcome before it is known that one of the last two is given. -/
structure Draft where
  line : Nat
  expression : Text
  rpn : Option Text
  result : Option Float
  error : Option Text

/-- Exactly one of a value and an error makes an outcome. -/
def Draft.complete (d : Draft) : Checked Outcome :=
  match d.result, d.error with
  | some x, none => .good ⟨d.line, d.expression, d.rpn, .value x⟩
  | none, some message => .good ⟨d.line, d.expression, d.rpn, .failure message⟩
  | _, _ => .flawed [⟨none, .refused⟩]

def Draft.ofRecord (r : Record) : Checked Draft :=
  Draft.mk <$> r.withDefault "line" 1 (Reader.atLeast 1)
    <*> r.required "expression" Reader.text
    <*> r.withDefault "postfix" none (Reader.optional Reader.text)
    <*> r.withDefault "result" none (Reader.optional Reader.number)
    <*> r.withDefault "error" none (Reader.optional Reader.text)

def ofRecord (r : Record) : Checked Outcome :=
  match Draft.ofRecord r with
  | .good d => d.complete
  | .flawed flaws => .flawed flaws

end Outcome

end Reckoner
