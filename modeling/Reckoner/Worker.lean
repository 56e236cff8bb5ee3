import Reckoner.Log
import Reckoner.Outcome

/-!
# Workers

A worker evaluates the expression of one line, reports on its way, and hands on
one outcome.
-/

namespace Reckoner

structure Worker where
  expression : Text
  line : Nat
  mode : Mode
  deriving DecidableEq, Repr

namespace Worker

def ofRecord (r : Record) : Checked Worker :=
  Worker.mk <$> r.required "expression" Reader.expression
    <*> r.required "line_number" (Reader.atLeast 1)
    <*> r.withDefault "mode" .twoPass (Reader.oneOf Mode.ofText?)

def toRecord (w : Worker) : Record :=
  [("expression".toList, .text w.expression), ("line_number".toList, .int w.line),
    ("mode".toList, .text w.mode.name)]

def attempt (w : Worker) : Except Fault (Text × Float) := do
  let tokens ← rpnTokens w.expression
  let value ← match w.mode with
    | .twoPass => Rules.standard.evaluateRpn tokens
    | .fused => Rules.standard.evaluateFused w.expression
  return (Token.render tokens, value)

/-- The outcome of the line: a fault of the expression is one, any other is not. -/
def evaluate (w : Worker) : Except Fault Outcome :=
  match w.attempt with
  | .ok (rpn, x) => .ok ⟨w.line, w.expression, some rpn, .value x⟩
  | .error fault =>
    if fault.isExpression then .ok ⟨w.line, w.expression, none, .failure fault.message⟩ else .error fault

/-! ## Reports -/

def startedMessage (w : Worker) : Text :=
  "👷🏁 Worker started on line ".toList ++ Text.natural w.line ++ ": ".toList ++ w.expression

def finishedMessage (w : Worker) (x : Float) : Text :=
  "👷✅ Worker finished on line ".toList ++ Text.natural w.line ++ ": ".toList ++ Text.float x

def failedMessage (w : Worker) (message : Text) : Text :=
  "👷❌ Worker failed on line ".toList ++ Text.natural w.line ++ ": ".toList ++ message ++
    "\nInvalid arithmetic expression, could not evaluate: ".toList ++ w.expression.quoted

def verdictEntry (w : Worker) : Verdict → Entry
  | .value x => ⟨.info, w.finishedMessage x⟩
  | .failure message => ⟨.error, w.failedMessage message⟩

/-- What a worker does to its end of the pipe. -/
inductive Signal
  | payload (r : Record)
  | close

/-- What a worker leaves behind: the outcome it sent, all that it did to its end of the pipe,
in that order, and its log. The pipe is closed whatever happened. -/
structure Run where
  sent : Except Fault Outcome
  signals : List Signal
  log : Log

def run (w : Worker) : Run :=
  match w.evaluate with
  | .ok outcome =>
    ⟨.ok outcome, [.payload outcome.toRecord, .close],
      [⟨.info, w.startedMessage⟩, w.verdictEntry outcome.verdict]⟩
  | .error fault => ⟨.error fault, [.close], [⟨.info, w.startedMessage⟩]⟩

end Worker

end Reckoner
