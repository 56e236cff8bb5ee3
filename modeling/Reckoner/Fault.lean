import Reckoner.Text.Quoted

/-!
# Faults

Everything that can be wrong with an expression, each with its cause, and the
words for it. The first five are faults of an expression's text; the last three
arise only from tokens that no text gives.
-/

namespace Reckoner

inductive Reason
  | divisionByZero
  | domain
  | powerTooLarge
  | resultTooLarge
  | literalTooLarge
  deriving DecidableEq, Repr

inductive Fault
  | unexpected (c : Char) (position : Nat)
  | mismatched
  | invalid
  | unknownFunction (name : Text)
  | evaluation (symbol : Text) (reason : Reason)
  | unknownOperator (symbol : Text)
  | notANumber (text : Text)
  | malformedNumber (text : Text)
  deriving DecidableEq, Repr

/-- Whether the fault is one of an expression's text. -/
def Fault.isExpression : Fault → Bool
  | unexpected .. | mismatched | invalid | unknownFunction _ | evaluation .. => true
  | unknownOperator _ | notANumber _ | malformedNumber _ => false

def Reason.message : Reason → Text
  | divisionByZero => "division by zero".toList
  | domain => "math domain error".toList
  | powerTooLarge => "math range error".toList
  | resultTooLarge => "numerical result out of range".toList
  | literalTooLarge => "numeric literal out of range".toList

def Fault.message : Fault → Text
  | unexpected c position =>
    "Unexpected character ".toList ++ Text.quoted [c] ++ " at position ".toList ++ Text.natural position
  | mismatched => "mismatched parentheses".toList
  | invalid => "invalid expression".toList
  | unknownFunction name => "invalid expression: unknown function ".toList ++ name.quoted
  | evaluation symbol reason => "cannot evaluate ".toList ++ symbol.quoted ++ ": ".toList ++ reason.message
  | unknownOperator symbol => symbol.quoted
  | notANumber text => "Token ".toList ++ text.quoted ++ " is not a number".toList
  | malformedNumber text => "could not convert string to float: ".toList ++ text.quoted

end Reckoner
