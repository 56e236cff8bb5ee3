import Reckoner.Operator
import Reckoner.Record.Checked
import Reckoner.Token.Basic

/-!
# Definitions from records

Tokens, operators and functions as records describe them, each checked field by
field.
-/

namespace Reckoner

/-! ## Tokens -/

namespace Kind

def all : List Kind := [number, identifier, operator, parenthesis]

def name : Kind → Text
  | number => "number".toList
  | identifier => "identifier".toList
  | operator => "operator".toList
  | parenthesis => "parenthesis".toList

def ofText? (t : Text) : Option Kind := all.find? fun k => k.name == t

theorem ofText?_name (k : Kind) : ofText? k.name = some k := by
  cases k <;> rfl

end Kind

def Token.ofRecord (r : Record) : Checked Token :=
  Token.mk <$> r.required "kind" (Reader.oneOf Kind.ofText?)
    <*> r.required "text" (Reader.textOf 1 none)
    <*> r.withDefault "position" 0 (Reader.atLeast 0)

/-! ## Operators -/

namespace Grouping

def all : List Grouping := [left, right]

def name : Grouping → Text
  | left => "left".toList
  | right => "right".toList

def ofText? (t : Text) : Option Grouping := all.find? fun g => g.name == t

end Grouping

structure OperatorDefinition where
  symbol : Text
  precedence : Nat
  grouping : Grouping
  deriving DecidableEq, Repr

def OperatorDefinition.ofRecord (r : Record) : Checked OperatorDefinition :=
  OperatorDefinition.mk <$> r.required "symbol" (Reader.textOf 1 (some 1))
    <*> r.required "precedence" (Reader.atLeast 1)
    <*> r.required "associativity" (Reader.oneOf Grouping.ofText?)

def Operator.definition (o : Operator) : OperatorDefinition := ⟨[o.symbol], o.precedence, o.grouping⟩

/-! ## Functions -/

/-- A name of at least one letter, all of them small and of ASCII. -/
def Reader.functionName : Reader Text
  | .text t =>
    if !t.isEmpty && t.all fun c => 'a' ≤ c && c ≤ 'z' then .ok t else .error .wrongForm
  | _ => .error .notText

def Function.nameOfRecord (r : Record) : Checked Text := r.required "name" Reader.functionName

end Reckoner
