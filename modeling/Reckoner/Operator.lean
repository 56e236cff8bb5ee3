import Reckoner.Text.Basic

/-!
# Operators and functions

The binary operators with their precedence and grouping, and the functions of one
argument, both in the order of their tables. Operators are known by their symbol,
functions by their name in letters of either case.
-/

namespace Reckoner

/-- Which of two equal operators in a row takes its operands first. -/
inductive Grouping
  | left
  | right
  deriving DecidableEq, Repr

inductive Operator
  | power
  | times
  | divide
  | plus
  | minus
  deriving DecidableEq, Repr

namespace Operator

def all : List Operator := [power, times, divide, plus, minus]

def symbol : Operator → Char
  | power => '^'
  | times => '*'
  | divide => '/'
  | plus => '+'
  | minus => '-'

/-- Of two operators the one with the higher precedence binds tighter. -/
def precedence : Operator → Nat
  | power => 4
  | times | divide => 3
  | plus | minus => 2

def grouping : Operator → Grouping
  | power => .right
  | times | divide | plus | minus => .left

def ofText? (t : Text) : Option Operator := all.find? fun o => [o.symbol] == t

theorem ofText?_symbol (o : Operator) : ofText? [o.symbol] = some o := by
  cases o <;> rfl

theorem eq_symbol_of_ofText? {t : Text} {o : Operator} (h : ofText? t = some o) : t = [o.symbol] := by
  have := List.find?_some h
  exact (eq_of_beq this).symm

end Operator

inductive Function
  | neg
  | sin
  | cos
  | tan
  deriving DecidableEq, Repr

namespace Function

def all : List Function := [neg, sin, cos, tan]

def name : Function → Text
  | neg => "neg".toList
  | sin => "sin".toList
  | cos => "cos".toList
  | tan => "tan".toList

def ofText? (t : Text) : Option Function := all.find? fun f => f.name == t.lower

theorem ofText?_name (f : Function) : ofText? f.name = some f := by
  cases f <;> rfl

end Function

end Reckoner
