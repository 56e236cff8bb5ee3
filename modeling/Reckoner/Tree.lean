import Reckoner.Arithmetic
import Reckoner.Evaluate

/-!
# Syntax trees

An expression as a tree: numbers, functions before an argument, operators between
two operands, and groups in parentheses. A tree has two token lists, one in infix
order with its groups and one in reverse Polish order without them, and a value.
-/

namespace Reckoner

inductive Tree
  | number (t : Token)
  | call (f : Token) (argument : Tree)
  | binary (left : Tree) (o : Token) (right : Tree)
  | group (opening : Token) (inner : Tree) (closing : Token)
  deriving DecidableEq, Repr

namespace Tree

/-! ## Token lists -/

def flat : Tree → List Token
  | number t => [t]
  | call f x => f :: flat x
  | binary l o r => flat l ++ o :: flat r
  | group a t b => a :: flat t ++ [b]

/-- The tokens in reverse Polish order: operands before what is applied to them. -/
def rpn : Tree → List Token
  | number t => [t]
  | call f x => rpn x ++ [f]
  | binary l o r => rpn l ++ rpn r ++ [o]
  | group _ t _ => rpn t

def bare : Tree → Tree
  | number t => number t
  | call f x => call f (bare x)
  | binary l o r => binary (bare l) o (bare r)
  | group _ t _ => bare t

theorem rpn_bare (t : Tree) : t.bare.rpn = t.rpn := by
  induction t with
  | number t => rfl
  | call f x ih => simp [bare, rpn, ih]
  | binary l o r ihl ihr => simp [bare, rpn, ihl, ihr]
  | group a t b ih => exact ih

/-! ## Value -/

/-- The value of a tree, left operands first. -/
def value (rules : Rules) : Tree → Except Fault Float
  | number t => t.value
  | call f x => do rules.call f.text (← value rules x)
  | binary l o r => do
    let a ← value rules l
    let b ← value rules r
    rules.combine o.text a b
  | group _ t _ => value rules t

theorem value_bare (rules : Rules) (t : Tree) : t.bare.value rules = t.value rules := by
  induction t with
  | number t => rfl
  | call f x ih => simp [bare, value, ih]
  | binary l o r ihl ihr => simp [bare, value, ihl, ihr]
  | group a t b ih => exact ih

/-! ## Well-formed trees -/

/-- The operator at the root, for a tree that is not a number, a call or a group. -/
def root? : Tree → Option Operator
  | binary _ o _ => Operator.ofText? o.text
  | _ => none

/-- Whether a tree can stand left of an operator without parentheses. -/
def fitsLeft (o : Operator) (t : Tree) : Bool :=
  match t.root? with
  | none => true
  | some p => o.precedence < p.precedence || (o.precedence = p.precedence && o.grouping = .left)

/-- Whether a tree can stand right of an operator without parentheses. -/
def fitsRight (o : Operator) (t : Tree) : Bool :=
  match t.root? with
  | none => true
  | some p => o.precedence < p.precedence || (o.precedence = p.precedence && o.grouping = .right)

/-- Whether a tree can be an argument without parentheses of its own. -/
def isArgument : Tree → Bool
  | binary .. => false
  | _ => true

/-- Every token is of its kind, and every operand stands where its operator allows. -/
inductive Formed : Tree → Prop
  | number {t} : t.kind = .number → Formed (number t)
  | call {f x} : f.kind = .identifier → f.opens = false → x.isArgument = true → Formed x → Formed (call f x)
  | binary {l o r p} : o.kind = .operator → Operator.ofText? o.text = some p →
      fitsLeft p l = true → fitsRight p r = true → Formed l → Formed r → Formed (binary l o r)
  | group {a t b} : a.kind = .parenthesis → a.opens = true → b.kind = .parenthesis → b.text = [')'] →
      Formed t → Formed (group a t b)

end Tree

end Reckoner
