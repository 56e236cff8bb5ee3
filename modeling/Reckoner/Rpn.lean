import Reckoner.Operator
import Reckoner.Token.Basic

/-!
# Reverse Polish notation

Infix tokens leave in the order in which they are to be applied. Numbers leave at
once; functions, operators and opening parentheses wait on a stack, whose top is
the head of a list. A token that leaves is handed on before the conversion goes on,
so whoever takes it can stop the conversion before it meets a fault of its own.
-/

namespace Reckoner.Rpn

/-- The tokens that leave, in order, and what is behind the last of them: the stack
that stays, or the fault that ends the conversion there. -/
structure Release where
  out : List Token
  rest : Except Fault (List Token)

/-- Hands each token that leaves to `take`, whose faults come first, and goes on to
what is behind them. -/
def Release.feed {σ : Type} (r : Release) (take : σ → Token → Except Fault σ) (acc : σ) :
    Except Fault (σ × List Token) := do
  let acc ← r.out.foldlM take acc
  let rest ← r.rest
  return (acc, rest)

/-! ## One token -/

def precedence (symbol : Text) : Except Fault Nat :=
  match Operator.ofText? symbol with
  | none => .error (.unknownOperator symbol)
  | some o => .ok o.precedence

def grouping (symbol : Text) : Except Fault Grouping :=
  match Operator.ofText? symbol with
  | none => .error (.unknownOperator symbol)
  | some o => .ok o.grouping

/-- Whether `top` leaves the stack before the operator `incoming` is put on it.
Functions bind tighter than every operator. -/
def leavesBefore (top incoming : Token) : Except Fault Bool :=
  if top.opens then .ok false
  else if top.kind = .identifier then .ok true
  else do
    let above ← precedence top.text
    let own ← precedence incoming.text
    if own < above then return true
    else if above = own then return (← grouping incoming.text) = .left
    else return false

/-- Lets entries leave before an operator as long as the top one has to. -/
def unwind (incoming : Token) : List Token → Release
  | [] => ⟨[], .ok []⟩
  | top :: below =>
    match leavesBefore top incoming with
    | .error fault => ⟨[], .error fault⟩
    | .ok false => ⟨[], .ok (top :: below)⟩
    | .ok true =>
      let after := unwind incoming below
      ⟨top :: after.out, after.rest⟩

/-- Lets the entries above the last opening parenthesis leave, and the function before
that one. -/
def close (stack : List Token) : Release :=
  let out := stack.takeWhile (!·.opens)
  match stack.dropWhile (!·.opens) with
  | [] => ⟨out, .error .mismatched⟩
  | _ :: [] => ⟨out, .ok []⟩
  | _ :: next :: below =>
    if next.kind = .identifier then ⟨out ++ [next], .ok below⟩ else ⟨out, .ok (next :: below)⟩

def release (token : Token) (stack : List Token) : Release :=
  match token.kind with
  | .number => ⟨[token], .ok stack⟩
  | .identifier => ⟨[], .ok (token :: stack)⟩
  | .operator =>
    let before := unwind token stack
    ⟨before.out, before.rest.map (token :: ·)⟩
  | .parenthesis => if token.opens then ⟨[], .ok (token :: stack)⟩ else close stack

/-- At the end everything leaves, top first, up to a parenthesis that is still open. -/
def flush (stack : List Token) : Release :=
  ⟨stack.takeWhile (!·.opens), if stack.any Token.opens then .error .mismatched else .ok []⟩

/-! ## All tokens -/

variable {σ : Type}

/-- Converts tokens over a stack; `take` takes each token that leaves. -/
def convertFrom (take : σ → Token → Except Fault σ) : List Token → List Token → σ → Except Fault σ
  | [], stack, acc => ((flush stack).feed take acc).map Prod.fst
  | token :: tokens, stack, acc => do
    let (acc, rest) ← (release token stack).feed take acc
    convertFrom take tokens rest acc

def convert (take : σ → Token → Except Fault σ) (start : σ) (tokens : List Token) : Except Fault σ :=
  convertFrom take tokens [] start

def ofTokens (tokens : List Token) : Except Fault (List Token) :=
  (convert (fun out t => .ok (t :: out)) [] tokens).map List.reverse

end Reckoner.Rpn
