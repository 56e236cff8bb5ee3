import Reckoner.Operator
import Reckoner.Token.Basic

/-!
# Tokens of a text

A scan reads the longest token at every place and skips blanks. A minus belongs
to the numeral right after it where an operand may start: in infix order that is
at the start, after an operator and after an opening parenthesis, in reversed
order everywhere.
-/

namespace Reckoner

/-- Where operators stand: between their operands, or after them. -/
inductive Order
  | infixed
  | reversed
  deriving DecidableEq, Repr

/-! ## Lexemes -/

def isLetter (c : Char) : Bool := 'a' ≤ c && c ≤ 'z'

def isSymbol (c : Char) : Bool := Operator.all.any (·.symbol == c)

def isParenthesis (c : Char) : Bool := c == '(' || c == ')'

/-- The longest numeral that a text starts with, empty if there is none: digits,
or digits with one point before or among them. -/
def leadingNumeral (t : Text) : Text :=
  let whole := t.takeWhile isDigit
  match t.dropWhile isDigit with
  | '.' :: rest =>
    let places := rest.takeWhile isDigit
    if places.isEmpty then whole else whole ++ '.' :: places
  | _ => whole

/-- Whether a minus after `previous` is a sign and no subtraction. -/
def signs (order : Order) (previous : Option Token) : Bool :=
  order = .reversed ||
    match previous with
    | none => true
    | some t => t.kind = .operator || t.opens

/-- The kind and text of the token that a text starts with; a blank starts none. -/
def lexeme? (sign : Bool) (t : Text) : Option (Kind × Text) :=
  if leadingNumeral t ≠ [] then some (.number, leadingNumeral t)
  else match t with
    | [] => none
    | c :: rest =>
      if isLetter c then some (.identifier, t.takeWhile isLetter)
      else if c = '-' ∧ sign = true ∧ leadingNumeral rest ≠ [] then
        some (.number, '-' :: leadingNumeral rest)
      else if isSymbol c then some (.operator, [c])
      else if isParenthesis c then some (.parenthesis, [c])
      else none

/-! ## Scanning -/

/-- Scans from `position` on, where the next `skip` characters belong to the token
before. -/
def scanFrom (order : Order) (previous : Option Token) (position skip : Nat) :
    Text → Except Fault (List Token)
  | [] => .ok []
  | c :: rest =>
    match skip with
    | skip + 1 => scanFrom order previous (position + 1) skip rest
    | 0 =>
      if isBlank c then scanFrom order previous (position + 1) 0 rest
      else match lexeme? (signs order previous) (c :: rest) with
        | none => .error (.unexpected c position)
        | some (kind, text) =>
          let token : Token := ⟨kind, text, position⟩
          (scanFrom order (some token) (position + 1) (text.length - 1) rest).map (token :: ·)

def scan (order : Order) (t : Text) : Except Fault (List Token) := scanFrom order none 0 0 t

theorem scanFrom_blank {c : Char} (h : isBlank c = true) (order : Order) (previous : Option Token)
    (position : Nat) (rest : Text) :
    scanFrom order previous position 0 (c :: rest) = scanFrom order previous (position + 1) 0 rest := by
  simp [scanFrom, h]

theorem scanFrom_skip (order : Order) (previous : Option Token) (skip position : Nat) (t : Text)
    (h : skip ≤ t.length) :
    scanFrom order previous position skip t =
      scanFrom order previous (position + skip) 0 (t.drop skip) := by
  induction skip generalizing position t with
  | zero => rfl
  | succ skip ih =>
    cases t with
    | nil => cases h
    | cons c rest =>
      rw [scanFrom, ih (position + 1) rest (Nat.le_of_succ_le_succ h)]
      simp [Nat.add_assoc, Nat.add_comm 1]

end Reckoner
