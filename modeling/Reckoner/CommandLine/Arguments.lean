import Reckoner.Evaluate
import Reckoner.Text.Digit

/-!
# Arguments

The command line takes one expression among its switches. A long switch may be cut
short as long as it stays the only one, and carries its value behind an equals sign
or in the next argument; letters may stand together behind one dash. Two dashes end
the switches. A negative number, and whatever holds a space, is no switch. What has
no place among the arguments is refused when all of them are read, so a switch that
asks for help comes before it.
-/

namespace Reckoner.CommandLine

/-! ## Switches -/

inductive Switch
  | help
  | file
  | mode
  | rpn
  | level
  deriving DecidableEq, Repr

namespace Switch

def all : List Switch := [help, file, mode, rpn, level]

def name : Switch → Text
  | help => "help".toList
  | file => "file".toList
  | mode => "mode".toList
  | rpn => "postfix".toList
  | level => "log-level".toList

def letter? : Switch → Option Char
  | help => some 'h'
  | file => some 'f'
  | mode => some 'm'
  | rpn => some 'p'
  | level => none

def takesValue : Switch → Bool
  | help | rpn => false
  | file | mode | level => true

def ofLetter? (c : Char) : Option Switch := all.find? (·.letter? == some c)

def startingWith (start : Text) : List Switch := all.filter fun s => start.isPrefixOf s.name

end Switch

/-! ## Letters -/

/-- Switches of one argument: those without a value, and the last one, with the value
that is attached to it. -/
structure Group where
  flags : List Switch
  last : Switch
  attached : Option Text
  deriving DecidableEq, Repr

/-- The switches from `s` on: behind one that takes a value stands that value, behind
any other the letter of the next one. -/
def lettersFrom (s : Switch) : Text → Option Group
  | [] => some ⟨[], s, none⟩
  | c :: rest =>
    if s.takesValue then some ⟨[], s, some (c :: rest)⟩
    else do
      let next ← Switch.ofLetter? c
      let group ← lettersFrom next rest
      return { group with flags := s :: group.flags }

/-- The switches of an argument that starts with the letter of `s`. An equals sign may
stand behind that letter, and then a value, which may be empty, or more letters. -/
def letters? (s : Switch) : Text → Option Group
  | '=' :: behind =>
    if s.takesValue then some ⟨[], s, some behind⟩
    else if behind.isEmpty then none
    else lettersFrom s behind
  | behind => lettersFrom s behind

/-- A long switch and the value that is attached to it; only one that takes a value may have it. -/
def long? (s : Switch) (attached : Option Text) : Option Group :=
  if attached.isSome && !s.takesValue then none else some ⟨[], s, attached⟩

/-! ## Arguments one by one -/

inductive Word
  | plain
  | switches (g : Group)
  /-- A switch with something behind it that does not belong there. -/
  | malformed
  /-- The start of more than one long switch. -/
  | ambiguous
  | unknown
  deriving DecidableEq, Repr

/-- Digits with at most one point, not at their end. A line feed may follow. -/
def isNumeral (t : Text) : Bool :=
  let body := if t.getLast? = some '\n' then t.dropLast else t
  match body.dropWhile isAnyDigit with
  | [] => !body.isEmpty
  | '.' :: places => !places.isEmpty && places.all isAnyDigit
  | _ => false

/-- An argument that starts with a dash and is no switch: plain if it looks like a
number or holds a space. -/
def strange (behind : Text) : Word :=
  if isNumeral behind || behind.contains ' ' then .plain else .unknown

def Word.ofGroup : Option Group → Word
  | some g => .switches g
  | none => .malformed

def classify : Text → Word
  | '-' :: '-' :: body =>
    let (start, attached) := match Text.cut? '=' body with
      | some (before, after) => (before, some after)
      | none => (body, none)
    match Switch.startingWith start with
    | [s] => .ofGroup (long? s attached)
    | [] => strange ('-' :: body)
    | _ => .ambiguous
  | '-' :: c :: rest =>
    match Switch.ofLetter? c with
    | some s => .ofGroup (letters? s rest)
    | none => strange (c :: rest)
  | _ => .plain

/-- The argument that ends the switches. -/
def ending : Text := ['-', '-']

/-! ## Drafts -/

/-- What the arguments read so far say. A mode that is not there is a switch that
has lost its value. -/
structure Draft where
  expression : Option Text := none
  file : Option Text := none
  mode : Option Mode := some .twoPass
  rpn : Bool := false
  level : Text := "WARNING".toList
  deriving DecidableEq, Repr

inductive Stop
  | refused
  | help
  deriving DecidableEq, Repr

namespace Draft

/-- Leaves a switch without the value it takes. No file has an empty name, and no
level either, so this is refused in the end unless a value is given later. -/
def clear (d : Draft) : Switch → Draft
  | .file => { d with file := some [] }
  | .mode => { d with mode := none }
  | .level => { d with level := [] }
  | .help | .rpn => d

/-- Gives a switch its value; a later value replaces an earlier one. Two dashes are
no value. -/
def set (d : Draft) (s : Switch) (value : Text) : Except Stop Draft :=
  if value = ending then .ok (d.clear s)
  else match s with
    | .file => .ok { d with file := some value }
    | .mode => match Mode.ofText? value with
      | some mode => .ok { d with mode := some mode }
      | none => .error .refused
    | .level => .ok { d with level := value.upper }
    | .help | .rpn => .error .refused

def turnOn (d : Draft) (s : Switch) : Except Stop Draft :=
  match s with
  | .help => .error .help
  | .rpn => .ok { d with rpn := true }
  | .file | .mode | .level => .error .refused

def turnAllOn (d : Draft) (flags : List Switch) : Except Stop Draft := flags.foldlM turnOn d

/-- What follows two dashes: the expression, if there is none yet, and nothing else.
Behind an expression the two dashes are allowed, but only right behind it. -/
def readRest (d : Draft) (afterExpression : Bool) : List Text → Except Stop Draft
  | [] => if d.expression.isNone || afterExpression then .ok d else .error .refused
  | [e] => if d.expression.isNone then .ok { d with expression := some e } else .error .refused
  | _ => .error .refused

end Draft

/-! ## All arguments -/

/-- How far reading has come: whether the argument before was the expression, and
whether any argument so far has no place. -/
structure Progress where
  draft : Draft
  afterExpression : Bool
  misplaced : Bool
  deriving DecidableEq, Repr

namespace Progress

def start : Progress := ⟨{}, false, false⟩

def plain (p : Progress) (arg : Text) : Progress :=
  if p.draft.expression.isNone then { p with draft := { p.draft with expression := some arg }, afterExpression := true }
  else { p with misplaced := true }

def switch (p : Progress) (draft : Draft) : Progress := { p with draft, afterExpression := false }

def finish (p : Progress) (draft : Draft) : Except Stop Draft :=
  if p.misplaced then .error .refused else .ok draft

end Progress

/-- Reads arguments one after the other. All switches of an argument have what they
need before the first of them takes effect. -/
def readFrom (p : Progress) : List Text → Except Stop Draft
  | [] => p.finish p.draft
  | arg :: rest =>
    if arg = ending then do p.finish (← p.draft.readRest p.afterExpression rest)
    else match classify arg with
      | .plain => readFrom (p.plain arg) rest
      | .unknown => readFrom { p.switch p.draft with misplaced := true } rest
      | .malformed | .ambiguous => .error .refused
      | .switches ⟨flags, last, some value⟩ => do
        let d ← p.draft.turnAllOn flags
        readFrom (p.switch (← d.set last value)) rest
      | .switches ⟨flags, last, none⟩ =>
        if last.takesValue then
          match rest with
          | [] => .error .refused
          | value :: rest =>
            if value = ending || classify value != .plain then .error .refused
            else do
              let d ← p.draft.turnAllOn flags
              readFrom (p.switch (← d.set last value)) rest
        else do
          let d ← p.draft.turnAllOn flags
          readFrom (p.switch (← d.turnOn last)) rest

/-- An ambiguous switch is refused before any other takes effect. -/
def read (args : List Text) : Except Stop Draft :=
  if (args.takeWhile (· != ending)).any (classify · == .ambiguous) then .error .refused
  else readFrom .start args

def usage : Text :=
  ("usage: reckoner [-h] [-f FILE_PATH] [-m MODE] [-p] [--log-level LOG_LEVEL] [expression]\n\n" ++
    "  -h, --help              print this and end\n" ++
    "  -f, --file FILE_PATH    evaluate a file or archive with one expression per line\n" ++
    "  -m, --mode MODE         two-pass or fused\n" ++
    "  -p, --postfix           print the postfix form instead of the value\n" ++
    "  --log-level LOG_LEVEL   what to report on the way\n").toList

end Reckoner.CommandLine
