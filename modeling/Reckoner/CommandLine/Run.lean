import Reckoner.Batch.Run
import Reckoner.CommandLine.Arguments

/-!
# The command line

Evaluates the expression that is given, or every expression of the file that is
given, into a file beside it. The exit status is 0 when all went well, 1 when an
expression or the file has a fault, and 2 when the arguments are refused.
-/

namespace Reckoner.CommandLine

/-! ## Settings -/

inductive Target
  | expression (e : Text)
  | file (p : Path)
  deriving DecidableEq, Repr

structure Settings where
  target : Target
  mode : Mode
  rpn : Bool
  level : Level
  deriving DecidableEq, Repr

def levelNames : List Text :=
  ["DEBUG".toList, "INFO".toList, "WARNING".toList, "ERROR".toList, "CRITICAL".toList]

/-- An expression or a file that exists, and not both. -/
def Draft.target? (tree : FileTree) (d : Draft) : Option Target :=
  match d.expression, d.file with
  | some e, none => some (.expression e)
  | none, some file => if tree.isFile (.ofText file) then some (.file (.ofText file)) else none
  | _, _ => none

def Draft.settings? (tree : FileTree) (d : Draft) : Option Settings :=
  if levelNames.contains d.level then do
    return ⟨← d.target? tree, ← d.mode, d.rpn, ← Level.ofText? d.level⟩
  else none

/-! ## Endings -/

/-- How a run ends. The last three are faults that nobody handles. -/
inductive Ending
  | refused
  | help
  | exit (status : Nat) (stdout stderr : Text)
  | brokenBatch (fault : Batch.Fault)
  | brokenExpression (fault : Fault)
  | nameless (n : Path.Nameless)

/-- How a run ends, what it reports on the way, and the files afterwards. -/
structure Run where
  ending : Ending
  log : Log
  tree : FileTree

def failure (message : Text) : Ending := .exit 1 [] ("error: ".toList ++ message ++ ['\n'])

def success (text : Text) : Ending := .exit 0 (text ++ ['\n']) []

/-! ## One expression -/

def rejectedEntry (e : Text) : Entry := ⟨.debug, "Rejected expression ".toList ++ e.quoted⟩

/-- What is printed for an expression: its value, or itself in reverse Polish notation. -/
def answer (s : Settings) (e : Text) : Except Fault Text :=
  if s.rpn then toRpn e else (Rules.standard.evaluate s.mode e).map Text.float

def runExpression (tree : FileTree) (s : Settings) (e : Text) : Run :=
  match Request.ofRecord [("expression".toList, .text e), ("mode".toList, .text s.mode.name)] with
  | .flawed _ => ⟨failure "expression cannot be empty".toList, [], tree⟩
  | .good _ =>
    match answer s e with
    | .ok text => ⟨success text, [], tree⟩
    | .error fault =>
      if fault.isExpression then ⟨failure fault.message, [rejectedEntry e], tree⟩
      else ⟨.brokenExpression fault, [], tree⟩

/-! ## A file of expressions -/

/-- The end of a batch whose results go to `output`. -/
def endingOf (output : Path) : Except Batch.Fault (List Outcome) → Ending
  | .ok results =>
    .exit (if results.all Outcome.succeeded then 0 else 1)
      (Text.natural results.length ++ " results written to ".toList ++ output.toText ++ ['\n']) []
  | .error (.read fault) =>
    match fault.message? with
    | some message => failure message
    | none => .brokenBatch (.read fault)
  | .error fault => .brokenBatch fault

section
variable (lib : Library) (tree : FileTree) (processors : Nat) (schedule : Batch.Schedule)

def runFile (s : Settings) (p : Path) : Run :=
  match p.results with
  | .error n => ⟨.nameless n, [], tree⟩
  | .ok output =>
    let report := (Batch.Job.mk p output s.mode none).run lib processors schedule tree
    ⟨endingOf output report.results, report.log, report.tree⟩

theorem runFile_of_results {s : Settings} {p output : Path} (h : p.results = .ok output) :
    runFile lib tree processors schedule s p =
      ⟨endingOf output ((Batch.Job.mk p output s.mode none).run lib processors schedule tree).results,
        ((Batch.Job.mk p output s.mode none).run lib processors schedule tree).log,
        ((Batch.Job.mk p output s.mode none).run lib processors schedule tree).tree⟩ := by
  unfold runFile
  rw [h]

/-! ## Everything -/

def runSettings (s : Settings) : Run :=
  match s.target with
  | .expression e => runExpression tree s e
  | .file p => runFile lib tree processors schedule s p

/-- A run over the files of a tree, and the level that it puts in force; refused
arguments leave the level as it is. -/
def run (args : List Text) : Run × Option Level :=
  match read args with
  | .error .refused => (⟨.refused, [], tree⟩, none)
  | .error .help => (⟨.help, [], tree⟩, none)
  | .ok d =>
    match d.settings? tree with
    | none => (⟨.refused, [], tree⟩, none)
    | some s => (runSettings lib tree processors schedule s, some s.level)

end

end Reckoner.CommandLine
