import Reckoner.Record.Value

/-!
# Log

What the program reports beside its results. Entries have a severity; those below
the level in force are dropped.
-/

namespace Reckoner

inductive Severity
  | debug
  | info
  | error
  deriving DecidableEq, Repr

structure Entry where
  severity : Severity
  message : Text
  deriving DecidableEq, Repr

abbrev Log := List Entry

/-! ## Levels -/

/-- A level in force: the least severity that is kept, or zero for none of its own. -/
abbrev Level := Int

def Severity.level : Severity → Level
  | .debug => 10
  | .info => 20
  | .error => 40

def Level.names : List (Text × Level) :=
  [("CRITICAL".toList, 50), ("FATAL".toList, 50), ("ERROR".toList, 40), ("WARN".toList, 30),
    ("WARNING".toList, 30), ("INFO".toList, 20), ("DEBUG".toList, 10), ("NOTSET".toList, 0)]

def Level.ofText? (t : Text) : Option Level := Level.names.lookup t.upper

def Level.standard : Level := 20

/-- Without a level of its own the program keeps warnings and all above them. -/
def Level.threshold (l : Level) : Int := if l = 0 then 30 else l

def Log.kept (log : Log) (l : Level) : Log := log.filter fun e => l.threshold ≤ e.severity.level

/-! ## Setting a level -/

inductive LevelFault
  | unknown (name : Text)
  | notALevel
  deriving DecidableEq, Repr

def LevelFault.message : LevelFault → Option Text
  | unknown name => some ("Unknown log level: ".toList ++ name)
  | notALevel => none

def Level.ofValue : Value → Except LevelFault Level
  | .text t => match Level.ofText? t with
    | some l => .ok l
    | none => .error (.unknown t)
  | .int n => .ok n
  | .bool b => .ok b.toInt
  | _ => .error .notALevel

end Reckoner
