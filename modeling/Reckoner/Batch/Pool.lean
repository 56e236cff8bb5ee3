import Reckoner.Worker

/-!
# Pools of workers

Workers run beside the batch that started them and hand their outcomes over
through pipes. A collection takes what has arrived: one outcome from every worker
that sent something or has ended, in the order in which the workers were added.
-/

namespace Reckoner

/-! ## Processes -/

/-- A worker as the batch sees it: what it was started for, and the state of its pipe. -/
structure Runner where
  id : Text
  line : Int
  expression : Text
  exitCode : Int
  /-- What the worker sent and nobody took yet. -/
  inbox : List Value := []
  /-- Whether the worker's end of the pipe is closed. -/
  ended : Bool := false
  /-- Whether the batch's end of the pipe is closed. -/
  closed : Bool := false
  joined : Bool := false
  active : Bool := true

inductive CollectFault
  | invalid (flaws : List Flaw)
  | notARecord
  | closedPipe
  deriving DecidableEq, Repr

namespace Runner

/-- Reading from the pipe would not block. -/
def ready (p : Runner) : Bool := !p.inbox.isEmpty || p.ended

def exitText (p : Runner) : Text := "exited with code ".toList ++ Text.integer p.exitCode

def obituary (p : Runner) : Record :=
  [("line".toList, .int p.line), ("expression".toList, .text p.expression),
    ("error".toList, .text ("worker ".toList ++ p.exitText))]

def obituaryEntry (p : Runner) : Entry :=
  ⟨.error, "👷💥 Worker for line ".toList ++ Text.integer p.line ++ [' '] ++ p.exitText⟩

/-- A runner whose worker's message was taken, with the outcome in it. -/
def accept (p : Runner) : Checked Outcome → Runner × Except CollectFault Outcome
  | .good outcome => ({ p with closed := true, joined := true }, .ok outcome)
  | .flawed flaws => ({ p with closed := true }, .error (.invalid flaws))

/-- Takes one outcome from a ready runner. Its pipe is closed in any case; it is
joined when it sent a good record, or had ended. -/
def settle (p : Runner) : Runner × Log × Except CollectFault Outcome :=
  match p.inbox with
  | .record r :: rest =>
    let (p', outcome) := { p with inbox := rest }.accept (Outcome.ofRecord r)
    (p', [], outcome)
  | _ :: rest => ({ p with inbox := rest, closed := true }, [], .error .notARecord)
  | [] =>
    let (p', outcome) := { p with joined := true }.accept (Outcome.ofRecord p.obituary)
    (p', [p.obituaryEntry], outcome)

end Runner

/-! ## Ledgers -/

/-- The outcomes collected so far, and the output file, which grows with them. -/
structure Ledger where
  results : List Outcome
  output : Text

namespace Ledger

def empty : Ledger := ⟨[], []⟩

def add (l : Ledger) (o : Outcome) : Ledger :=
  ⟨l.results ++ [o], l.output ++ o.render ++ ['\n']⟩

end Ledger

/-! ## Collecting -/

structure Pool where
  /-- Every worker ever started, in that order. -/
  runners : List Runner
  ledger : Ledger

namespace Pool

def empty : Pool := ⟨[], .empty⟩

def active (pool : Pool) : List Runner := pool.runners.filter Runner.active

/-- Settles every active runner that is ready; stops at the first fault, and leaves
the runners after it alone. -/
def settleAll : List Runner → Ledger → List Runner × Ledger × Log × Option CollectFault
  | [], ledger => ([], ledger, [], none)
  | p :: rest, ledger =>
    if p.active && p.ready then
      match p.settle with
      | (p', log, .error fault) => (p' :: rest, ledger, log, some fault)
      | (p', log, .ok outcome) =>
        let (rest', ledger', more, fault) := settleAll rest (ledger.add outcome)
        (p' :: rest', ledger', log ++ more, fault)
    else
      let (rest', ledger', log, fault) := settleAll rest ledger
      (p :: rest', ledger', log, fault)

def retire (p : Runner) : Runner := { p with active := p.active && !p.closed }

/-- One collection. After a fault every runner stays in the state it is in, and
those whose pipe is closed make the next collection fail. -/
def collect (pool : Pool) : Pool × Log × Option CollectFault :=
  if pool.active.any Runner.closed then (pool, [], some .closedPipe)
  else
    match settleAll pool.runners pool.ledger with
    | (runners, ledger, log, none) => (⟨runners.map retire, ledger⟩, log, none)
    | (runners, ledger, log, some fault) => (⟨runners, ledger⟩, log, some fault)

/-! ## Steps -/

def add (pool : Pool) (p : Runner) : Pool := { pool with runners := pool.runners ++ [p] }

def update (pool : Pool) (id : Text) (f : Runner → Runner) : Pool :=
  { pool with runners := pool.runners.map fun p => if p.id = id then f p else p }

inductive Step
  | add (id : Text) (line : Int) (expression : Text) (exitCode : Int)
  | send (id : Text) (payload : Value)
  | finish (id : Text)
  | collect

def step (pool : Pool) : Step → Pool × Log × Option CollectFault
  | .add id line expression exitCode => (pool.add { id, line, expression, exitCode }, [], none)
  | .send id payload => (pool.update id fun p => { p with inbox := p.inbox ++ [payload] }, [], none)
  | .finish id => (pool.update id fun p => { p with ended := true }, [], none)
  | .collect => pool.collect

end Pool

end Reckoner
