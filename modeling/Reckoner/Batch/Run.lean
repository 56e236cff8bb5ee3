import Reckoner.Batch.Pool
import Reckoner.File.Source

/-!
# Batches

A batch starts a worker for every expression of a file, no more at a time than a
limit, and writes each outcome as it is collected. Which workers are ready at a
collection, and which of them die, is a schedule's choice.
-/

namespace Reckoner.Batch

/-! ## Schedules -/

/-- `ready n k` says whether the worker of line `k` is ready at collection `n`, and
`death k` the exit code of that worker if it dies before it sends anything. -/
structure Schedule where
  ready : Nat → Nat → Bool
  death : Nat → Option Int

/-- Every worker is ready at once, and none dies. -/
def Schedule.prompt : Schedule := ⟨fun _ _ => true, fun _ => none⟩

/-- The workers that a collection finds ready. It waits until there is one: the
oldest, where the schedule names none. -/
def Schedule.choose (s : Schedule) (collection : Nat) (active : List Runner) : List Runner :=
  let chosen := active.filter fun p => s.ready collection p.line.toNat
  if chosen.isEmpty then active.take 1 else chosen

/-! ## Steps of a run -/

structure Plan where
  mode : Mode
  limit : Nat
  schedule : Schedule

/-- The lines still to start, the workers started, and the number of collections. -/
structure State where
  waiting : List Line
  pool : Pool
  collections : Nat

def State.start (lines : List Line) : State := ⟨lines, .empty, 0⟩

def State.finished (s : State) : Bool := s.waiting.isEmpty && s.pool.active.isEmpty

def runnerOf (w : Worker) : Runner :=
  { id := Text.natural w.line, line := w.line, expression := w.expression, exitCode := 0 }

def spawn (plan : Plan) (l : Line) (pool : Pool) : Except CollectFault Pool :=
  match Worker.ofRecord (Worker.toRecord ⟨l.text, l.number, plan.mode⟩) with
  | .good w => .ok (pool.add (runnerOf w))
  | .flawed flaws => .error (.invalid flaws)

/-- What a worker leaves in its pipe when it ends: its outcome, or nothing if it dies. -/
def deliver (plan : Plan) (p : Runner) : Runner :=
  match plan.schedule.death p.line.toNat with
  | some code => { p with ended := true, exitCode := code }
  | none =>
    match (Worker.run ⟨p.expression, p.line.toNat, plan.mode⟩).sent with
    | .ok outcome => { p with inbox := [.record outcome.toRecord], ended := true }
    | .error _ => { p with ended := true, exitCode := 1 }

/-- The pool when a collection has waited: the workers chosen have ended. -/
def await (plan : Plan) (collection : Nat) (pool : Pool) : Pool :=
  let chosen := (plan.schedule.choose collection pool.active).map Runner.id
  { pool with runners := pool.runners.map fun p =>
      if p.active && chosen.contains p.id then deliver plan p else p }

/-- Why a batch stopped before its end, with the state and the log that it leaves. -/
structure Halt where
  fault : CollectFault
  state : State
  log : Log

/-- The same after a part of the run that has logged `log`. -/
def Halt.after (log : Log) (h : Halt) : Halt := { h with log := log ++ h.log }

def collect (plan : Plan) (s : State) : Except Halt (State × Log) :=
  match (await plan s.collections s.pool).collect with
  | (pool, log, some fault) => .error ⟨fault, { s with pool, collections := s.collections + 1 }, log⟩
  | (pool, log, none) => .ok ({ s with pool, collections := s.collections + 1 }, log)

/-- One step: start the next worker if there is room for it, else collect. -/
def step (plan : Plan) (s : State) : Except Halt (State × Log) :=
  match s.waiting with
  | l :: rest =>
    if s.pool.active.length < plan.limit then
      match spawn plan l s.pool with
      | .ok pool => .ok ({ s with waiting := rest, pool }, [])
      | .error fault => .error ⟨fault, s, []⟩
    else collect plan s
  | [] => if s.pool.active.isEmpty then .ok (s, []) else collect plan s

def advance (plan : Plan) : Nat → State → Except Halt (State × Log)
  | 0, s => .ok (s, [])
  | n + 1, s => do
    let (s', log) ← step plan s
    let (s'', more) ← (advance plan n s').mapError (Halt.after log)
    return (s'', log ++ more)

/-- Every line is started once and collected once, so two steps a line are enough. -/
def run (plan : Plan) (lines : List Line) : Except Halt (State × Log) :=
  advance plan (2 * lines.length) (.start lines)

/-! ## From file to file -/

/-- What to evaluate, where to write, how, and how many workers at a time. -/
structure Job where
  input : Path
  output : Path
  mode : Mode
  maxWorkers : Option Nat
  deriving DecidableEq, Repr

def path : Reader Path
  | .text t => .ok (.ofText t)
  | _ => .error .notAPath

/-- A path at which there is a file. -/
def existingFile (tree : FileTree) : Reader Path := fun v =>
  match path v with
  | .ok p => if tree.isFile p then .ok p else .error .notAFile
  | .error complaint => .error complaint

def Job.ofRecord (tree : FileTree) (r : Record) : Checked Job :=
  Job.mk <$> r.required "input_file" (existingFile tree)
    <*> r.required "output_file" path
    <*> r.withDefault "mode" .twoPass (Reader.oneOf Mode.ofText?)
    <*> r.withDefault "max_workers" none (Reader.optional (Reader.atLeast 1))

inductive Fault
  | noInput
  | read (fault : Source.Fault)
  | write (fault : FileTree.WriteFault)
  | collect (fault : CollectFault)
  deriving DecidableEq, Repr

/-- What a job leaves: its results in the order of their lines, or the fault that ended
it, and in either case its log, the files, and the workers that it started. -/
structure Report where
  results : Except Fault (List Outcome)
  log : Log
  tree : FileTree
  started : List Runner

def loadedEntry (job : Job) (count : Nat) : Entry :=
  ⟨.info, "📥 Loaded ".toList ++ Text.natural count ++ " expressions from ".toList ++ job.input.toText⟩

def wroteEntry (job : Job) (results : List Outcome) : Entry :=
  let failed := (results.filter fun o => !o.succeeded).length
  ⟨.info, "📝 Wrote ".toList ++ Text.natural results.length ++ " results to ".toList ++
    job.output.toText ++ " (".toList ++ Text.natural failed ++ " failed)".toList⟩

def sortByLine (results : List Outcome) : List Outcome :=
  results.mergeSort fun a b => decide (a.line ≤ b.line)

/-- The limit on workers at a time: the job's own, else one for each processor, and
never more than there are expressions. -/
def Job.limit (job : Job) (processors count : Nat) : Nat :=
  min (job.maxWorkers.getD processors) count

/-- Evaluates the lines and puts their outcomes into the output file at `key`. -/
def evaluate (job : Job) (processors : Nat) (schedule : Schedule) (tree : FileTree)
    (key : FileKey) (lines : List Line) : Report :=
  let write (output : Text) : FileTree := tree.put key (.bytes (Utf8.encode output))
  if lines.isEmpty then ⟨.ok [], [], write [], []⟩
  else
    match run ⟨job.mode, job.limit processors lines.length, schedule⟩ lines with
    | .error halt =>
      let pool := halt.state.pool
      ⟨.error (.collect halt.fault), halt.log, write pool.ledger.output, pool.runners⟩
    | .ok (s, log) =>
      let ledger := s.pool.ledger
      ⟨.ok (sortByLine ledger.results), log ++ [wroteEntry job ledger.results],
        write ledger.output, s.pool.runners⟩

/-- Reads the input before anything else, and opens the output before it starts a worker. -/
def Job.run (job : Job) (lib : Library) (processors : Nat) (schedule : Schedule) (tree : FileTree) : Report :=
  match tree.place job.input with
  | .file _ content =>
    match Source.read lib job.input content with
    | .error fault => ⟨.error (.read fault), [], tree, []⟩
    | .ok lines =>
      let loaded := loadedEntry job lines.length
      match tree.keyFor job.output with
      | .error fault => ⟨.error (.write fault), [loaded], tree, []⟩
      | .ok key =>
        let report := evaluate job processors schedule tree key lines
        { report with log := loaded :: report.log }
  | _ => ⟨.error .noInput, [], tree, []⟩

end Reckoner.Batch
