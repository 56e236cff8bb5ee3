import Reckoner.CommandLine.Run
import Reckoner.Proofs.Containment

/-!
# Modes

Nothing that a batch or a command line does depends on the mode: not what is printed or
written, not the log, and not the faults.
-/

namespace Reckoner

/-! ## Batches -/

theorem Worker.ofRecord_toRecord_eq (w : Worker) :
    ofRecord w.toRecord =
      Worker.mk <$> Record.named "expression".toList (Reader.expression (.text w.expression))
        <*> Record.named "line_number".toList (Reader.atLeast 1 (.int w.line)) <*> .good w.mode := by
  obtain ⟨e, line, mode⟩ := w
  cases mode <;> rfl

namespace Batch

variable (plan : Plan) (mode : Mode)

theorem spawn_mode (l : Line) (pool : Pool) : spawn { plan with mode } l pool = spawn plan l pool := by
  unfold spawn
  rw [Worker.ofRecord_toRecord_eq, Worker.ofRecord_toRecord_eq]
  dsimp only
  cases Record.named _ (Reader.expression (.text l.text)) <;>
    cases Record.named _ (Reader.atLeast 1 (.int l.number)) <;> rfl

theorem deliver_mode (p : Runner) : deliver { plan with mode } p = deliver plan p := by
  have hrun := Worker.run_mode ⟨p.expression, p.line.toNat, plan.mode⟩ mode
  unfold deliver
  dsimp only at hrun ⊢
  rw [hrun]

theorem collect_mode (s : State) : collect { plan with mode } s = collect plan s := by
  have hawait : await { plan with mode } s.collections s.pool = await plan s.collections s.pool := by
    unfold await
    simp only [deliver_mode]
  unfold collect
  rw [hawait]

theorem step_mode (s : State) : step { plan with mode } s = step plan s := by
  unfold step
  simp only [spawn_mode, collect_mode]

theorem advance_mode (n : Nat) (s : State) : advance { plan with mode } n s = advance plan n s := by
  induction n generalizing s with
  | zero => rfl
  | succ n ih =>
    unfold advance
    simp only [step_mode, ih]

variable (job : Job) (processors : Nat) (schedule : Schedule) (tree : FileTree)

theorem evaluate_mode (key : FileKey) (lines : List Line) :
    evaluate { job with mode } processors schedule tree key lines =
      evaluate job processors schedule tree key lines := by
  have hlimit : ({ job with mode } : Job).limit = job.limit := rfl
  have hrun : run ⟨mode, job.limit processors lines.length, schedule⟩ lines =
      run ⟨job.mode, job.limit processors lines.length, schedule⟩ lines :=
    advance_mode ⟨job.mode, job.limit processors lines.length, schedule⟩ mode _ _
  unfold evaluate
  dsimp only
  rw [hlimit, hrun]
  rfl

theorem Job.run_mode (lib : Library) :
    ({ job with mode } : Job).run lib processors schedule tree = job.run lib processors schedule tree := by
  unfold Job.run
  simp only [evaluate_mode]
  rfl

end Batch

/-! ## The command line -/

namespace CommandLine

theorem request_eq (e : Text) (mode : Mode) :
    Request.ofRecord [("expression".toList, .text e), ("mode".toList, .text mode.name)] =
      Request.mk <$> Record.named "expression".toList (Reader.expression (.text e)) <*> .good mode := by
  cases mode <;> rfl

variable (tree : FileTree) (s : Settings)

theorem runExpression_of_blank {e : Text} (he : e.allBlank = true) :
    runExpression tree s e = ⟨failure "expression cannot be empty".toList, [], tree⟩ := by
  have hread : Reader.expression (.text e) = .error .refused := by simp [Reader.expression, he]
  unfold runExpression
  rw [request_eq, hread]
  rfl

theorem runExpression_of_not_blank {e : Text} (he : e.allBlank = false) :
    runExpression tree s e =
      match answer s e with
      | .ok text => ⟨success text, [], tree⟩
      | .error fault =>
        if fault.isExpression then ⟨failure fault.message, [rejectedEntry e], tree⟩
        else ⟨.brokenExpression fault, [], tree⟩ := by
  have hread : Reader.expression (.text e) = .ok e := by simp [Reader.expression, he]
  unfold runExpression
  rw [request_eq, hread]
  rfl

theorem answer_mode (mode : Mode) (e : Text) : answer { s with mode } e = answer s e := by
  unfold answer
  rw [Rules.evaluate_eq, Rules.evaluate_eq]

theorem runSettings_mode (lib : Library) (mode : Mode) (processors : Nat) (schedule : Batch.Schedule) :
    runSettings lib tree processors schedule { s with mode } = runSettings lib tree processors schedule s := by
  unfold runSettings
  cases s.target with
  | expression e =>
    show runExpression tree { s with mode } e = runExpression tree s e
    cases he : e.allBlank with
    | true => rw [runExpression_of_blank _ _ he, runExpression_of_blank _ _ he]
    | false => rw [runExpression_of_not_blank _ _ he, runExpression_of_not_blank _ _ he, answer_mode]
  | file p =>
    show runFile lib tree processors schedule { s with mode } p = runFile lib tree processors schedule s p
    unfold runFile
    cases p.results with
    | error n => rfl
    | ok output =>
      have hjob := Batch.Job.run_mode mode ⟨p, output, s.mode, none⟩ processors schedule tree lib
      dsimp only at hjob ⊢
      rw [hjob]

end CommandLine

end Reckoner
