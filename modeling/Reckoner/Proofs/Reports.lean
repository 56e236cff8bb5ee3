import Reckoner.Proofs.Files
import Reckoner.Proofs.Lines
import Reckoner.Proofs.Simulation

/-!
# Reports

Whatever its schedule, a batch comes to an end and reports one outcome for every line
that counts, in the order of the lines. The output file holds the same outcomes in
the order in which they were collected.
-/

namespace Reckoner

namespace Batch

/-! ## Results in order -/

theorem listed_expressions (t : Text) : Listed (expressions t) := by
  refine ⟨fun l hl => ?_, pairwise_expressions t⟩
  obtain ⟨k, raw, -, hne, rfl⟩ := mem_expressions_iff.mp hl
  exact ⟨allBlank_strip hne, Nat.le_add_left 1 k⟩

theorem increasing_outcomes (plan : Plan) {lines : List Line} (hl : Listed lines) :
    (lines.map (outcome plan)).Pairwise fun a b => a.line < b.line := by
  rw [List.pairwise_map]
  refine hl.increasing.imp fun {a b} hlt => ?_
  rw [(outcome_source plan a).1, (outcome_source plan b).1]
  exact hlt

theorem sortByLine_eq {plan : Plan} {lines collected : List Line} (hl : Listed lines) (h : collected.Perm lines) :
    sortByLine (collected.map (outcome plan)) = lines.map (outcome plan) := by
  have hperm : (sortByLine (collected.map (outcome plan))).Perm (lines.map (outcome plan)) :=
    (List.mergeSort_perm _ _).trans (h.map _)
  have hsorted : (sortByLine (collected.map (outcome plan))).Pairwise fun a b => a.line ≤ b.line := by
    have htrans : ∀ a b c : Outcome, decide (a.line ≤ b.line) = true → decide (b.line ≤ c.line) = true →
        decide (a.line ≤ c.line) = true := by
      intro a b c hab hbc
      exact decide_eq_true (Nat.le_trans (of_decide_eq_true hab) (of_decide_eq_true hbc))
    have htotal : ∀ a b : Outcome, (decide (a.line ≤ b.line) || decide (b.line ≤ a.line)) = true := by
      intro a b
      simpa using Nat.le_total a.line b.line
    exact (List.pairwise_mergeSort htrans htotal _).imp of_decide_eq_true
  have hlines : (lines.map (outcome plan)).Pairwise fun a b => a.line ≤ b.line :=
    (increasing_outcomes plan hl).imp Nat.le_of_lt
  refine hperm.eq_of_pairwise ?_ hsorted hlines
  intro a b ha hb hab hba
  obtain ⟨l, hlmem, rfl⟩ := List.mem_map.mp (hperm.subset ha)
  obtain ⟨m, hmmem, rfl⟩ := List.mem_map.mp hb
  have hnumber := Nat.le_antisymm hab hba
  rw [(outcome_source plan l).1, (outcome_source plan m).1] at hnumber
  rw [hl.eq_of_number hlmem hmmem hnumber]

/-! ## What a report has to say -/

/-- The outcome of a line: what its worker evaluates, or how the worker died. Neither the worker's
record nor the outcome's is refused. -/
structure Delivers (mode : Mode) (schedule : Schedule) (l : Line) (o : Outcome) : Prop where
  line : o.line = l.number
  expression : o.expression = l.text
  died : ∀ code, schedule.death l.number = some code →
    o.rpn = none ∧ o.verdict = .failure ("worker exited with code ".toList ++ Text.integer code)
  lived : schedule.death l.number = none → Worker.evaluate ⟨l.text, l.number, mode⟩ = .ok o
  made : Worker.ofRecord (Worker.toRecord ⟨l.text, l.number, mode⟩) = .good ⟨l.text, l.number, mode⟩
  read : Outcome.ofRecord o.toRecord = .good o

theorem delivers_outcome (plan : Plan) {l : Line} (h : l.Good) : Delivers plan.mode plan.schedule l (outcome plan l) := by
  obtain ⟨hline, hexpression⟩ := outcome_source plan l
  refine ⟨hline, hexpression, fun code hcode => ?_, fun hnone => evaluate_eq_outcome plan hnone,
    Worker.ofRecord_toRecord h.text h.number, Outcome.ofRecord_toRecord ?_⟩
  · rw [outcome_of_death plan hcode]
    exact ⟨rfl, rfl⟩
  · rw [hline]
    exact h.number

/-- Outcomes in the order of their lines, one for every line of a text that counts, and none beside. -/
structure Accounts (mode : Mode) (schedule : Schedule) (t : Text) (results : List Outcome) : Prop where
  increasing : results.Pairwise fun a b => a.line < b.line
  complete : ∀ l : Line, l.Of t → ∃ o ∈ results, Delivers mode schedule l o
  sound : ∀ o ∈ results, ∃ l : Line, l.Of t ∧ Delivers mode schedule l o

theorem accounts_outcome (plan : Plan) (t : Text) :
    Accounts plan.mode plan.schedule t ((expressions t).map (outcome plan)) := by
  have hl := listed_expressions t
  refine ⟨increasing_outcomes plan hl, ?_, ?_⟩
  · intro l h
    have hmem := mem_expressions_iff.mpr h
    exact ⟨outcome plan l, List.mem_map_of_mem hmem, delivers_outcome plan (hl.good l hmem)⟩
  · intro o ho
    obtain ⟨l, hmem, rfl⟩ := List.mem_map.mp ho
    exact ⟨l, mem_expressions_iff.mp hmem, delivers_outcome plan (hl.good l hmem)⟩

/-- A batch finishes with these outcomes collected, in their order, however long it could go on. -/
def Collects (plan : Plan) (lines : List Line) (collected : List Outcome) : Prop :=
  ∃ s log, s.finished = true ∧ s.pool.ledger.results = collected ∧
    ∀ n, 2 * lines.length ≤ n → advance plan n (.start lines) = .ok (s, log)

/-! ## Runs of a job -/

def written (collected : List Outcome) : Content :=
  .bytes (Utf8.encode (collected.flatMap fun o => o.render ++ ['\n']))

def Job.plan (job : Job) (processors : Nat) (schedule : Schedule) (lines : List Line) : Plan :=
  ⟨job.mode, job.limit processors lines.length, schedule⟩

variable {job : Job} {processors : Nat} (schedule : Schedule)

theorem limit_pos (hworkers : ∀ n ∈ job.maxWorkers, 1 ≤ n) (hprocessors : 1 ≤ processors) (lines : List Line)
    (hne : lines ≠ []) : 0 < job.limit processors lines.length := by
  have hlength := List.length_pos_iff.mpr hne
  unfold Job.limit
  cases hmax : job.maxWorkers with
  | none => exact Nat.lt_min.mpr ⟨hprocessors, hlength⟩
  | some n => exact Nat.lt_min.mpr ⟨hworkers n (by rw [hmax]; rfl), hlength⟩

theorem limit_le_one (hone : job.maxWorkers.getD processors = 1) (count : Nat) : job.limit processors count ≤ 1 := by
  unfold Job.limit
  rw [hone]
  exact Nat.min_le_left 1 count

theorem evaluate_of_run {tree : FileTree} {out : FileKey} {lines : List Line} (hlines : lines ≠ []) {s : State}
    {log : Log} (hrun : Batch.run (job.plan processors schedule lines) lines = .ok (s, log)) :
    evaluate job processors schedule tree out lines =
      ⟨.ok (sortByLine s.pool.ledger.results), log ++ [wroteEntry job s.pool.ledger.results],
        tree.put out (.bytes (Utf8.encode s.pool.ledger.output)), s.pool.runners⟩ := by
  have hplan : Batch.run ⟨job.mode, job.limit processors lines.length, schedule⟩ lines = .ok (s, log) := hrun
  unfold evaluate
  dsimp only
  rw [if_neg (by simpa using hlines), hplan]

/-- What is evaluated is what is collected, sorted, and it is written as it is collected. -/
theorem evaluate_eq (tree : FileTree) (out : FileKey) {lines : List Line} (hl : Listed lines)
    (hlimit : lines ≠ [] → 0 < job.limit processors lines.length) :
    ∃ collected : List Outcome,
      Collects (job.plan processors schedule lines) lines collected ∧
      collected = (Roster.final (job.plan processors schedule lines) lines).collected.map
        (outcome (job.plan processors schedule lines)) ∧
      collected.Perm (lines.map (outcome (job.plan processors schedule lines))) ∧
      (job.maxWorkers.getD processors = 1 → collected = lines.map (outcome (job.plan processors schedule lines))) ∧
      (evaluate job processors schedule tree out lines).results =
        .ok (lines.map (outcome (job.plan processors schedule lines))) ∧
      (evaluate job processors schedule tree out lines).tree = tree.put out (written collected) := by
  obtain ⟨s, log, hrun, hfinished, hledger⟩ := run_eq (job.plan processors schedule lines) hl hlimit
  have hperm : (Roster.final (job.plan processors schedule lines) lines).collected.Perm lines :=
    Roster.final_perm hl.nodup hlimit
  have hresults : s.pool.ledger.results =
      (Roster.final (job.plan processors schedule lines) lines).collected.map
        (outcome (job.plan processors schedule lines)) := by
    rw [hledger]
    rfl
  have houtput : s.pool.ledger.output = s.pool.ledger.results.flatMap fun o => o.render ++ ['\n'] := by
    rw [hledger]
    rfl
  refine ⟨_, ⟨s, log, hfinished, rfl, fun n hn => advance_mono hrun hfinished hn⟩, hresults, ?_, fun hone => ?_, ?_⟩
  · rw [hresults]
    exact hperm.map _
  · rw [hresults, Roster.final_of_limit hl.nodup hlimit (limit_le_one hone _)]
  · by_cases hlines : lines = []
    · subst hlines
      rw [hresults, hperm.eq_nil]
      exact ⟨rfl, rfl⟩
    · rw [evaluate_of_run schedule hlines hrun, houtput, hresults, sortByLine_eq hl hperm]
      exact ⟨rfl, rfl⟩

theorem get?_evaluate (tree : FileTree) {key out : FileKey} (hkey : key ≠ out) (lines : List Line) :
    (evaluate job processors schedule tree out lines).tree.get? key = tree.get? key := by
  unfold evaluate
  dsimp only
  split
  · rw [get?_put, if_neg hkey]
  · split
    all_goals rw [get?_put, if_neg hkey]

variable {lib : Library} {tree : FileTree}

variable (job tree) in
/-- However a job ends, it changes no file but the one that it writes. -/
theorem Job.get?_run {k : FileKey} (hk : tree.keyFor job.output ≠ .ok k) :
    (job.run lib processors schedule tree).tree.get? k = tree.get? k := by
  unfold Job.run
  split
  · split
    · rfl
    · dsimp only
      split
      · rfl
      · rename_i out hout
        exact get?_evaluate schedule tree (fun hsame => hk (by rw [hout, hsame])) _
  · rfl

theorem Job.run_of_key {key out : FileKey} {content : Content} {lines : List Line}
    (hinput : tree.place job.input = .file key content) (hread : Source.read lib job.input content = .ok lines)
    (houtput : tree.keyFor job.output = .ok out) :
    job.run lib processors schedule tree =
      { evaluate job processors schedule tree out lines with
        log := loadedEntry job lines.length :: (evaluate job processors schedule tree out lines).log } := by
  unfold Job.run
  rw [hinput]
  dsimp only
  rw [hread]
  dsimp only
  rw [houtput]

variable (job) in
theorem Job.run_of_read (hworkers : ∀ n ∈ job.maxWorkers, 1 ≤ n) (hprocessors : 1 ≤ processors)
    {key out : FileKey} {content : Content} {lines : List Line} (hl : Listed lines)
    (hinput : tree.place job.input = .file key content) (hread : Source.read lib job.input content = .ok lines)
    (houtput : tree.keyFor job.output = .ok out) :
    ∃ collected : List Line, collected.Perm lines ∧
      Collects (job.plan processors schedule lines) lines
        (collected.map (outcome (job.plan processors schedule lines))) ∧
      (job.run lib processors schedule tree).results =
        .ok (lines.map (outcome (job.plan processors schedule lines))) ∧
      (job.run lib processors schedule tree).tree =
        tree.put out (written (collected.map (outcome (job.plan processors schedule lines)))) := by
  have hlimit := limit_pos hworkers hprocessors lines
  have hperm : (Roster.final (job.plan processors schedule lines) lines).collected.Perm lines :=
    Roster.final_perm hl.nodup hlimit
  obtain ⟨collected, hcollects, hroster, -, -, hevaluate⟩ := evaluate_eq schedule tree out hl hlimit
  rw [hroster] at hcollects
  refine ⟨_, hperm, hcollects, ?_⟩
  rw [Job.run_of_key schedule hinput hread houtput, ← hroster]
  exact hevaluate

/-- Whatever workers are ready at a collection and whichever of them die, a job with an input that can
be read and an output that can be written comes to its end and accounts for its input. The output file,
and no other, is written with what was collected: in the order of the lines where workers run one at a time. -/
theorem Job.run_accounts (hworkers : ∀ n ∈ job.maxWorkers, 1 ≤ n) (hprocessors : 1 ≤ processors)
    {key out : FileKey} {content : Content} {t : Text}
    (hinput : tree.place job.input = .file key content) (hload : Source.load lib job.input content = .ok t)
    (houtput : tree.keyFor job.output = .ok out) :
    ∃ results collected, (job.run lib processors schedule tree).results = .ok results ∧
      Accounts job.mode schedule t results ∧
      Collects (job.plan processors schedule (expressions t)) (expressions t) collected ∧
      collected.map Outcome.line =
        (Roster.final (job.plan processors schedule (expressions t)) (expressions t)).collected.map Line.number ∧
      collected.Perm results ∧
      (job.maxWorkers.getD processors = 1 → collected = results) ∧
      (job.run lib processors schedule tree).tree.place job.output = .file out (written collected) ∧
      ∀ k, k ≠ out → (job.run lib processors schedule tree).tree.get? k = tree.get? k := by
  obtain ⟨collected, hcollects, hroster, hperm, hordered, hresults, htree⟩ :=
    evaluate_eq schedule tree out (listed_expressions t) (limit_pos hworkers hprocessors (expressions t))
  have helsewhere : ∀ k, k ≠ out → (job.run lib processors schedule tree).tree.get? k = tree.get? k := by
    intro k hk
    refine Job.get?_run job schedule tree fun hsame => hk ?_
    exact (Except.ok.inj (houtput.symm.trans hsame)).symm
  rw [Job.run_of_key schedule hinput (Source.read_of_load hload) houtput] at helsewhere ⊢
  refine ⟨_, collected, hresults, ?_, hcollects, ?_, hperm, hordered, ?_, helsewhere⟩
  · exact accounts_outcome (job.plan processors schedule (expressions t)) t
  · rw [hroster, List.map_map]
    exact List.map_congr_left fun l _ => (outcome_source _ l).1
  · dsimp only
    rw [htree]
    exact FileTree.place_put houtput (written collected)

/-- Three lines that count and two workers at a time. The second is ready first, and the first dies. -/
def sampleText : Text := "1+2\n\n 4/0\n5".toList

def sampleJob : Job := ⟨.ofText "in.txt".toList, .ofText "out.txt".toList, .fused, some 2⟩

def sampleSchedule : Schedule := ⟨fun n k => n = 0 && k = 3, fun k => if k = 1 then some (-9) else none⟩

def sampleTree : FileTree := { files := [(["in.txt".toList], .bytes (Utf8.encode sampleText))] }

theorem run_accounts_sample :
    ∃ results collected, (sampleJob.run .standard 4 sampleSchedule sampleTree).results = .ok results ∧
      Accounts .fused sampleSchedule sampleText results ∧
      collected.map Outcome.line = [3, 1, 4] ∧ collected.Perm results ∧
      (sampleJob.run .standard 4 sampleSchedule sampleTree).tree.place sampleJob.output =
        .file ["out.txt".toList] (written collected) := by
  have hworkers : ∀ n ∈ sampleJob.maxWorkers, 1 ≤ n := by decide
  have hprocessors : 1 ≤ 4 := by decide
  have hinput : sampleTree.place sampleJob.input =
      .file ["in.txt".toList] (.bytes (Utf8.encode sampleText)) := by decide +kernel
  have hload : Source.load .standard sampleJob.input (.bytes (Utf8.encode sampleText)) =
      .ok sampleText := by decide +kernel
  have houtput : sampleTree.keyFor sampleJob.output = .ok ["out.txt".toList] := by decide +kernel
  have horder : (Roster.final (sampleJob.plan 4 sampleSchedule (expressions sampleText))
      (expressions sampleText)).collected.map Line.number = [3, 1, 4] := by decide +kernel
  obtain ⟨results, collected, hrun, haccounts, -, hlines, hperm, -, hfile, -⟩ :=
    Job.run_accounts sampleSchedule hworkers hprocessors hinput hload houtput
  exact ⟨results, collected, hrun, haccounts, hlines.trans horder, hperm, hfile⟩

end Batch

end Reckoner
