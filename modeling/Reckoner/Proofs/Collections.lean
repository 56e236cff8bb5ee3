import Reckoner.Proofs.Payloads
import Reckoner.Proofs.Roster

/-!
# Collections

A worker that has ended leaves one outcome behind, whether it lived or died. A
collection takes the outcomes of the workers chosen, in the order in which they were
started, and a batch moves its lines exactly as its roster does.
-/

namespace Reckoner

/-! ## Runners of lines -/

theorem natural_injective {m n : Nat} (h : Text.natural m = Text.natural n) : m = n := by
  have hread := congrArg (fun t => Nat.ofDigitChars 10 t 0) h
  simpa only [Text.natural, Nat.ofDigitChars_ten_toDigits] using hread

structure Line.Good (l : Line) : Prop where
  text : l.text.allBlank = false
  number : 1 ≤ l.number

def Line.runner (l : Line) : Runner :=
  { id := Text.natural l.number, line := l.number, expression := l.text, exitCode := 0 }

def Runner.source (p : Runner) : Line := ⟨p.line.toNat, p.expression⟩

/-- A runner whose worker ended with an exit code before it sent anything. -/
def Runner.died (p : Runner) (code : Int) : Runner := { p with ended := true, exitCode := code }

def Runner.sent (p : Runner) (o : Outcome) : Runner :=
  { p with inbox := [.record o.toRecord], ended := true }

theorem source_runner (l : Line) : l.runner.source = l := rfl

/-- The ledger of outcomes that were collected one after the other. -/
def Ledger.ofOutcomes (outcomes : List Outcome) : Ledger :=
  ⟨outcomes, outcomes.flatMap fun o => o.render ++ ['\n']⟩

theorem add_ofOutcomes (outcomes : List Outcome) (o : Outcome) :
    (Ledger.ofOutcomes outcomes).add o = .ofOutcomes (outcomes ++ [o]) := by
  simp [Ledger.ofOutcomes, Ledger.add]

namespace Batch

variable (plan : Plan)

theorem spawn_eq {l : Line} (h : l.Good) (pool : Pool) : spawn plan l pool = .ok (pool.add l.runner) := by
  unfold spawn
  rw [Worker.ofRecord_toRecord h.text h.number]
  rfl

/-! ## Outcomes of lines -/

/-- The failure of a line whose worker ended before it sent anything. -/
def lost (l : Line) (code : Int) : Outcome :=
  ⟨l.number, l.text, none, .failure ("worker exited with code ".toList ++ Text.integer code)⟩

def outcome (l : Line) : Outcome :=
  match plan.schedule.death l.number with
  | some code => lost l code
  | none =>
    match Worker.evaluate ⟨l.text, l.number, plan.mode⟩ with
    | .ok o => o
    | .error _ => lost l 1

theorem outcome_of_death {l : Line} {code : Int} (h : plan.schedule.death l.number = some code) :
    outcome plan l = lost l code := by
  unfold outcome
  rw [h]

theorem evaluate_eq_outcome {l : Line} (h : plan.schedule.death l.number = none) :
    Worker.evaluate ⟨l.text, l.number, plan.mode⟩ = .ok (outcome plan l) := by
  obtain ⟨o, ho, -, -⟩ := Worker.evaluate_eq_ok ⟨l.text, l.number, plan.mode⟩
  unfold outcome
  rw [h, ho]

theorem outcome_source (l : Line) : (outcome plan l).line = l.number ∧ (outcome plan l).expression = l.text := by
  cases h : plan.schedule.death l.number with
  | some code =>
    rw [outcome_of_death plan h]
    exact ⟨rfl, rfl⟩
  | none =>
    obtain ⟨o, ho, hline, hexpression⟩ := Worker.evaluate_eq_ok ⟨l.text, l.number, plan.mode⟩
    rw [evaluate_eq_outcome plan h] at ho
    cases ho
    exact ⟨hline, hexpression⟩

theorem deliver_of_death {l : Line} {code : Int} (h : plan.schedule.death l.number = some code) :
    deliver plan l.runner = l.runner.died code := by
  have hline : l.runner.line.toNat = l.number := rfl
  unfold deliver
  rw [hline, h]
  rfl

theorem deliver_of_none {l : Line} (h : plan.schedule.death l.number = none) :
    deliver plan l.runner = l.runner.sent (outcome plan l) := by
  have hline : l.runner.line.toNat = l.number := rfl
  have hexpression : l.runner.expression = l.text := rfl
  have hsent : (Worker.run ⟨l.text, l.number, plan.mode⟩).sent = .ok (outcome plan l) := by
    unfold Worker.run
    rw [evaluate_eq_outcome plan h]
  unfold deliver
  rw [hline, hexpression, h]
  dsimp only
  rw [hsent]
  rfl

/-- A worker that has ended is ready, and nobody has settled it yet. -/
theorem flags_deliver (l : Line) :
    (deliver plan l.runner).ready = true ∧ (deliver plan l.runner).active = true ∧
      (deliver plan l.runner).closed = false := by
  cases h : plan.schedule.death l.number with
  | some code =>
    rw [deliver_of_death plan h]
    exact ⟨rfl, rfl, rfl⟩
  | none =>
    rw [deliver_of_none plan h]
    exact ⟨rfl, rfl, rfl⟩

/-- The outcome of a line is what its ended worker leaves behind. -/
theorem settle_deliver {l : Line} (h : l.Good) :
    ∃ p log, (deliver plan l.runner).settle = (p, log, .ok (outcome plan l)) ∧ p.closed = true := by
  cases hdeath : plan.schedule.death l.number with
  | some code =>
    have hline : 1 ≤ (l.runner.died code).line := Int.ofNat_le.mpr h.number
    rw [deliver_of_death plan hdeath, outcome_of_death plan hdeath, Runner.settle_of_nil rfl hline]
    exact ⟨_, _, rfl, rfl⟩
  | none =>
    have hline : 1 ≤ (outcome plan l).line := by
      rw [(outcome_source plan l).1]
      exact h.number
    rw [deliver_of_none plan hdeath, Runner.settle_of_record rfl hline]
    exact ⟨_, _, rfl, rfl⟩

/-! ## One collection -/

theorem settleAll_cons_of_not {p : Runner} (h : (p.active && p.ready) = false) (rest : List Runner) (ledger : Ledger) :
    Pool.settleAll (p :: rest) ledger =
      (p :: (Pool.settleAll rest ledger).1, (Pool.settleAll rest ledger).2) := by
  rw [Pool.settleAll, h]
  rfl

theorem settleAll_cons_of_settle {p p' : Runner} {log : Log} {o : Outcome} (h : (p.active && p.ready) = true)
    (hs : p.settle = (p', log, .ok o)) (rest : List Runner) (ledger : Ledger) :
    Pool.settleAll (p :: rest) ledger =
      (p' :: (Pool.settleAll rest (ledger.add o)).1, (Pool.settleAll rest (ledger.add o)).2.1,
        log ++ (Pool.settleAll rest (ledger.add o)).2.2.1, (Pool.settleAll rest (ledger.add o)).2.2.2) := by
  rw [Pool.settleAll, h, hs]
  rfl

/-- Every active worker is busy with a line that it was made for. -/
def Busy (runners : List Runner) : Prop := ∀ p ∈ runners, p.active = true → ∃ l : Line, l.Good ∧ p = l.runner

def picked (ids : List Text) (p : Runner) : Bool := p.active && ids.contains p.id

/-- A collection takes the outcomes of the runners picked, in their order, and retires these runners alone. -/
theorem settleAll_picked (ids : List Text) {runners : List Runner} (h : Busy runners) (done : List Outcome) :
    ∃ settled log,
      Pool.settleAll (runners.map fun p => if picked ids p then deliver plan p else p) (.ofOutcomes done) =
        (settled, .ofOutcomes (done ++ (runners.filter (picked ids)).map fun p => outcome plan p.source), log, none) ∧
      (settled.map Pool.retire).filter Runner.active =
        (runners.filter Runner.active).filter fun p => !ids.contains p.id := by
  induction runners generalizing done with
  | nil => exact ⟨[], [], by simp [Pool.settleAll], rfl⟩
  | cons p rest ih =>
    obtain ⟨hp, hrest⟩ := List.forall_mem_cons.mp h
    rw [List.map_cons, List.filter_cons]
    cases hpick : picked ids p with
    | false =>
      -- The runner is inactive, or its worker is still busy; in both cases it stays as it is.
      obtain ⟨settled, log, hsettle, hactive⟩ := ih hrest done
      have hidle : (p.active && p.ready) = false := by
        cases ha : p.active with
        | false => rfl
        | true =>
          obtain ⟨l, -, rfl⟩ := hp ha
          rfl
      refine ⟨p :: settled, log, ?_, ?_⟩
      · rw [if_neg Bool.false_ne_true, if_neg Bool.false_ne_true, settleAll_cons_of_not hidle, hsettle]
      · rw [List.map_cons]
        cases ha : p.active with
        | false =>
          have hretired : (Pool.retire p).active = false := by simp [Pool.retire, ha]
          rw [List.filter_cons_of_neg (by simp [hretired]), List.filter_cons_of_neg (by simp [ha]), hactive]
        | true =>
          obtain ⟨l, -, rfl⟩ := hp ha
          have hnot : ids.contains l.runner.id = false := hpick
          rw [List.filter_cons_of_pos rfl, List.filter_cons_of_pos rfl,
            List.filter_cons_of_pos (by rw [hnot]; rfl), hactive]
          rfl
    | true =>
      obtain ⟨ha, hin⟩ := Bool.and_eq_true_iff.mp hpick
      obtain ⟨l, hl, rfl⟩ := hp ha
      obtain ⟨p', log, hp', hclosed⟩ := settle_deliver plan hl
      obtain ⟨settled, more, hsettle, hactive⟩ := ih hrest (done ++ [outcome plan l])
      obtain ⟨hready, hdeliver, -⟩ := flags_deliver plan l
      have hretired : (Pool.retire p').active = false := by simp [Pool.retire, hclosed]
      refine ⟨p' :: settled, log ++ more, ?_, ?_⟩
      · rw [if_pos rfl, if_pos rfl, settleAll_cons_of_settle (by rw [hdeliver, hready]; rfl) hp', add_ofOutcomes,
          hsettle, List.map_cons, source_runner, List.append_assoc]
        rfl
      · rw [List.map_cons, List.filter_cons_of_neg (by simp [hretired]), List.filter_cons_of_pos rfl,
          List.filter_cons_of_neg (by rw [hin]; decide), hactive]

end Batch

end Reckoner
