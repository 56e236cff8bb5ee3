import Reckoner.Proofs.Handovers
import Reckoner.Proofs.Reports

/-!
# Workers at a time

From its start to its end, whatever workers are ready, a batch has no more workers at work than its limit
and no more than there are lines. It starts the lines in their order and collects only while somebody is at
work. So each of its waits comes to an end, and in the end every worker is joined and every pipe closed.
-/

namespace Reckoner

/-! ## Runners of a collection -/

namespace Pool.Collected

variable {pool pool' : Pool} (h : Collected pool pool')
include h

theorem sources : pool'.runners.map Runner.source = pool.runners.map Runner.source := by
  rw [h.runners, List.map_map]
  refine List.map_congr_left fun p _ => ?_
  simp only [Function.comp_apply]
  split <;> rfl

theorem released {p : Runner} (hp : p ∈ pool'.runners) (hidle : p.active = false) :
    p.joined = true ∧ p.closed = true ∨ p ∈ pool.runners := by
  rw [h.runners] at hp
  obtain ⟨p', hmem, rfl⟩ := List.mem_map.mp hp
  by_cases hdue : p'.due = true
  · simp [hdue, Runner.taken]
  · simp [hdue, hmem]

end Pool.Collected

namespace Batch

theorem source_deliver (plan : Plan) (p : Runner) : (deliver plan p).source = p.source := by
  unfold deliver
  split
  · rfl
  · split <;> rfl

theorem active_deliver (plan : Plan) (p : Runner) : (deliver plan p).active = p.active := by
  unfold deliver
  split
  · rfl
  · split <;> rfl

theorem sources_await (plan : Plan) (n : Nat) (pool : Pool) :
    (await plan n pool).runners.map Runner.source = pool.runners.map Runner.source := by
  rw [await, List.map_map]
  refine List.map_congr_left fun p _ => ?_
  simp only [Function.comp_apply]
  split
  · exact source_deliver plan p
  · rfl

theorem mem_of_await {plan : Plan} {n : Nat} {pool : Pool} {p : Runner} (hp : p ∈ (await plan n pool).runners)
    (hidle : p.active = false) : p ∈ pool.runners := by
  obtain ⟨p', hmem, rfl⟩ := List.mem_map.mp hp
  split at hidle
  · rename_i hpick
    rw [active_deliver, (Bool.and_eq_true_iff.mp hpick).1] at hidle
    cases hidle
  · rename_i hpick
    rw [if_neg hpick]
    exact hmem

variable {plan : Plan} {lines : List Line} {s s' : State} {log : Log}

/-! ## Reachable states -/

inductive Reachable (plan : Plan) (lines : List Line) : State → Prop
  | start : Reachable plan lines (.start lines)
  | step {s s' : State} {log : Log} (h : Reachable plan lines s) (hstep : step plan s = .ok (s', log)) :
      Reachable plan lines s'

theorem Reachable.advance (h : Reachable plan lines s) {n : Nat} (hadvance : advance plan n s = .ok (s', log)) :
    Reachable plan lines s' := by
  induction n generalizing s log with
  | zero =>
    cases hadvance
    exact h
  | succ n ih =>
    rw [Batch.advance] at hadvance
    obtain ⟨⟨s₁, first⟩, hstep, hrest⟩ := bind_eq_ok_iff.mp hadvance
    obtain ⟨⟨s₂, more⟩, hmore, hpair⟩ := bind_eq_ok_iff.mp hrest
    cases hpair
    exact ih (h.step hstep) (mapError_eq_ok_iff.mp hmore)

theorem Reachable.shows (hl : Listed lines) (hlimit : lines ≠ [] → 0 < plan.limit) (h : Reachable plan lines s) :
    ∃ q : Roster, q.Keeps plan lines ∧ Shows plan q s := by
  induction h with
  | start => exact ⟨.start lines, Roster.keeps_start plan lines, shows_start plan lines⟩
  | @step s s' log _ hstep ih =>
    obtain ⟨q, hq, hs⟩ := ih
    obtain ⟨s'', log', hstep', hs'⟩ := shows_step hl hq hs
    rw [hstep] at hstep'
    cases hstep'
    exact ⟨q.step plan, Roster.keeps_step hl.nodup hlimit hq, hs'⟩

/-! ## Moves -/

def State.ready (plan : Plan) (s : State) : List Runner := plan.schedule.choose s.collections s.pool.active

/-- All that a step can do. -/
inductive Move (plan : Plan) (s : State) : State → Prop
  /-- Starts the worker of the next line, for which there is room. -/
  | start {l : Line} {rest : List Line} (hwaiting : s.waiting = l :: rest)
      (hroom : s.pool.active.length < plan.limit) :
      Move plan s { s with waiting := rest, pool := s.pool.add l.runner }
  /-- Collects, where there is no room or no line left. Somebody is at work, so that somebody
  becomes ready, and those who are leave. -/
  | collect {s' : State} {log : Log} (hfull : s.waiting ≠ [] → plan.limit ≤ s.pool.active.length)
      (hbusy : s.pool.active ≠ []) (hready : s.ready plan ≠ []) (hcollect : collect plan s = .ok (s', log))
      (hwaiting : s'.waiting = s.waiting) (hcollections : s'.collections = s.collections + 1)
      (hleave : (s.ready plan).length + s'.pool.active.length = s.pool.active.length) : Move plan s s'
  | finished (h : s.finished = true) : Move plan s s

section
variable (hl : Listed lines) (hlimit : lines ≠ [] → 0 < plan.limit)
include hl

theorem move_collect {q : Roster} (hq : q.Keeps plan lines) (hs : Shows plan q s)
    (hfull : s.waiting ≠ [] → plan.limit ≤ s.pool.active.length) (hbusy : s.pool.active ≠ []) :
    ∃ s' log, collect plan s = .ok (s', log) ∧ Move plan s s' := by
  obtain ⟨s', log, hcollect, hs'⟩ := shows_collect hl hq hs
  have hactive : q.active ≠ [] := by
    intro hnil
    rw [hs.active, hnil] at hbusy
    exact hbusy rfl
  have hchosen : s.ready plan = (plan.schedule.chooseLines q.collections q.active).map Line.runner := by
    unfold State.ready
    rw [hs.active, hs.collections, choose_runner]
  have hready : s.ready plan ≠ [] := by
    rw [hchosen, Ne, List.map_eq_nil_iff]
    exact chooseLines_ne_nil _ _ hactive
  have hleave : (s.ready plan).length + s'.pool.active.length = s.pool.active.length := by
    have hlength := (Roster.collect_perm (Roster.nodup_active hl.nodup hq) plan.schedule).length_eq
    rw [hchosen, hs.active, hs'.active, List.length_map, List.length_map, List.length_map, ← hlength,
      List.length_append]
  refine ⟨s', log, hcollect, .collect hfull hbusy hready hcollect (hs'.waiting.trans hs.waiting.symm) ?_ hleave⟩
  rw [hs'.collections, hs.collections]
  rfl

include hlimit

/-- No step fails, and each is a move. -/
theorem Reachable.move (h : Reachable plan lines s) :
    ∃ s' log, Batch.step plan s = .ok (s', log) ∧ Move plan s s' := by
  obtain ⟨q, hq, hs⟩ := h.shows hl hlimit
  unfold Batch.step
  cases hw : s.waiting with
  | nil =>
    by_cases hidle : s.pool.active = []
    · exact ⟨s, [], by simp [hidle], .finished (by simp [State.finished, hw, hidle])⟩
    · have hfull : s.waiting ≠ [] → plan.limit ≤ s.pool.active.length := fun hne => absurd hw hne
      simpa [hidle] using move_collect hl hq hs hfull hidle
  | cons l rest =>
    have hwaiting : q.waiting = l :: rest := hs.waiting.symm.trans hw
    have hmem : l ∈ lines := hq.perm.subset (by simp [Roster.lines, hwaiting])
    by_cases hroom : s.pool.active.length < plan.limit
    · exact ⟨_, [], by simp [hroom, spawn_eq plan (hl.good l hmem)], .start hw hroom⟩
    · have hfull : s.waiting ≠ [] → plan.limit ≤ s.pool.active.length := fun _ => Nat.not_lt.mp hroom
      have hbusy : s.pool.active ≠ [] := by
        intro hnil
        rw [hnil] at hroom
        exact hroom (hlimit (List.ne_nil_of_mem hmem))
      simpa [hroom] using move_collect hl hq hs hfull hbusy

end

/-! ## Starts and ends of workers -/

/-- The workers started are those of the first lines, in their order, and a worker that is not at work
any more is joined and its pipe closed. -/
structure Tidy (lines : List Line) (s : State) : Prop where
  started : s.pool.runners.map Runner.source ++ s.waiting = lines
  released : ∀ p ∈ s.pool.runners, p.active = false → p.joined = true ∧ p.closed = true

theorem Tidy.collect (h : Tidy lines s) (hcollect : collect plan s = .ok (s', log)) : Tidy lines s' := by
  unfold Batch.collect at hcollect
  split at hcollect
  · cases hcollect
  · rename_i pool log' hpool
    cases hcollect
    have hcollected := Pool.collected_of_collect hpool
    have hsources : pool.runners.map Runner.source = s.pool.runners.map Runner.source :=
      hcollected.sources.trans (sources_await plan s.collections s.pool)
    refine ⟨by rw [hsources, h.started], fun p hp hidle => ?_⟩
    rcases hcollected.released hp hidle with hreleased | hmem
    · exact hreleased
    · exact h.released p (mem_of_await hmem hidle) hidle

theorem Tidy.move (h : Tidy lines s) (hmove : Move plan s s') : Tidy lines s' := by
  cases hmove with
  | @start l rest hwaiting _ =>
    have hstarted := h.started
    rw [hwaiting] at hstarted
    refine ⟨by simpa [Pool.add, source_runner] using hstarted, ?_⟩
    intro p hp hidle
    rcases List.mem_append.mp hp with hp | hp
    · exact h.released p hp hidle
    · obtain rfl := List.mem_singleton.mp hp
      cases hidle
  | collect _ _ _ hcollect _ _ _ => exact h.collect hcollect
  | finished => exact h

theorem Reachable.tidy (hl : Listed lines) (hlimit : lines ≠ [] → 0 < plan.limit) (h : Reachable plan lines s) :
    Tidy lines s := by
  induction h with
  | start => exact ⟨rfl, fun p hp => absurd hp List.not_mem_nil⟩
  | @step s s' log hreach hstep ih =>
    obtain ⟨s'', log', hstep', hmove⟩ := hreach.move hl hlimit
    rw [hstep] at hstep'
    cases hstep'
    exact ih.move hmove

/-! ## Waits -/

/-- Nobody has to be waited for: there is room for the next line, or nobody is at work after the last. -/
def Free (plan : Plan) (s : State) : Prop :=
  (s.waiting ≠ [] → s.pool.active.length < plan.limit) ∧ (s.waiting = [] → s.pool.active = [])

/-- A wait ends, after no more collections than there are workers at work. -/
def Ends (plan : Plan) (s : State) : Prop :=
  ∃ n s' log, n ≤ s.pool.active.length ∧ advance plan n s = .ok (s', log) ∧ s'.waiting = s.waiting ∧
    s'.collections = s.collections + n ∧ Free plan s'

theorem Move.ends (hmove : Move plan s s') (hstep : step plan s = .ok (s', log)) (h : ¬ Free plan s)
    (hends : s'.pool.active.length < s.pool.active.length → Ends plan s') : Ends plan s := by
  cases hmove with
  | start hwaiting hroom => exact absurd ⟨fun _ => hroom, fun hnil => by rw [hwaiting] at hnil; cases hnil⟩ h
  | finished hfinished =>
    obtain ⟨hwaiting, hidle⟩ := Bool.and_eq_true_iff.mp hfinished
    exact absurd ⟨fun hne => absurd (List.isEmpty_iff.mp hwaiting) hne, fun _ => List.isEmpty_iff.mp hidle⟩ h
  | collect _ _ hready _ hwaiting hcollections hleave =>
    have hpos := List.length_pos_iff.mpr hready
    obtain ⟨n, s'', more, hn, hadvance, hwaiting', hcollections', hfree⟩ := hends (by omega)
    refine ⟨n + 1, s'', log ++ more, by omega, ?_, hwaiting'.trans hwaiting, by omega, hfree⟩
    rw [advance, hstep, ok_bind]
    dsimp only
    rw [hadvance]
    rfl

theorem Reachable.ends (hl : Listed lines) (hlimit : lines ≠ [] → 0 < plan.limit) (h : Reachable plan lines s) :
    Ends plan s := by
  induction hn : s.pool.active.length using Nat.strong_induction_on generalizing s with
  | _ n ih =>
    by_cases hfree : Free plan s
    · exact ⟨0, s, [], Nat.zero_le _, rfl, rfl, rfl, hfree⟩
    · obtain ⟨s', log, hstep, hmove⟩ := h.move hl hlimit
      refine hmove.ends hstep hfree fun hlt => ?_
      rw [hn] at hlt
      exact ih _ hlt (h.step hstep) rfl

/-! ## Runs -/

structure Orderly (plan : Plan) (lines : List Line) (s : State) : Prop where
  tidy : Tidy lines s
  moves : ∃ s' log, step plan s = .ok (s', log) ∧ Move plan s s'
  ends : Ends plan s

theorem Reachable.orderly (hl : Listed lines) (hlimit : lines ≠ [] → 0 < plan.limit) (h : Reachable plan lines s) :
    Orderly plan lines s :=
  ⟨h.tidy hl hlimit, h.move hl hlimit, h.ends hl hlimit⟩

theorem Reachable.bounded (hl : Listed lines) (hlimit : lines ≠ [] → 0 < plan.limit) (h : Reachable plan lines s) :
    s.pool.active.length ≤ plan.limit := by
  obtain ⟨q, hq, hs⟩ := h.shows hl hlimit
  rw [hs.active, List.length_map]
  exact hq.bounded

theorem Tidy.of_finished (h : Tidy lines s) (hfinished : s.finished = true) :
    s.pool.runners.map Runner.source = lines ∧ ∀ p ∈ s.pool.runners, p.joined = true ∧ p.closed = true := by
  obtain ⟨hwaiting, hidle⟩ := Bool.and_eq_true_iff.mp hfinished
  refine ⟨?_, fun p hp => h.released p hp ?_⟩
  · have hstarted := h.started
    rw [List.isEmpty_iff.mp hwaiting, List.append_nil] at hstarted
    exact hstarted
  · cases ha : p.active with
    | false => rfl
    | true =>
      have hmem : p ∈ s.pool.active := List.mem_filter.mpr ⟨hp, ha⟩
      rw [List.isEmpty_iff.mp hidle] at hmem
      cases hmem

variable {job : Job} {processors : Nat} (schedule : Schedule)

/-- Whatever workers are ready at a collection and whichever of them die, a batch has no more workers at
work than it may and than there are lines, and is orderly in every state that it comes through. It comes to
an end, and by then it has started every line's worker, in the order of the lines, has joined each and closed
its pipe. -/
theorem Job.run_orderly (hworkers : ∀ n ∈ job.maxWorkers, 1 ≤ n) (hprocessors : 1 ≤ processors) (t : Text) :
    (∀ s, Reachable (job.plan processors schedule (expressions t)) (expressions t) s →
      s.pool.active.length ≤ min (job.maxWorkers.getD processors) (expressions t).length ∧
        Orderly (job.plan processors schedule (expressions t)) (expressions t) s) ∧
    ∃ s log, Batch.run (job.plan processors schedule (expressions t)) (expressions t) = .ok (s, log) ∧
      Reachable (job.plan processors schedule (expressions t)) (expressions t) s ∧
      s.pool.runners.map Runner.source = expressions t ∧
      ∀ p ∈ s.pool.runners, p.joined = true ∧ p.closed = true := by
  have hl := listed_expressions t
  have hlimit := limit_pos hworkers hprocessors (expressions t)
  obtain ⟨s, log, hrun, hfinished, -⟩ := run_eq (job.plan processors schedule (expressions t)) hl hlimit
  have hreach : Reachable (job.plan processors schedule (expressions t)) (expressions t) s :=
    Reachable.start.advance hrun
  obtain ⟨hstarted, hreleased⟩ := (hreach.tidy hl hlimit).of_finished hfinished
  exact ⟨fun s h => ⟨h.bounded hl hlimit, h.orderly hl hlimit⟩, s, log, hrun, hreach, hstarted, hreleased⟩

theorem run_orderly_sample :
    (∀ s, Reachable (sampleJob.plan 4 sampleSchedule (expressions sampleText)) (expressions sampleText) s →
      s.pool.active.length ≤ 2) ∧
    ∃ s log, Batch.run (sampleJob.plan 4 sampleSchedule (expressions sampleText)) (expressions sampleText) =
        .ok (s, log) ∧
      s.pool.runners.map Runner.source = [⟨1, "1+2".toList⟩, ⟨3, "4/0".toList⟩, ⟨4, "5".toList⟩] ∧
      ∀ p ∈ s.pool.runners, p.joined = true ∧ p.closed = true := by
  have hworkers : ∀ n ∈ sampleJob.maxWorkers, 1 ≤ n := by decide
  have hprocessors : 1 ≤ 4 := by decide
  have hlines : expressions sampleText = [⟨1, "1+2".toList⟩, ⟨3, "4/0".toList⟩, ⟨4, "5".toList⟩] := by
    decide +kernel
  have hlimit : min (sampleJob.maxWorkers.getD 4) (expressions sampleText).length = 2 := by decide +kernel
  obtain ⟨hreach, s, log, hrun, -, hstarted, hreleased⟩ :=
    Job.run_orderly sampleSchedule hworkers hprocessors sampleText
  refine ⟨fun s hs => ?_, s, log, hrun, hstarted.trans hlines, hreleased⟩
  rw [← hlimit]
  exact (hreach s hs).1

end Batch

end Reckoner
