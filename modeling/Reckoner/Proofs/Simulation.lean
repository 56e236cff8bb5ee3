import Mathlib.Data.List.Nodup
import Reckoner.Proofs.Collections

/-!
# Batches and their rosters

Each step of a batch goes through, and is a step of its roster. So a batch ends as
its roster does, with the outcome of every line in its ledger.
-/

namespace Reckoner.Batch

/-- Lines that a batch can be made of. -/
structure Listed (lines : List Line) : Prop where
  good : ∀ l ∈ lines, l.Good
  increasing : lines.Pairwise fun a b => a.number < b.number

variable {lines : List Line}

theorem Listed.nodup_numbers (h : Listed lines) : (lines.map Line.number).Nodup :=
  List.pairwise_map.mpr (h.increasing.imp Nat.ne_of_lt)

theorem Listed.nodup (h : Listed lines) : lines.Nodup := h.nodup_numbers.of_map

/-- Every line is known by its number. -/
theorem Listed.eq_of_number (h : Listed lines) {a b : Line} (ha : a ∈ lines) (hb : b ∈ lines)
    (hn : a.number = b.number) : a = b :=
  List.inj_on_of_nodup_map h.nodup_numbers ha hb hn

variable {plan : Plan} {q : Roster} {s : State}

/-- A batch is where its roster says. -/
structure Shows (plan : Plan) (q : Roster) (s : State) : Prop where
  waiting : s.waiting = q.waiting
  active : s.pool.active = q.active.map Line.runner
  ledger : s.pool.ledger = .ofOutcomes (q.collected.map (outcome plan))
  collections : s.collections = q.collections

theorem mem_of_active (h : q.Keeps plan lines) : ∀ l ∈ q.active, l ∈ lines := by
  intro l hl
  exact h.perm.subset (by simp [Roster.lines, hl])

theorem busy_of_shows (hl : Listed lines) (hq : q.Keeps plan lines) (h : Shows plan q s) : Busy s.pool.runners := by
  intro p hp ha
  have hmem : p ∈ s.pool.active := List.mem_filter.mpr ⟨hp, ha⟩
  rw [h.active] at hmem
  obtain ⟨l, hlmem, rfl⟩ := List.mem_map.mp hmem
  exact ⟨l, hl.good l (mem_of_active hq l hlmem), rfl⟩

/-! ## Choices -/

theorem choose_runner (schedule : Schedule) (n : Nat) (active : List Line) :
    schedule.choose n (active.map Line.runner) = (schedule.chooseLines n active).map Line.runner := by
  have hfilter : (active.map Line.runner).filter (fun p => schedule.ready n p.line.toNat) =
      (active.filter fun l => schedule.ready n l.number).map Line.runner := List.filter_map ..
  unfold Schedule.choose Schedule.chooseLines
  dsimp only
  rw [hfilter, List.isEmpty_map]
  split
  · exact List.map_take.symm
  · rfl

def chosenIds (plan : Plan) (s : State) : List Text :=
  (plan.schedule.choose s.collections s.pool.active).map Runner.id

theorem contains_chosenIds (hl : Listed lines) (hq : q.Keeps plan lines) (h : Shows plan q s) {l : Line}
    (hmem : l ∈ q.active) :
    (chosenIds plan s).contains l.runner.id = (plan.schedule.chooseLines q.collections q.active).contains l := by
  have hsub := (chooseLines_sublist plan.schedule q.collections q.active).subset
  unfold chosenIds
  rw [h.active, h.collections, choose_runner, List.map_map, Bool.eq_iff_iff]
  simp only [List.contains_eq_mem, decide_eq_true_eq, List.mem_map, Function.comp_apply]
  constructor
  · rintro ⟨m, hm, hid⟩
    have hnumber : m.number = l.number := natural_injective hid
    have hsame : m = l :=
      hl.eq_of_number (mem_of_active hq m (hsub hm)) (mem_of_active hq l hmem) hnumber
    rw [← hsame]
    exact hm
  · intro hm
    exact ⟨l, hm, rfl⟩

theorem outcomes_picked (hl : Listed lines) (hq : q.Keeps plan lines) (h : Shows plan q s) :
    ((s.pool.runners.filter (picked (chosenIds plan s))).map fun p => outcome plan p.source) =
      (plan.schedule.chooseLines q.collections q.active).map (outcome plan) := by
  have hpick : s.pool.runners.filter (picked (chosenIds plan s)) =
      s.pool.active.filter fun p => (chosenIds plan s).contains p.id := by
    unfold Pool.active
    rw [List.filter_filter]
    exact List.filter_congr fun p _ => Bool.and_comm ..
  have hchosen : q.active.filter (fun l => (chosenIds plan s).contains l.runner.id) =
      plan.schedule.chooseLines q.collections q.active := by
    rw [List.filter_congr fun l hmem => contains_chosenIds hl hq h hmem]
    exact filter_contains_eq (chooseLines_sublist plan.schedule _ _) (Roster.nodup_active hl.nodup hq)
  rw [hpick, h.active, List.filter_map, List.map_map]
  exact congrArg (List.map (outcome plan)) hchosen

theorem active_not_picked (hl : Listed lines) (hq : q.Keeps plan lines) (h : Shows plan q s) :
    (s.pool.active.filter fun p => !(chosenIds plan s).contains p.id) =
      (q.collect plan.schedule).active.map Line.runner := by
  rw [h.active, List.filter_map]
  refine congrArg (List.map Line.runner) (List.filter_congr fun l hmem => ?_)
  rw [← contains_chosenIds hl hq h hmem]
  rfl

/-! ## Steps -/

theorem any_closed_await (plan : Plan) (ids : List Text) {runners : List Runner} (h : Busy runners) :
    ((runners.map fun p => if picked ids p then deliver plan p else p).filter Runner.active).any Runner.closed =
      false := by
  rw [List.any_eq_false]
  intro p hp
  obtain ⟨hmem, ha⟩ := List.mem_filter.mp hp
  obtain ⟨p', hp', rfl⟩ := List.mem_map.mp hmem
  rw [Bool.not_eq_true]
  split at ha
  · rename_i hpick
    obtain ⟨l, -, rfl⟩ := h p' hp' (Bool.and_eq_true_iff.mp hpick).1
    rw [if_pos hpick]
    exact (flags_deliver plan l).2.2
  · rename_i hpick
    obtain ⟨l, -, rfl⟩ := h p' hp' ha
    rw [if_neg hpick]
    rfl

theorem shows_collect (hl : Listed lines) (hq : q.Keeps plan lines) (h : Shows plan q s) :
    ∃ s' log, collect plan s = .ok (s', log) ∧ Shows plan (q.collect plan.schedule) s' := by
  have hbusy := busy_of_shows hl hq h
  have hawait : await plan s.collections s.pool =
      ⟨s.pool.runners.map fun p => if picked (chosenIds plan s) p then deliver plan p else p, s.pool.ledger⟩ := rfl
  have hclosed := any_closed_await plan (chosenIds plan s) hbusy
  obtain ⟨settled, log, hsettle, hactive⟩ :=
    settleAll_picked plan (chosenIds plan s) hbusy (q.collected.map (outcome plan))
  rw [outcomes_picked hl hq h, ← List.map_append] at hsettle
  have hpool : (await plan s.collections s.pool).collect =
      (⟨settled.map Pool.retire, .ofOutcomes ((q.collect plan.schedule).collected.map (outcome plan))⟩, log, none) := by
    rw [hawait, Pool.collect, Pool.active, hclosed, if_neg Bool.false_ne_true, h.ledger, hsettle]
    rfl
  refine ⟨⟨s.waiting, ⟨settled.map Pool.retire, _⟩, s.collections + 1⟩, log, ?_, h.waiting, ?_, rfl,
    congrArg (· + 1) h.collections⟩
  · unfold collect
    rw [hpool]
    rfl
  · show (settled.map Pool.retire).filter Runner.active = _
    rw [hactive]
    exact active_not_picked hl hq h

theorem shows_spawn (hl : Listed lines) (hq : q.Keeps plan lines) (h : Shows plan q s) {l : Line} {rest : List Line}
    (hw : q.waiting = l :: rest) :
    ∃ pool, spawn plan l s.pool = .ok pool ∧
      Shows plan (q.spawn l rest) { s with waiting := rest, pool } := by
  have hmem : l ∈ lines := hq.perm.subset (by simp [Roster.lines, hw])
  refine ⟨s.pool.add l.runner, spawn_eq plan (hl.good l hmem) s.pool, rfl, ?_, h.ledger, h.collections⟩
  show (s.pool.runners ++ [l.runner]).filter Runner.active = (q.active ++ [l]).map Line.runner
  rw [List.filter_append, List.map_append, ← h.active]
  rfl

/-- A step of a batch goes through, and is the step of its roster. -/
theorem shows_step (hl : Listed lines) (hq : q.Keeps plan lines) (h : Shows plan q s) :
    ∃ s' log, step plan s = .ok (s', log) ∧ Shows plan (q.step plan) s' := by
  have hlength : s.pool.active.length = q.active.length := by rw [h.active, List.length_map]
  have hempty : s.pool.active.isEmpty = q.active.isEmpty := by rw [h.active, List.isEmpty_map]
  unfold step Roster.step
  rw [h.waiting, hlength, hempty]
  cases hw : q.waiting with
  | nil =>
    dsimp only
    split
    · exact ⟨s, [], rfl, h⟩
    · exact shows_collect hl hq h
  | cons l rest =>
    dsimp only
    split
    · obtain ⟨pool, hspawn, hshows⟩ := shows_spawn hl hq h hw
      exact ⟨{ s with waiting := rest, pool }, [], by rw [hspawn], hshows⟩
    · exact shows_collect hl hq h

/-! ## Runs -/

theorem shows_advance (hl : Listed lines) (hlimit : lines ≠ [] → 0 < plan.limit) (n : Nat) (hq : q.Keeps plan lines) (h : Shows plan q s) :
    ∃ s' log, advance plan n s = .ok (s', log) ∧ Shows plan ((Roster.step plan)^[n] q) s' := by
  induction n generalizing q s with
  | zero => exact ⟨s, [], rfl, h⟩
  | succ n ih =>
    obtain ⟨s₁, log, hstep, h₁⟩ := shows_step hl hq h
    obtain ⟨s₂, more, hrest, h₂⟩ := ih (Roster.keeps_step hl.nodup hlimit hq) h₁
    refine ⟨s₂, log ++ more, ?_, ?_⟩
    · rw [advance, hstep, ok_bind]
      dsimp only
      rw [hrest]
      rfl
    · rw [Function.iterate_succ_apply]
      exact h₂

theorem shows_start (plan : Plan) (lines : List Line) : Shows plan (Roster.start lines) (.start lines) :=
  ⟨rfl, rfl, rfl, rfl⟩

theorem advance_of_finished {s : State} (h : s.finished = true) (n : Nat) : advance plan n s = .ok (s, []) := by
  obtain ⟨hw, ha⟩ := Bool.and_eq_true_iff.mp h
  have hwaiting : s.waiting = [] := List.isEmpty_iff.mp hw
  have hstep : step plan s = .ok (s, []) := by
    unfold step
    rw [hwaiting, ha]
    rfl
  induction n with
  | zero => rfl
  | succ n ih =>
    rw [advance, hstep, ok_bind]
    dsimp only
    rw [ih]
    rfl

theorem advance_mono {m n : Nat} {s s' : State} {log : Log} (h : advance plan m s = .ok (s', log))
    (hf : s'.finished = true) (hle : m ≤ n) : advance plan n s = .ok (s', log) := by
  induction m generalizing n s log with
  | zero =>
    cases h
    exact advance_of_finished hf n
  | succ m ih =>
    cases n with
    | zero => exact absurd hle (Nat.not_succ_le_zero m)
    | succ n =>
      rw [advance] at h ⊢
      obtain ⟨⟨s₁, first⟩, hstep, h⟩ := bind_eq_ok_iff.mp h
      obtain ⟨⟨s₂, more⟩, hrest, h⟩ := bind_eq_ok_iff.mp h
      cases h
      rw [hstep, ok_bind]
      dsimp only
      rw [ih (mapError_eq_ok_iff.mp hrest) (Nat.le_of_succ_le_succ hle)]
      rfl

/-- A batch of listed lines finishes, with the outcomes of its lines in the order of its roster. -/
theorem run_eq (plan : Plan) (hl : Listed lines) (hlimit : lines ≠ [] → 0 < plan.limit) :
    ∃ s log, run plan lines = .ok (s, log) ∧ s.finished = true ∧
      s.pool.ledger = .ofOutcomes ((Roster.final plan lines).collected.map (outcome plan)) := by
  obtain ⟨s, log, hrun, h⟩ := shows_advance hl hlimit (2 * lines.length) (Roster.keeps_start plan lines) (shows_start plan lines)
  obtain ⟨hactive, hwaiting, -⟩ := Roster.final_eq hl.nodup hlimit
  refine ⟨s, log, hrun, ?_, h.ledger⟩
  have hs : s.waiting = [] := h.waiting.trans hwaiting
  have hp : s.pool.active = [] := by
    rw [h.active]
    exact congrArg (List.map Line.runner) hactive
  unfold State.finished
  rw [hs, hp]
  rfl

end Reckoner.Batch
