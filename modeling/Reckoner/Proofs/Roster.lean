import Mathlib.Data.List.Basic
import Mathlib.Logic.Function.Iterate
import Reckoner.Batch.Run

/-!
# Rosters

A roster is a batch without its workers: it keeps only which lines are collected, at
work and waiting. No line is lost or doubled on the way, and under every schedule a
roster runs out after two steps a line.
-/

namespace Reckoner.Batch

/-! ## Chosen lines -/

/-- The lines whose workers a collection finds ready. -/
def Schedule.chooseLines (s : Schedule) (collection : Nat) (active : List Line) : List Line :=
  let chosen := active.filter fun l => s.ready collection l.number
  if chosen.isEmpty then active.take 1 else chosen

theorem chooseLines_sublist (s : Schedule) (collection : Nat) (active : List Line) :
    (s.chooseLines collection active).Sublist active := by
  unfold Schedule.chooseLines
  dsimp only
  split
  · exact List.take_sublist 1 active
  · exact List.filter_sublist

theorem chooseLines_ne_nil (s : Schedule) (collection : Nat) {active : List Line} (h : active ≠ []) :
    s.chooseLines collection active ≠ [] := by
  unfold Schedule.chooseLines
  dsimp only
  split
  · simpa using h
  · rename_i hne
    simpa using hne

theorem filter_contains_eq {chosen active : List Line} (h : chosen.Sublist active) (hn : active.Nodup) :
    active.filter chosen.contains = chosen := by
  induction h with
  | slnil => rfl
  | @cons chosen active l hsub ih =>
    obtain ⟨hl, hn⟩ := List.nodup_cons.mp hn
    have hnot : chosen.contains l = false := by
      rw [List.contains_eq_mem, decide_eq_false_iff_not]
      exact fun hmem => hl (hsub.subset hmem)
    rw [List.filter_cons, hnot]
    exact ih hn
  | @cons_cons chosen active l hsub ih =>
    obtain ⟨hl, hn⟩ := List.nodup_cons.mp hn
    have hcongr : active.filter (l :: chosen).contains = active.filter chosen.contains := by
      refine List.filter_congr fun x hx => ?_
      have hne : x ≠ l := fun h => hl (h ▸ hx)
      simp [hne]
    rw [List.filter_cons, if_pos (by simp), hcongr, ih hn]

/-! ## Steps -/

/-- The lines collected, in that order, those that workers are busy with, and those that wait. -/
structure Roster where
  collected : List Line
  active : List Line
  waiting : List Line
  collections : Nat

namespace Roster

def start (lines : List Line) : Roster := ⟨[], [], lines, 0⟩

def collect (s : Schedule) (q : Roster) : Roster :=
  let chosen := s.chooseLines q.collections q.active
  { q with
    collected := q.collected ++ chosen
    active := q.active.filter fun l => !chosen.contains l
    collections := q.collections + 1 }

def spawn (l : Line) (rest : List Line) (q : Roster) : Roster :=
  { q with active := q.active ++ [l], waiting := rest }

def step (plan : Plan) (q : Roster) : Roster :=
  match q.waiting with
  | l :: rest => if q.active.length < plan.limit then q.spawn l rest else q.collect plan.schedule
  | [] => if q.active.isEmpty then q else q.collect plan.schedule

/-- A line needs one step to be started and one to be collected. -/
def remaining (q : Roster) : Nat := 2 * q.waiting.length + q.active.length

def lines (q : Roster) : List Line := q.collected ++ (q.active ++ q.waiting)

/-- What a step keeps: the lines, and no more workers than the limit. With one worker at a time
the lines also keep their order. -/
structure Keeps (plan : Plan) (lines : List Line) (q : Roster) : Prop where
  perm : q.lines.Perm lines
  bounded : q.active.length ≤ plan.limit
  ordered : plan.limit ≤ 1 → q.lines = lines

variable {plan : Plan} {lines : List Line} {q : Roster}

theorem nodup_active (hn : lines.Nodup) (h : q.Keeps plan lines) : q.active.Nodup := by
  have hall := h.perm.symm.nodup hn
  unfold Roster.lines at hall
  exact (List.nodup_append.mp (List.nodup_append.mp hall).2.1).1

theorem collect_perm (hn : q.active.Nodup) (s : Schedule) :
    (s.chooseLines q.collections q.active ++ (q.collect s).active).Perm q.active := by
  have hsub := chooseLines_sublist s q.collections q.active
  have hperm := List.filter_append_perm (s.chooseLines q.collections q.active).contains q.active
  rw [filter_contains_eq hsub hn] at hperm
  exact hperm

theorem collect_length_lt (hn : q.active.Nodup) (s : Schedule) (hne : q.active ≠ []) :
    (q.collect s).active.length < q.active.length := by
  have hlength := (collect_perm hn s).length_eq
  have hpos := List.length_pos_iff.mpr (chooseLines_ne_nil s q.collections hne)
  rw [List.length_append] at hlength
  omega

/-- Of at most one line there is only one order. -/
theorem collect_eq (hn : q.active.Nodup) (s : Schedule) (hone : q.active.length ≤ 1) :
    s.chooseLines q.collections q.active ++ (q.collect s).active = q.active := by
  have hperm := collect_perm hn s
  cases hq : q.active with
  | nil =>
    rw [hq] at hperm
    exact hperm.eq_nil
  | cons l more =>
    have hmore : more = [] := by
      rw [hq, List.length_cons] at hone
      exact List.eq_nil_of_length_eq_zero (by omega)
    rw [hq, hmore] at hperm
    rw [hmore]
    exact List.perm_singleton.mp hperm

theorem keeps_collect (hn : lines.Nodup) (h : q.Keeps plan lines) :
    (q.collect plan.schedule).Keeps plan lines := by
  have hactive := nodup_active hn h
  have hperm := collect_perm hactive plan.schedule
  have hlines : (q.collect plan.schedule).lines = q.collected ++
      (plan.schedule.chooseLines q.collections q.active ++ (q.collect plan.schedule).active ++ q.waiting) := by
    simp [Roster.lines, Roster.collect]
  have hbounded := h.bounded
  constructor
  · rw [hlines]
    exact ((hperm.append_right _).append_left _).trans h.perm
  · have hlength := hperm.length_eq
    rw [List.length_append] at hlength
    omega
  · intro hone
    rw [hlines, collect_eq hactive plan.schedule (by omega)]
    exact h.ordered hone

/-- All that a step can be: a start, the end, or a collection, for which a worker is active. -/
theorem step_cases (hlimit : q.waiting ≠ [] → 0 < plan.limit) :
    (∃ l rest, q.waiting = l :: rest ∧ q.active.length < plan.limit ∧ q.step plan = q.spawn l rest) ∨
    (q.waiting = [] ∧ q.active = [] ∧ q.step plan = q) ∨
    (q.active ≠ [] ∧ q.step plan = q.collect plan.schedule) := by
  cases hw : q.waiting with
  | nil =>
    by_cases hidle : q.active = []
    · exact Or.inr (Or.inl ⟨rfl, hidle, by simp [step, hw, hidle]⟩)
    · exact Or.inr (Or.inr ⟨hidle, by simp [step, hw, hidle]⟩)
  | cons l rest =>
    by_cases hroom : q.active.length < plan.limit
    · exact Or.inl ⟨l, rest, rfl, hroom, by simp [step, hw, hroom]⟩
    · have hpos := hlimit (by simp [hw])
      have hbusy : q.active ≠ [] := by
        intro hnil
        simp [hnil] at hroom
        omega
      exact Or.inr (Or.inr ⟨hbusy, by simp [step, hw, hroom]⟩)

theorem limit_of_waiting (hlimit : lines ≠ [] → 0 < plan.limit) (h : q.Keeps plan lines) (hne : q.waiting ≠ []) :
    0 < plan.limit := by
  obtain ⟨l, hl⟩ := List.exists_mem_of_ne_nil _ hne
  have hmem : l ∈ lines := h.perm.subset (by simp [Roster.lines, hl])
  exact hlimit (List.ne_nil_of_mem hmem)

theorem keeps_spawn (h : q.Keeps plan lines) {l : Line} {rest : List Line} (hw : q.waiting = l :: rest)
    (hroom : q.active.length < plan.limit) : (q.spawn l rest).Keeps plan lines := by
  have hlines : (q.spawn l rest).lines = q.lines := by simp [Roster.lines, spawn, hw]
  constructor
  · rw [hlines]
    exact h.perm
  · simp [spawn]
    omega
  · intro hone
    rw [hlines]
    exact h.ordered hone

theorem keeps_step (hn : lines.Nodup) (hlimit : lines ≠ [] → 0 < plan.limit) (h : q.Keeps plan lines) :
    (q.step plan).Keeps plan lines := by
  rcases step_cases (limit_of_waiting hlimit h) with ⟨l, rest, hw, hroom, hs⟩ | ⟨-, -, hs⟩ | ⟨-, hs⟩
  · rw [hs]
    exact keeps_spawn h hw hroom
  · rw [hs]
    exact h
  · rw [hs]
    exact keeps_collect hn h

theorem remaining_step (hn : lines.Nodup) (hlimit : lines ≠ [] → 0 < plan.limit) (h : q.Keeps plan lines) :
    (q.step plan).remaining ≤ q.remaining - 1 := by
  rcases step_cases (limit_of_waiting hlimit h) with ⟨l, rest, hw, -, hs⟩ | ⟨hw, ha, hs⟩ | ⟨hbusy, hs⟩
  · rw [hs]
    simp [remaining, spawn, hw]
    omega
  · rw [hs]
    simp [remaining, hw, ha]
  · have hlt := collect_length_lt (nodup_active hn h) plan.schedule hbusy
    have hw : (q.collect plan.schedule).waiting = q.waiting := rfl
    rw [hs]
    simp [remaining, hw]
    omega

/-! ## Runs -/

theorem keeps_iterate (hn : lines.Nodup) (hlimit : lines ≠ [] → 0 < plan.limit) (n : Nat)
    (h : q.Keeps plan lines) : ((step plan)^[n] q).Keeps plan lines := by
  induction n generalizing q with
  | zero => exact h
  | succ n ih =>
    rw [Function.iterate_succ_apply]
    exact ih (keeps_step hn hlimit h)

theorem remaining_iterate (hn : lines.Nodup) (hlimit : lines ≠ [] → 0 < plan.limit) (n : Nat)
    (h : q.Keeps plan lines) (hle : q.remaining ≤ n) : ((step plan)^[n] q).remaining = 0 := by
  induction n generalizing q with
  | zero => exact Nat.le_zero.mp hle
  | succ n ih =>
    have hstep := remaining_step hn hlimit h
    rw [Function.iterate_succ_apply]
    exact ih (keeps_step hn hlimit h) (by omega)

theorem keeps_start (plan : Plan) (lines : List Line) : (start lines).Keeps plan lines :=
  ⟨List.Perm.refl lines, Nat.zero_le _, fun _ => rfl⟩

/-- The roster when every line has had two steps. -/
def final (plan : Plan) (lines : List Line) : Roster := (step plan)^[2 * lines.length] (start lines)

theorem final_eq (hn : lines.Nodup) (hlimit : lines ≠ [] → 0 < plan.limit) :
    (final plan lines).active = [] ∧ (final plan lines).waiting = [] ∧
      (final plan lines).collected = (final plan lines).lines := by
  have hzero : (final plan lines).remaining = 0 :=
    remaining_iterate hn hlimit _ (keeps_start plan lines) (Nat.le_refl _)
  unfold remaining at hzero
  have hactive : (final plan lines).active = [] := List.eq_nil_of_length_eq_zero (by omega)
  have hwaiting : (final plan lines).waiting = [] := List.eq_nil_of_length_eq_zero (by omega)
  refine ⟨hactive, hwaiting, ?_⟩
  rw [Roster.lines, hactive, hwaiting]
  simp

theorem final_perm (hn : lines.Nodup) (hlimit : lines ≠ [] → 0 < plan.limit) :
    (final plan lines).collected.Perm lines := by
  rw [(final_eq hn hlimit).2.2]
  exact (keeps_iterate hn hlimit _ (keeps_start plan lines)).perm

theorem final_of_limit (hn : lines.Nodup) (hlimit : lines ≠ [] → 0 < plan.limit) (hone : plan.limit ≤ 1) :
    (final plan lines).collected = lines := by
  rw [(final_eq hn hlimit).2.2]
  exact (keeps_iterate hn hlimit _ (keeps_start plan lines)).ordered hone

end Roster

end Reckoner.Batch
