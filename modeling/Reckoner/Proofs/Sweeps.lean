import Reckoner.Proofs.Collections

/-!
# Sweeps

A collection goes through the runners in their order. It takes an outcome from each one that is due and stops
at the first that leaves none: those before it are written by then, and nobody has been taken off the active
list. An active worker whose pipe is closed stops every later collection before it begins.
-/

namespace Reckoner

namespace Runner

/-! ## What a worker leaves -/

def due (p : Runner) : Bool := p.active && p.ready

/-- The outcome of a worker that sent these payloads: the one sent first, or its obituary if there is none. -/
inductive Leaves (p : Runner) : List Value → Outcome → Prop
  | sent {r : Record} {rest : List Value} {o : Outcome} : Outcome.ofRecord r = .good o →
      Leaves p (.record r :: rest) o
  | silence : 1 ≤ p.line → Leaves p [] p.obituaryOutcome

/-- Why a worker that sent these payloads leaves no outcome. -/
inductive Refused (p : Runner) : List Value → CollectFault → Prop
  | flawed {r : Record} {rest : List Value} {flaws : List Flaw} : Outcome.ofRecord r = .flawed flaws →
      Refused p (.record r :: rest) (.invalid flaws)
  | notARecord {v : Value} {rest : List Value} : (∀ r, v ≠ .record r) → Refused p (v :: rest) .notARecord
  | silence : p.line < 1 → Refused p [] (.invalid [⟨some "line".toList, .tooSmall⟩])

/-- The runner when its outcome was written. -/
def taken (p : Runner) : Runner := { p with inbox := p.inbox.tail, closed := true, joined := true }

/-- The runner when it left no outcome. Only one that sent nothing is joined. -/
def broken (p : Runner) : Runner :=
  { p with inbox := p.inbox.tail, closed := true, joined := p.joined || p.inbox.isEmpty }

theorem settle_cases (p : Runner) :
    (∃ o log, p.Leaves p.inbox o ∧ p.settle = (p.taken, log, .ok o)) ∨
    ∃ fault log, p.Refused p.inbox fault ∧ p.settle = (p.broken, log, .error fault) := by
  unfold taken broken
  cases hi : p.inbox with
  | nil =>
    by_cases hl : 1 ≤ p.line
    · exact Or.inl ⟨_, [p.obituaryEntry], .silence hl, by simp [settle_of_nil hi hl, hi]⟩
    · refine Or.inr ⟨_, [p.obituaryEntry], .silence (by omega), ?_⟩
      simp [settle, hi, accept, ofRecord_obituary_of_lt (show p.line < 1 by omega)]
  | cons v rest =>
    cases v with
    | record r =>
      cases ho : Outcome.ofRecord r with
      | good o => exact Or.inl ⟨o, [], .sent ho, by simp [settle, hi, accept, ho]⟩
      | flawed flaws => exact Or.inr ⟨_, [], .flawed ho, by simp [settle, hi, accept, ho]⟩
    | _ => exact Or.inr ⟨_, [], .notARecord (by simp), by simp [settle, hi]⟩

def fresh (p : Runner) : Runner :=
  { id := p.id, line := p.line, expression := p.expression, exitCode := p.exitCode }

section
variable {p q : Runner} {payloads : List Value} (h : q.fresh = p.fresh)
include h

theorem leaves_of_fresh {o : Outcome} (hl : p.Leaves payloads o) : q.Leaves payloads o := by
  have hline : q.line = p.line := (congrArg Runner.line h :)
  have hobituary : q.obituaryOutcome = p.obituaryOutcome := (congrArg obituaryOutcome h :)
  cases hl with
  | sent ho => exact .sent ho
  | silence hl =>
    rw [← hobituary]
    exact .silence (by omega)

theorem refused_of_fresh {fault : CollectFault} (hr : p.Refused payloads fault) : q.Refused payloads fault := by
  have hline : q.line = p.line := (congrArg Runner.line h :)
  cases hr with
  | flawed hf => exact .flawed hf
  | notARecord hv => exact .notARecord hv
  | silence hl => exact .silence (by omega)

end

theorem ids_of_fresh {runners runners' : List Runner} (h : runners'.map fresh = runners.map fresh) :
    runners'.map Runner.id = runners.map Runner.id := by
  have := congrArg (List.map Runner.id) h
  rw [List.map_map, List.map_map] at this
  exact this

end Runner

/-! ## Sweeps -/

def Ledger.write (l : Ledger) (given : List (Text × Outcome)) : Ledger :=
  given.foldl (fun l handover => l.add handover.2) l

theorem write_ofOutcomes (written : List Outcome) (given : List (Text × Outcome)) :
    (Ledger.ofOutcomes written).write given = .ofOutcomes (written ++ given.map Prod.snd) := by
  induction given generalizing written with
  | nil => simp [Ledger.write]
  | cons handover given ih =>
    have := ih (written ++ [handover.2])
    simpa [Ledger.write, add_ofOutcomes] using this

namespace Pool

/-- The workers that a collection of these runners writes, with what they left. -/
def handovers : List Runner → List (Text × Outcome)
  | [] => []
  | p :: rest =>
    if p.due then
      match p.settle with
      | (_, _, .ok o) => (p.id, o) :: handovers rest
      | (_, _, .error _) => []
    else handovers rest

/-- All that settling can do to runners in their order: it passes by one that is not due, takes the outcome
of one that is, and stops at the first that leaves none. -/
inductive Sweep : List Runner → List Runner → List (Text × Outcome) → Option CollectFault → Prop
  | done : Sweep [] [] [] none
  | pass {p : Runner} {rest swept : List Runner} {given : List (Text × Outcome)} {fault : Option CollectFault} :
      p.due = false → Sweep rest swept given fault → Sweep (p :: rest) (p :: swept) given fault
  | take {p : Runner} {rest swept : List Runner} {given : List (Text × Outcome)} {fault : Option CollectFault}
      {o : Outcome} : p.due = true → p.Leaves p.inbox o → Sweep rest swept given fault →
      Sweep (p :: rest) (p.taken :: swept) ((p.id, o) :: given) fault
  | stop {p : Runner} {rest : List Runner} {fault : CollectFault} : p.due = true → p.Refused p.inbox fault →
      Sweep (p :: rest) (p.broken :: rest) [] (some fault)

theorem sweep_settleAll (runners : List Runner) (ledger : Ledger) :
    ∃ swept log fault, Sweep runners swept (handovers runners) fault ∧
      settleAll runners ledger = (swept, ledger.write (handovers runners), log, fault) := by
  induction runners generalizing ledger with
  | nil => exact ⟨[], [], none, .done, rfl⟩
  | cons p rest ih =>
    by_cases hd : p.due = true
    · rcases p.settle_cases with ⟨o, log, hleaves, hsettle⟩ | ⟨fault, log, hrefused, hsettle⟩
      · have hgiven : handovers (p :: rest) = (p.id, o) :: handovers rest := by simp [handovers, hd, hsettle]
        obtain ⟨swept, more, fault, hsweep, hrest⟩ := ih (ledger.add o)
        rw [hgiven]
        refine ⟨p.taken :: swept, log ++ more, fault, .take hd hleaves hsweep, ?_⟩
        rw [Batch.settleAll_cons_of_settle hd hsettle, hrest]
        rfl
      · have hgiven : handovers (p :: rest) = [] := by simp [handovers, hd, hsettle]
        rw [hgiven]
        refine ⟨p.broken :: rest, log, some fault, .stop hd hrefused, ?_⟩
        rw [settleAll, if_pos (show (p.active && p.ready) = true from hd), hsettle]
        rfl
    · have hgiven : handovers (p :: rest) = handovers rest := by simp [handovers, hd]
      obtain ⟨swept, log, fault, hsweep, hrest⟩ := ih ledger
      have hd : p.due = false := by simpa using hd
      rw [hgiven]
      refine ⟨p :: swept, log, fault, .pass hd hsweep, ?_⟩
      rw [Batch.settleAll_cons_of_not hd, hrest]

section
variable {runners swept : List Runner} {given : List (Text × Outcome)} {fault : Option CollectFault}

theorem fresh_sweep (h : Sweep runners swept given fault) : swept.map Runner.fresh = runners.map Runner.fresh := by
  induction h with
  | done => rfl
  | pass _ _ ih => simp [ih]
  | take _ _ _ ih => simp [ih, Runner.fresh, Runner.taken]
  | stop => simp [Runner.fresh, Runner.broken]

def Hands (p : Runner) (handover : Text × Outcome) : Prop :=
  handover.1 = p.id ∧ p.Leaves p.inbox handover.2

def visit (p : Runner) : Runner := if p.due then p.taken else p

/-- Without a fault the runners that are due hand over, and the others stay as they are. -/
theorem sweep_none (h : Sweep runners swept given fault) (hf : fault = none) :
    swept = runners.map visit ∧ List.Forall₂ Hands (runners.filter Runner.due) given := by
  induction h with
  | done => exact ⟨rfl, .nil⟩
  | pass hd _ ih =>
    obtain ⟨rfl, hgiven⟩ := ih hf
    simpa [visit, hd] using hgiven
  | take hd hleaves _ ih =>
    obtain ⟨rfl, hgiven⟩ := ih hf
    simpa [visit, hd] using ⟨⟨rfl, hleaves⟩, hgiven⟩
  | stop => cases hf

/-- With a fault those before the runner at fault were swept without one. -/
theorem sweep_some {reason : CollectFault} (h : Sweep runners swept given fault) (hf : fault = some reason) :
    ∃ front p back, runners = front ++ p :: back ∧ p.due = true ∧ p.Refused p.inbox reason ∧
      swept = front.map visit ++ p.broken :: back ∧ List.Forall₂ Hands (front.filter Runner.due) given := by
  induction h with
  | done => cases hf
  | @pass p rest swept given fault hd _ ih =>
    obtain ⟨front, q, back, rfl, hq, hrefused, rfl, hgiven⟩ := ih hf
    exact ⟨p :: front, q, back, rfl, hq, hrefused, by simp [visit, hd], by simpa [hd] using hgiven⟩
  | @take p rest swept given fault o hd hleaves _ ih =>
    obtain ⟨front, q, back, rfl, hq, hrefused, rfl, hgiven⟩ := ih hf
    exact ⟨p :: front, q, back, rfl, hq, hrefused, by simp [visit, hd],
      by simpa [hd] using ⟨⟨rfl, hleaves⟩, hgiven⟩⟩
  | @stop p rest fault hd hrefused =>
    cases hf
    exact ⟨[], p, rest, rfl, hd, hrefused, rfl, .nil⟩

end

/-! ## One collection -/

/-- A collection left an active runner behind whose pipe is closed. -/
def Stuck (pool : Pool) : Prop := ∃ p ∈ pool.runners, p.active = true ∧ p.closed = true

theorem any_closed_iff {pool : Pool} : pool.active.any Runner.closed = true ↔ pool.Stuck := by
  simp [active, Stuck]

theorem open_of_not_stuck {pool : Pool} (h : ¬ pool.Stuck) {p : Runner} (hp : p ∈ pool.runners)
    (ha : p.active = true) : p.closed = false := by
  by_contra hc
  exact h ⟨p, hp, ha, by simpa using hc⟩

def gives (pool : Pool) : Step → List (Text × Outcome)
  | .collect => if pool.active.any Runner.closed then [] else handovers pool.runners
  | _ => []

/-- A runner when the collection is over. After a fault nobody retires. -/
def dismiss : Option CollectFault → Runner → Runner
  | none, p => retire p
  | some _, p => p

theorem collect_cases (pool : Pool) :
    (pool.Stuck ∧ pool.gives .collect = [] ∧ pool.collect = (pool, [], some .closedPipe)) ∨
    (¬ pool.Stuck ∧ ∃ swept log fault, Sweep pool.runners swept (pool.gives .collect) fault ∧
      pool.collect = (⟨swept.map (dismiss fault), pool.ledger.write (pool.gives .collect)⟩, log, fault)) := by
  by_cases hc : pool.active.any Runner.closed = true
  · exact Or.inl ⟨any_closed_iff.mp hc, by simp [gives, hc], by simp [collect, hc]⟩
  · have hgives : pool.gives .collect = handovers pool.runners := by simp [gives, hc]
    obtain ⟨swept, log, fault, hsweep, hsettle⟩ := sweep_settleAll pool.runners pool.ledger
    rw [hgives]
    refine Or.inr ⟨fun h => hc (any_closed_iff.mpr h), swept, log, fault, hsweep, ?_⟩
    rw [collect, if_neg hc, hsettle]
    cases fault with
    | none => rfl
    | some fault => simp [show dismiss (some fault) = id from rfl]

theorem dismiss_of_open {p : Runner} (h : p.active = true → p.closed = false) (fault : Option CollectFault) :
    dismiss fault p = p := by
  cases fault with
  | none =>
    cases p
    simp_all [dismiss, retire]
  | some => rfl

end Pool

end Reckoner
