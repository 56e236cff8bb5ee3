import Mathlib.Data.List.Nodup
import Reckoner.Proofs.Sweeps

/-!
# Handovers

Workers are added, send and end while others are collected. At any time the output tells the results, and
every worker has at most one of them, also where a collection stopped half way.
-/

namespace Reckoner

namespace Pool

/-! ## Steps -/

namespace Step

/-- The step can be taken: no id is used twice, and a payload goes into a pipe that is open at both ends. -/
def Allowed (pool : Pool) : Step → Prop
  | add id _ _ _ => id ∉ pool.runners.map Runner.id
  | send id _ => ∃ p ∈ pool.runners, p.id = id ∧ p.ended = false ∧ p.closed = false
  | finish id => id ∈ pool.runners.map Runner.id
  | collect => True

instance (pool : Pool) : (s : Step) → Decidable (s.Allowed pool)
  | add id _ _ _ => inferInstanceAs (Decidable (id ∉ pool.runners.map Runner.id))
  | send id _ =>
    inferInstanceAs (Decidable (∃ p ∈ pool.runners, p.id = id ∧ p.ended = false ∧ p.closed = false))
  | finish id => inferInstanceAs (Decidable (id ∈ pool.runners.map Runner.id))
  | collect => .isTrue trivial

def added? : Step → Option Runner
  | add id line expression exitCode => some { id, line, expression, exitCode }
  | _ => none

def payload? (id : Text) : Step → Option Value
  | send owner payload => if owner = id then some payload else none
  | _ => none

end Step

section
variable {pool : Pool}

theorem ledger_step (s : Step) : (pool.step s).1.ledger = pool.ledger.write (pool.gives s) := by
  cases s with
  | collect =>
    rcases pool.collect_cases with ⟨-, hgives, hcollect⟩ | ⟨-, swept, log, fault, -, hcollect⟩
    · simp [step, hcollect, hgives, Ledger.write]
    · simp [step, hcollect]
  | _ => rfl

theorem fresh_update (id : Text) {f : Runner → Runner} (hf : ∀ p, (f p).fresh = p.fresh) :
    (pool.update id f).runners.map Runner.fresh = pool.runners.map Runner.fresh := by
  have hone : ∀ p : Runner, (if p.id = id then f p else p).fresh = p.fresh := by
    intro p
    split
    · exact hf p
    · rfl
  simp [update, hone]

theorem fresh_dismiss (fault : Option CollectFault) (p : Runner) : (dismiss fault p).fresh = p.fresh := by
  cases fault <;> rfl

theorem fresh_step (pool : Pool) (s : Step) :
    (pool.step s).1.runners.map Runner.fresh = pool.runners.map Runner.fresh ++ s.added?.toList := by
  cases s with
  | add id line expression exitCode => simp [step, Pool.add, Step.added?, Runner.fresh]
  | send id payload =>
    show _ = _ ++ []
    rw [List.append_nil]
    exact fresh_update id fun _ => rfl
  | finish id =>
    show _ = _ ++ []
    rw [List.append_nil]
    exact fresh_update id fun _ => rfl
  | collect =>
    show _ = _ ++ []
    rw [step, List.append_nil]
    rcases pool.collect_cases with ⟨-, -, hcollect⟩ | ⟨-, swept, log, fault, hsweep, hcollect⟩
    · rw [hcollect]
    · have hdismiss : Runner.fresh ∘ dismiss fault = Runner.fresh := funext (fresh_dismiss fault)
      rw [hcollect, List.map_map, hdismiss, fresh_sweep hsweep]

theorem ids_step (pool : Pool) (s : Step) :
    (pool.step s).1.runners.map Runner.id = pool.runners.map Runner.id ++ (s.added?.map Runner.id).toList := by
  have := congrArg (List.map Runner.id) (pool.fresh_step s)
  rw [List.map_append, List.map_map, List.map_map] at this
  cases s <;> exact this

theorem nodup_ids_step (h : (pool.runners.map Runner.id).Nodup) {s : Step} (hs : s.Allowed pool) :
    ((pool.step s).1.runners.map Runner.id).Nodup := by
  rw [ids_step]
  cases s with
  | add id line expression exitCode => exact List.nodup_append_comm.mp (List.nodup_cons.mpr ⟨hs, h⟩)
  | _ => simpa [Step.added?] using h

/-! ### Stuck pools -/

theorem collect_of_stuck (h : pool.Stuck) : pool.collect = (pool, [], some .closedPipe) := by
  simp [collect, any_closed_iff.mpr h]

theorem stuck_step (h : pool.Stuck) (s : Step) : (pool.step s).1.Stuck := by
  obtain ⟨p, hp, ha, hc⟩ := h
  cases s with
  | add id line expression exitCode => exact ⟨p, by simp [step, Pool.add, hp], ha, hc⟩
  | send id payload => exact ⟨_, List.mem_map_of_mem hp, by split <;> exact ⟨ha, hc⟩⟩
  | finish id => exact ⟨_, List.mem_map_of_mem hp, by split <;> exact ⟨ha, hc⟩⟩
  | collect =>
    rw [step, collect_of_stuck ⟨p, hp, ha, hc⟩]
    exact ⟨p, hp, ha, hc⟩

theorem stuck_of_fault {s : Step} {fault : CollectFault} (h : (pool.step s).2.2 = some fault) :
    (pool.step s).1.Stuck := by
  cases s with
  | collect =>
    rw [step] at h ⊢
    rcases pool.collect_cases with ⟨hs, -, hcollect⟩ | ⟨-, swept, log, _, hsweep, hcollect⟩
    · rw [hcollect]
      exact hs
    · rw [hcollect] at h ⊢
      obtain ⟨front, p, back, -, hd, -, rfl, -⟩ := sweep_some hsweep h
      cases h
      obtain ⟨ha, -⟩ := Bool.and_eq_true_iff.mp hd
      exact ⟨p.broken, by simp [dismiss], ha, rfl⟩
  | _ => cases h

theorem not_stuck_step (h : ¬ pool.Stuck) {s : Step} (hs : (pool.step s).2.2 = none) :
    ¬ (pool.step s).1.Stuck := by
  rintro ⟨q, hq, ha, hc⟩
  cases s with
  | add id line expression exitCode =>
    rcases List.mem_append.mp hq with hq | hq
    · exact h ⟨q, hq, ha, hc⟩
    · rw [List.mem_singleton.mp hq] at hc
      cases hc
  | send id payload =>
    obtain ⟨p, hp, rfl⟩ := List.mem_map.mp hq
    exact h ⟨p, hp, by split at ha <;> exact ha, by split at hc <;> exact hc⟩
  | finish id =>
    obtain ⟨p, hp, rfl⟩ := List.mem_map.mp hq
    exact h ⟨p, hp, by split at ha <;> exact ha, by split at hc <;> exact hc⟩
  | collect =>
    rw [step] at hs hq
    rcases pool.collect_cases with ⟨hstuck, -⟩ | ⟨-, swept, log, fault, -, hcollect⟩
    · exact h hstuck
    · rw [hcollect] at hs hq
      cases hs
      obtain ⟨p, -, rfl⟩ := List.mem_map.mp hq
      simp_all [dismiss, retire]

end

/-! ## Runs -/

def after (pool : Pool) (steps : List Step) : Pool := steps.foldl (fun pool s => (pool.step s).1) pool

/-- What was written in the course of the steps, and for whom. -/
def history : Pool → List Step → List (Text × Outcome)
  | _, [] => []
  | pool, s :: rest => pool.gives s ++ history (pool.step s).1 rest

def sent (id : Text) (steps : List Step) : List Value := steps.filterMap (Step.payload? id)

def received (id : Text) (given : List (Text × Outcome)) : List Outcome :=
  given.filterMap fun handover => if handover.1 = id then some handover.2 else none

/-- Every step can be taken when it is its turn. -/
def Admissible : Pool → List Step → Prop
  | _, [] => True
  | pool, s :: rest => s.Allowed pool ∧ Admissible (pool.step s).1 rest

/-- No step ends in a fault. -/
def Smooth : Pool → List Step → Prop
  | _, [] => True
  | pool, s :: rest => (pool.step s).2.2 = none ∧ Smooth (pool.step s).1 rest

instance decidableAdmissible : (pool : Pool) → (steps : List Step) → Decidable (Admissible pool steps)
  | _, [] => .isTrue trivial
  | pool, s :: rest =>
    have := decidableAdmissible (pool.step s).1 rest
    inferInstanceAs (Decidable (s.Allowed pool ∧ Admissible (pool.step s).1 rest))

instance decidableSmooth : (pool : Pool) → (steps : List Step) → Decidable (Smooth pool steps)
  | _, [] => .isTrue trivial
  | pool, s :: rest =>
    have := decidableSmooth (pool.step s).1 rest
    inferInstanceAs (Decidable ((pool.step s).2.2 = none ∧ Smooth (pool.step s).1 rest))

theorem sent_cons (id : Text) (s : Step) (steps : List Step) :
    sent id (s :: steps) = (s.payload? id).toList ++ sent id steps := by
  cases h : s.payload? id <;> simp [sent, h]

theorem received_append (id : Text) (given more : List (Text × Outcome)) :
    received id (given ++ more) = received id given ++ received id more := by
  simp [received]

theorem ledger_after (pool : Pool) (steps : List Step) :
    (after pool steps).ledger = pool.ledger.write (history pool steps) := by
  induction steps generalizing pool with
  | nil => rfl
  | cons s steps ih =>
    have := ih (pool.step s).1
    rw [ledger_step] at this
    simpa [after, history, Ledger.write] using this

theorem fresh_after (pool : Pool) (steps : List Step) :
    (after pool steps).runners.map Runner.fresh =
      pool.runners.map Runner.fresh ++ steps.filterMap Step.added? := by
  induction steps generalizing pool with
  | nil => simp [after]
  | cons s steps ih =>
    have := ih (pool.step s).1
    rw [fresh_step] at this
    cases h : s.added? <;> simpa [after, h] using this

theorem stuck_after {pool : Pool} (h : pool.Stuck) (steps : List Step) : (after pool steps).Stuck := by
  induction steps generalizing pool with
  | nil => exact h
  | cons s rest ih => exact ih (stuck_step h s)

theorem smooth_iff {pool : Pool} (h : ¬ pool.Stuck) (steps : List Step) :
    Smooth pool steps ↔ ¬ (after pool steps).Stuck := by
  induction steps generalizing pool with
  | nil => simpa [Smooth, after] using h
  | cons s rest ih =>
    show (pool.step s).2.2 = none ∧ Smooth (pool.step s).1 rest ↔ ¬ (after (pool.step s).1 rest).Stuck
    cases hs : (pool.step s).2.2 with
    | none => simpa using ih (not_stuck_step h hs)
    | some fault =>
      have := stuck_after (stuck_of_fault hs) rest
      simp [this]

end Pool

/-! ## Standing -/

namespace Runner

/-- Where a worker stands, by the payloads it sent and the outcomes that were written for it. -/
inductive Standing (p : Runner) (payloads : List Value) : List Outcome → Prop
  | waiting : p.active = true → p.closed = false → p.joined = false → p.inbox = payloads →
      Standing p payloads []
  | written {o : Outcome} : p.closed = true → p.joined = true → p.Leaves payloads o → Standing p payloads [o]
  | refused {fault : CollectFault} : p.active = true → p.closed = true → p.Refused payloads fault →
      Standing p payloads []

theorem waiting_of_open {p : Runner} {payloads : List Value} {outcomes : List Outcome}
    (h : p.Standing payloads outcomes) (hc : p.closed = false) :
    p.active = true ∧ p.joined = false ∧ p.inbox = payloads ∧ outcomes = [] := by
  cases h with
  | waiting ha _ hj hi => exact ⟨ha, hj, hi, rfl⟩
  | written hclosed => simp [hc] at hclosed
  | refused _ hclosed => simp [hc] at hclosed

theorem written_of_inactive {p : Runner} {payloads : List Value} {outcomes : List Outcome}
    (h : p.Standing payloads outcomes) (ha : p.active = false) : p.joined = true ∧ ∃ o, outcomes = [o] := by
  cases h with
  | waiting hactive => simp [ha] at hactive
  | written _ hj _ => exact ⟨hj, _, rfl⟩
  | refused hactive => simp [ha] at hactive

theorem standing_ended {p : Runner} {payloads : List Value} {outcomes : List Outcome}
    (h : p.Standing payloads outcomes) : ({ p with ended := true } : Runner).Standing payloads outcomes := by
  cases h with
  | waiting ha hc hj hi => exact .waiting ha hc hj hi
  | written hc hj hl =>
    have hfresh : ({ p with ended := true } : Runner).fresh = p.fresh := rfl
    exact .written hc hj (leaves_of_fresh hfresh hl)
  | refused ha hc hr =>
    have hfresh : ({ p with ended := true } : Runner).fresh = p.fresh := rfl
    exact .refused ha hc (refused_of_fresh hfresh hr)

end Runner

namespace Pool

section
variable {runners swept : List Runner} {given : List (Text × Outcome)} {fault : Option CollectFault}

theorem received_sweep (h : Sweep runners swept given fault) {id : Text} (hid : id ∉ runners.map Runner.id) :
    received id given = [] := by
  induction h with
  | done => rfl
  | pass _ _ ih => exact ih fun hin => hid (List.mem_cons_of_mem _ hin)
  | @take p _ _ _ _ _ _ _ _ ih =>
    rw [List.map_cons, List.mem_cons, not_or] at hid
    have := ih hid.2
    simpa [received, Ne.symm hid.1] using this
  | stop => rfl

/-- A collection takes every runner from where it stood to where it stands with what it was given. -/
theorem standing_sweep (h : Sweep runners swept given fault) (hids : (runners.map Runner.id).Nodup)
    (hopen : ∀ p ∈ runners, p.active = true → p.closed = false)
    {payloads : Text → List Value} {outcomes : Text → List Outcome}
    (hs : ∀ p ∈ runners, p.Standing (payloads p.id) (outcomes p.id)) :
    ∀ q ∈ swept, (dismiss fault q).Standing (payloads q.id) (outcomes q.id ++ received q.id given) := by
  induction h with
  | done => simp
  | @pass p rest swept given fault _ hrest ih =>
    obtain ⟨hnot, hids⟩ := List.nodup_cons.mp hids
    obtain ⟨hp, hopen⟩ := List.forall_mem_cons.mp hopen
    obtain ⟨hsp, hs⟩ := List.forall_mem_cons.mp hs
    refine List.forall_mem_cons.mpr ⟨?_, ih hids hopen hs⟩
    rw [received_sweep hrest hnot, List.append_nil, dismiss_of_open hp]
    exact hsp
  | @take p rest swept given fault o hd hleaves hrest ih =>
    obtain ⟨hnot, hids⟩ := List.nodup_cons.mp hids
    obtain ⟨hp, hopen⟩ := List.forall_mem_cons.mp hopen
    obtain ⟨hsp, hs⟩ := List.forall_mem_cons.mp hs
    obtain ⟨hactive, -⟩ := Bool.and_eq_true_iff.mp hd
    obtain ⟨-, -, hinbox, hnothing⟩ := Runner.waiting_of_open hsp (hp hactive)
    refine List.forall_mem_cons.mpr ⟨?_, ?_⟩
    · have hone : received p.id ((p.id, o) :: given) = [o] := by
        have hnone := received_sweep hrest hnot
        simpa [received] using hnone
      show (dismiss fault p.taken).Standing (payloads p.id) (outcomes p.id ++ received p.id ((p.id, o) :: given))
      rw [hone, hnothing, ← hinbox]
      have hfresh : (dismiss fault p.taken).fresh = p.fresh := fresh_dismiss fault p.taken
      cases fault <;> exact .written rfl rfl (Runner.leaves_of_fresh hfresh hleaves)
    · intro q hq
      have hne : p.id ≠ q.id := by
        intro he
        rw [he, ← Runner.ids_of_fresh (fresh_sweep hrest)] at hnot
        exact hnot (List.mem_map_of_mem hq)
      have hskip : received q.id ((p.id, o) :: given) = received q.id given := by simp [received, hne]
      rw [hskip]
      exact ih hids hopen hs q hq
  | @stop p rest fault hd hrefused =>
    obtain ⟨hp, hopen⟩ := List.forall_mem_cons.mp hopen
    obtain ⟨hsp, hs⟩ := List.forall_mem_cons.mp hs
    obtain ⟨hactive, -⟩ := Bool.and_eq_true_iff.mp hd
    obtain ⟨-, -, hinbox, hnothing⟩ := Runner.waiting_of_open hsp (hp hactive)
    refine List.forall_mem_cons.mpr ⟨?_, ?_⟩
    · show p.broken.Standing (payloads p.id) (outcomes p.id ++ [])
      rw [hnothing, ← hinbox]
      have hfresh : p.broken.fresh = p.fresh := rfl
      exact .refused hactive rfl (Runner.refused_of_fresh hfresh hrefused)
    · intro q hq
      show q.Standing (payloads q.id) (outcomes q.id ++ [])
      rw [List.append_nil]
      exact hs q hq

end

/-- The invariant of a run: ids are different, nothing was sent or written for an id that is not there, and
everybody stands somewhere. -/
structure Books (pool : Pool) (payloads : Text → List Value) (outcomes : Text → List Outcome) : Prop where
  ids : (pool.runners.map Runner.id).Nodup
  strangers : ∀ id, id ∉ pool.runners.map Runner.id → payloads id = [] ∧ outcomes id = []
  standing : ∀ p ∈ pool.runners, p.Standing (payloads p.id) (outcomes p.id)

theorem strangers_step {pool : Pool} {s : Step} (hs : s.Allowed pool) {id : Text}
    (hid : id ∉ pool.runners.map Runner.id) : s.payload? id = none ∧ received id (pool.gives s) = [] := by
  cases s with
  | send owner payload =>
    obtain ⟨p, hp, rfl, -⟩ := hs
    have hne : p.id ≠ id := by
      rintro rfl
      exact hid (List.mem_map_of_mem hp)
    simp [Step.payload?, hne, gives, received]
  | collect =>
    rcases pool.collect_cases with ⟨-, hgives, -⟩ | ⟨-, swept, log, fault, hsweep, -⟩
    · simp [Step.payload?, hgives, received]
    · exact ⟨rfl, received_sweep hsweep hid⟩
  | _ => exact ⟨rfl, rfl⟩

section
variable {pool : Pool} {payloads : Text → List Value} {outcomes : Text → List Outcome}

theorem standing_step (h : Books pool payloads outcomes) {s : Step} (hs : s.Allowed pool) :
    ∀ q ∈ (pool.step s).1.runners,
      q.Standing (payloads q.id ++ (s.payload? q.id).toList) (outcomes q.id ++ received q.id (pool.gives s)) := by
  intro q hq
  cases s with
  | add id line expression exitCode =>
    rcases List.mem_append.mp hq with hq | hq
    · simpa [Step.payload?, gives, received] using h.standing q hq
    · obtain ⟨hpayloads, houtcomes⟩ := h.strangers id hs
      rw [List.mem_singleton.mp hq]
      simpa [Step.payload?, gives, received, hpayloads, houtcomes] using Runner.Standing.waiting rfl rfl rfl rfl
  | send id payload =>
    obtain ⟨p, hp, rfl⟩ := List.mem_map.mp hq
    obtain ⟨r, hr, rfl, -, hopen⟩ := hs
    by_cases hid : p.id = r.id
    · -- Ids are different, so this is the runner whose pipe is open.
      obtain rfl : p = r := List.inj_on_of_nodup_map h.ids hp hr hid
      obtain ⟨ha, hj, hinbox, hnothing⟩ := Runner.waiting_of_open (h.standing p hp) hopen
      have hwaits : ({ p with inbox := p.inbox ++ [payload] } : Runner).Standing (payloads p.id ++ [payload]) [] :=
        .waiting ha hopen hj (by rw [hinbox])
      simpa [Step.payload?, gives, received, hnothing] using hwaits
    · simpa [Step.payload?, gives, received, hid, Ne.symm hid] using h.standing p hp
  | finish id =>
    obtain ⟨p, hp, rfl⟩ := List.mem_map.mp hq
    by_cases hid : p.id = id
    · simpa [Step.payload?, gives, received, hid] using Runner.standing_ended (h.standing p hp)
    · simpa [Step.payload?, gives, received, hid] using h.standing p hp
  | collect =>
    rw [step] at hq
    rcases pool.collect_cases with ⟨-, hgives, hcollect⟩ | ⟨hopen, swept, log, fault, hsweep, hcollect⟩
    · rw [hcollect] at hq
      simpa [hgives, Step.payload?, received] using h.standing q hq
    · rw [hcollect] at hq
      obtain ⟨p, hp, rfl⟩ := List.mem_map.mp hq
      have hsame : (dismiss fault p).id = p.id := by cases fault <;> rfl
      have hstands := standing_sweep hsweep h.ids (fun r hr => open_of_not_stuck hopen hr) h.standing p hp
      simpa [Step.payload?, hsame] using hstands

theorem books_step (h : Books pool payloads outcomes) {s : Step} (hs : s.Allowed pool) :
    Books (pool.step s).1 (fun id => payloads id ++ (s.payload? id).toList)
      (fun id => outcomes id ++ received id (pool.gives s)) := by
  refine ⟨nodup_ids_step h.ids hs, ?_, standing_step h hs⟩
  intro id hid
  rw [ids_step, List.mem_append, not_or] at hid
  obtain ⟨hpayload, hreceived⟩ := strangers_step hs hid.1
  simpa [hpayload, hreceived] using h.strangers id hid.1

theorem books_after {steps : List Step} (h : Books pool payloads outcomes) (hs : Admissible pool steps) :
    Books (after pool steps) (fun id => payloads id ++ sent id steps)
      (fun id => outcomes id ++ received id (history pool steps)) := by
  induction steps generalizing pool payloads outcomes with
  | nil => simpa [after, sent, history, received] using h
  | cons s rest ih =>
    have := ih (books_step h hs.1) hs.2
    simpa only [after, List.foldl_cons, history, sent_cons, received_append, List.append_assoc] using this

end

theorem books_empty : Books .empty (fun _ => []) (fun _ => []) :=
  ⟨List.nodup_nil, fun _ _ => ⟨rfl, rfl⟩, fun p hp => by cases hp⟩

theorem not_stuck_empty : ¬ Pool.empty.Stuck := by
  rintro ⟨p, hp, -⟩
  cases hp

/-! ## Accounts -/

/-- What a collection without a fault does: the runners that are ready hand over in their order and leave,
and all others stay as they are. -/
structure Collected (pool pool' : Pool) : Prop where
  handed : List.Forall₂ Hands (pool.active.filter Runner.ready) (pool.gives .collect)
  ledger : pool'.ledger = pool.ledger.write (pool.gives .collect)
  runners : pool'.runners = pool.runners.map fun p => if p.due then { p.taken with active := false } else p

/-- What a collection does that stops at a runner: those before it that are ready have handed over and were
joined, those behind it stay as they are, and nobody leaves. -/
structure Stopped (pool pool' : Pool) (fault : CollectFault) (front : List Runner) (p : Runner)
    (back : List Runner) : Prop where
  split : pool.runners = front ++ p :: back
  due : p.due = true
  refused : p.Refused p.inbox fault
  handed : List.Forall₂ Hands (front.filter Runner.due) (pool.gives .collect)
  ledger : pool'.ledger = pool.ledger.write (pool.gives .collect)
  runners : pool'.runners = front.map visit ++ p.broken :: back
  active : pool'.active.map Runner.fresh = pool.active.map Runner.fresh
  joined : p.inbox ≠ [] →
    (pool'.active.filter Runner.joined).map Runner.id = (front.filter Runner.due).map Runner.id

section
variable {pool pool' : Pool} {log : Log}

theorem collected_of_collect (h : pool.collect = (pool', log, none)) : Collected pool pool' := by
  rcases pool.collect_cases with ⟨-, -, hcollect⟩ | ⟨hopen, swept, log', fault, hsweep, hcollect⟩
  · rw [hcollect] at h
    cases h
  · rw [hcollect] at h
    cases h
    obtain ⟨rfl, hgiven⟩ := sweep_none hsweep rfl
    refine ⟨?_, rfl, ?_⟩
    · have hdue : pool.active.filter Runner.ready = pool.runners.filter Runner.due := by
        rw [active, List.filter_filter]
        exact List.filter_congr fun p _ => Bool.and_comm ..
      rw [hdue]
      exact hgiven
    · rw [List.map_map]
      refine List.map_congr_left fun p hp => ?_
      by_cases hd : p.due = true
      · simp [visit, hd, dismiss, retire, Runner.taken]
      · simp [visit, hd, dismiss_of_open (open_of_not_stuck hopen hp)]

theorem active_visit (p : Runner) : (visit p).active = p.active := by
  unfold visit
  split <;> rfl

theorem fresh_visit (p : Runner) : (visit p).fresh = p.fresh := by
  unfold visit
  split <;> rfl

theorem filter_active_visit (runners : List Runner) :
    (runners.map visit).filter Runner.active = (runners.filter Runner.active).map visit := by
  rw [List.filter_map]
  congr 1
  exact List.filter_congr fun p _ => active_visit p

/-- Where no active runner was joined before, those joined are those that were due. -/
theorem filter_joined_visit {runners : List Runner}
    (h : ∀ p ∈ runners, p.active = true → p.joined = false) :
    ((runners.map visit).filter Runner.active).filter Runner.joined = (runners.filter Runner.due).map visit := by
  rw [filter_active_visit, List.filter_map, List.filter_filter]
  congr 1
  refine List.filter_congr fun p hp => ?_
  show ((visit p).joined && p.active) = p.due
  by_cases hd : p.due = true
  · obtain ⟨ha, -⟩ := Bool.and_eq_true_iff.mp hd
    simp [visit, hd, Runner.taken, ha]
  · have hd : p.due = false := by simpa using hd
    cases ha : p.active with
    | false => simp [hd]
    | true => simp [visit, hd, h p hp ha]

theorem stopped_of_collect {fault : CollectFault} (hopen : ¬ pool.Stuck)
    (hjoined : ∀ p ∈ pool.runners, p.active = true → p.joined = false)
    (h : pool.collect = (pool', log, some fault)) :
    ∃ front p back, Stopped pool pool' fault front p back := by
  rcases pool.collect_cases with ⟨hstuck, -⟩ | ⟨-, swept, log', fault', hsweep, hcollect⟩
  · exact absurd hstuck hopen
  · rw [hcollect] at h
    cases h
    obtain ⟨front, p, back, hsplit, hd, hrefused, rfl, hgiven⟩ := sweep_some hsweep rfl
    have hsame : (front.map visit ++ p.broken :: back).map (dismiss (some fault)) =
        front.map visit ++ p.broken :: back := by
      simp [show dismiss (some fault) = id from rfl]
    obtain ⟨ha, -⟩ := Bool.and_eq_true_iff.mp hd
    have hbroken : p.broken.active = true := ha
    rw [hsplit] at hjoined
    obtain ⟨hfront, hrest⟩ := List.forall_mem_append.mp hjoined
    obtain ⟨hp, hback⟩ := List.forall_mem_cons.mp hrest
    refine ⟨front, p, back, hsplit, hd, hrefused, hgiven, rfl, hsame, ?_, ?_⟩
    · have hfresh : Runner.fresh ∘ visit = Runner.fresh := funext fresh_visit
      have hfreshp : p.broken.fresh = p.fresh := rfl
      simp [active, hsame, hsplit, filter_active_visit, ha, hbroken, hfresh, hfreshp]
    · intro hinbox
      have hunjoined : p.broken.joined = false := by
        simp [Runner.broken, hp ha, hinbox]
      have hnone : (back.filter Runner.active).filter Runner.joined = [] := by
        refine List.filter_eq_nil_iff.mpr fun q hq => ?_
        obtain ⟨hq, ha⟩ := List.mem_filter.mp hq
        simp [hback q hq ha]
      have hid : Runner.id ∘ visit = Runner.id := funext fun q => (congrArg Runner.id (fresh_visit q) :)
      rw [active, hsame, List.filter_append, List.filter_append, filter_joined_visit hfront,
        List.filter_cons_of_pos hbroken, List.filter_cons_of_neg (by simp [hunjoined]), hnone,
        List.append_nil, List.map_map, hid]

end

/-- What is known of a pool that started empty, after the steps that were taken. -/
structure Accounts (steps : List Step) (pool : Pool) : Prop where
  output : pool.ledger.output = pool.ledger.results.flatMap fun o => o.render ++ ['\n']
  results : pool.ledger.results = (history .empty steps).map Prod.snd
  added : pool.runners.map Runner.fresh = steps.filterMap Step.added?
  order : (pool.active.map Runner.fresh).Sublist (steps.filterMap Step.added?)
  ids : (pool.runners.map Runner.id).Nodup
  standing : ∀ p ∈ pool.runners, p.Standing (sent p.id steps) (received p.id (history .empty steps))
  settled : Smooth .empty steps → ∀ p ∈ pool.runners,
    (p.active = true ∧ p.joined = false ∧ received p.id (history .empty steps) = []) ∨
    (p.active = false ∧ p.joined = true ∧ ∃ o, received p.id (history .empty steps) = [o])
  collected : ∀ pool' log, pool.collect = (pool', log, none) → Collected pool pool'
  stopped : Smooth .empty steps → ∀ pool' log fault, pool.collect = (pool', log, some fault) →
    ∃ front p back, Stopped pool pool' fault front p back
  stuck : ¬ Smooth .empty steps → pool.collect = (pool, [], some .closedPipe)

/-- In whatever order workers are added, send, end and are collected, the output tells the results, and every
worker has at most one of them: the first thing it sent, or its obituary. -/
theorem accounts_of_admissible {steps : List Step} (h : Admissible .empty steps) :
    Accounts steps (after .empty steps) := by
  have hbooks := books_after books_empty h
  have hledger : (after .empty steps).ledger = .ofOutcomes ((history .empty steps).map Prod.snd) := by
    rw [ledger_after]
    exact write_ofOutcomes [] _
  have hadded : (after .empty steps).runners.map Runner.fresh = steps.filterMap Step.added? :=
    fresh_after .empty steps
  have hwaiting : ¬ (after .empty steps).Stuck → ∀ p ∈ (after .empty steps).runners, p.active = true →
      p.joined = false ∧ received p.id (history .empty steps) = [] := by
    intro hopen p hp ha
    obtain ⟨-, hj, -, hnothing⟩ :=
      Runner.waiting_of_open (hbooks.standing p hp) (open_of_not_stuck hopen hp ha)
    exact ⟨hj, hnothing⟩
  refine ⟨by rw [hledger]; rfl, by rw [hledger]; rfl, hadded, ?_, hbooks.ids, hbooks.standing, ?_,
    fun _ _ => collected_of_collect, ?_, ?_⟩
  · rw [← hadded]
    exact List.filter_sublist.map _
  · intro hs p hp
    have hopen := (smooth_iff not_stuck_empty steps).mp hs
    cases ha : p.active with
    | true => exact Or.inl ⟨rfl, hwaiting hopen p hp ha⟩
    | false =>
      obtain ⟨hj, o, hreceived⟩ := Runner.written_of_inactive (hbooks.standing p hp) ha
      exact Or.inr ⟨rfl, hj, o, hreceived⟩
  · intro hs pool' log fault hcollect
    have hopen := (smooth_iff not_stuck_empty steps).mp hs
    exact stopped_of_collect hopen (fun p hp ha => (hwaiting hopen p hp ha).1) hcollect
  · intro hs
    apply collect_of_stuck
    by_contra hopen
    exact hs ((smooth_iff not_stuck_empty steps).mpr hopen)

/-- One worker ended in silence and was collected. Then another sent an outcome and more, the next one sent
what is no outcome, and the last one ended. -/
def sample : List Step :=
  [.add ['a'] 1 "1+1".toList 0, .add ['b'] 2 "2".toList 9, .finish ['b'], .collect,
    .send ['a'] (.record (Outcome.toRecord ⟨1, "1+1".toList, some "1 1 +".toList, .value 2⟩)),
    .send ['a'] .null, .add ['c'] 3 "3".toList 0, .send ['c'] (.int 7), .add ['d'] 4 "4".toList 0,
    .finish ['d']]

theorem accounts_sample : Admissible .empty sample ∧ Smooth .empty sample ∧
    ∃ pool front p back, Stopped (after .empty sample) pool .notARecord front p back := by
  have hadmissible : Admissible .empty sample := by decide +kernel
  have hsmooth : Smooth .empty sample := by decide +kernel
  have hfault : (after .empty sample).collect.2.2 = some .notARecord := by decide +kernel
  obtain ⟨front, p, back, h⟩ := (accounts_of_admissible hadmissible).stopped hsmooth
    (after .empty sample).collect.1 (after .empty sample).collect.2.1 .notARecord (by rw [← hfault])
  exact ⟨hadmissible, hsmooth, _, front, p, back, h⟩

end Pool

end Reckoner
