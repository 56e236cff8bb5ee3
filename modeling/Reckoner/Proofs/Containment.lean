import Reckoner.Proofs.Payloads

/-!
# Contained faults

No text makes an evaluation fail otherwise than by a fault of the expression: every token of a scan is
known to the tables and to the reader of numerals. So a worker holds back no fault: it sends one record
for its line, with a value or with the words for what is wrong, and closes its end of the pipe.
-/

namespace Reckoner

/-- The fault of a result, if it has one, is among those allowed. -/
def FailsWith {α : Type} (allowed : Fault → Prop) (result : Except Fault α) : Prop :=
  ∀ fault, result = .error fault → allowed fault

/-! ## Evaluations -/

theorem toRpn_failsWith (e : Text) :
    FailsWith (fun fault => (∃ c p, fault = .unexpected c p) ∨ fault = .mismatched) (toRpn e) := by
  intro fault h
  exact rpnTokens_eq_error (map_eq_error_iff.mp h)

namespace Rules

variable (rules : Rules)

theorem evaluateTwoPass_failsWith (e : Text) :
    FailsWith (fun fault => fault.isExpression = true) (rules.evaluateTwoPass e) :=
  fun _ h => isExpression_of_evaluateTwoPass rules h

/-- Reversed tokens have no parentheses to balance: one that is left over is no operand. -/
theorem evaluateReversed_failsWith (e : Text) :
    FailsWith (fun fault => fault.isExpression = true ∧ fault ≠ .mismatched) (rules.evaluateReversed e) := by
  intro fault h
  rcases bind_eq_error_iff.mp h with hscan | ⟨tokens, hscan, hvalue⟩
  · obtain ⟨c, p, rfl⟩ := scanFrom_eq_error hscan
    simp [Fault.isExpression]
  · refine ⟨isExpression_of_evaluateRpn (lexical_of_scan hscan) hvalue, ?_⟩
    rintro rfl
    exact evaluateRpn_ne_mismatched hvalue

end Rules

/-! ## Workers -/

namespace Worker

variable (w : Worker)

theorem attempt_mode (mode : Mode) : ({ w with mode } : Worker).attempt = w.attempt := by
  rw [attempt_eq, attempt_eq]

theorem run_mode (mode : Mode) : ({ w with mode } : Worker).run = w.run := by
  have hevaluate : ({ w with mode } : Worker).evaluate = w.evaluate := by
    unfold evaluate
    rw [attempt_mode]
  unfold run
  rw [hevaluate]
  rfl

/-- What a worker has to send: its own line and expression, and either the value with the reverse
Polish text or the words for the fault. The record can be read back. -/
structure Sends (payload : Record) : Prop where
  line : payload.get? "line".toList = some (.int w.line)
  expression : payload.get? "expression".toList = some (.text w.expression)
  verdict :
    (∃ rpn x, toRpn w.expression = .ok rpn ∧ Rules.standard.evaluate w.mode w.expression = .ok x ∧
      payload.get? "postfix".toList = some (.text rpn) ∧ payload.get? "result".toList = some (.float x) ∧
      payload.get? "error".toList = some .null) ∨
    ∃ fault, Rules.standard.evaluate w.mode w.expression = .error fault ∧
      payload.get? "postfix".toList = some .null ∧ payload.get? "result".toList = some .null ∧
      payload.get? "error".toList = some (.text fault.message)
  read : ∃ o, Outcome.ofRecord payload = .good o ∧ o.toRecord = payload

variable {w}

theorem signals_of_evaluate {o : Outcome} (h : w.evaluate = .ok o) :
    w.run.signals = [.payload o.toRecord, .close] := by
  unfold run
  rw [h]

theorem exists_sends (hline : 1 ≤ w.line) :
    ∃ payload, w.run.signals = [.payload payload, .close] ∧ w.Sends payload := by
  rcases evaluate_cases w with ⟨rpn, x, hrpn, hvalue, hevaluate⟩ | ⟨fault, hfault, hevaluate⟩
  · obtain ⟨hl, he, hp, hr, hf⟩ := Outcome.toRecord_fields ⟨w.line, w.expression, some rpn, .value x⟩
    exact ⟨_, signals_of_evaluate hevaluate, hl, he, Or.inl ⟨rpn, x, hrpn, hvalue, hp, hr, hf⟩,
      _, Outcome.ofRecord_toRecord hline, rfl⟩
  · obtain ⟨hl, he, hp, hr, hf⟩ :=
      Outcome.toRecord_fields ⟨w.line, w.expression, none, .failure fault.message⟩
    exact ⟨_, signals_of_evaluate hevaluate, hl, he, Or.inr ⟨fault, hfault, hp, hr, hf⟩,
      _, Outcome.ofRecord_toRecord hline, rfl⟩

/-- Whatever the text, only faults of the expression come out of an evaluation. So every worker, in
either mode and with the same result, sends one record that can be read back, and then closes its end. -/
theorem run_contained (hline : 1 ≤ w.line) :
    (∀ (rules : Rules) (e : Text),
      FailsWith (fun fault => fault.isExpression = true) (rules.evaluateTwoPass e) ∧
      FailsWith (fun fault => fault.isExpression = true) (rules.evaluateFused e) ∧
      FailsWith (fun fault => fault.isExpression = true ∧ fault ≠ .mismatched) (rules.evaluateReversed e) ∧
      FailsWith (fun fault => (∃ c p, fault = .unexpected c p) ∨ fault = .mismatched) (toRpn e)) ∧
    (∃ payload, w.run.signals = [.payload payload, .close] ∧ w.Sends payload) ∧
    ∀ mode, ({ w with mode } : Worker).run = w.run := by
  refine ⟨fun rules e => ⟨rules.evaluateTwoPass_failsWith e, ?_, rules.evaluateReversed_failsWith e,
    toRpn_failsWith e⟩, exists_sends hline, run_mode w⟩
  rw [Rules.evaluateFused_eq]
  exact rules.evaluateTwoPass_failsWith e

/-- A worker whose expression is wrong twice: the function is met before the division. -/
def sample : Worker := ⟨"log(2)+1/0".toList, 3, .fused⟩

theorem run_contained_sample :
    1 ≤ sample.line ∧ ∃ payload, sample.run.signals = [.payload payload, .close] ∧
      payload.get? "error".toList = some (.text "invalid expression: unknown function 'log'".toList) := by
  have hline : 1 ≤ sample.line := by decide
  have hfault : Rules.standard.evaluate .fused sample.expression = .error (.unknownFunction "log".toList) := by
    decide +kernel
  obtain ⟨-, ⟨payload, hsignals, hsends⟩, -⟩ := run_contained hline
  rcases hsends.verdict with ⟨rpn, x, -, hvalue, -⟩ | ⟨fault, hvalue, -, -, herror⟩
  · have hboth := hfault.symm.trans hvalue
    cases hboth
  · have hboth := hfault.symm.trans hvalue
    cases hboth
    have hmessage : Fault.message (.unknownFunction "log".toList) =
        "invalid expression: unknown function 'log'".toList := by decide +kernel
    exact ⟨hline, payload, hsignals, by rw [herror, hmessage]⟩

end Worker

end Reckoner
