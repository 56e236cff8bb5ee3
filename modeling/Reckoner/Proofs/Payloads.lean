import Reckoner.Batch.Pool
import Reckoner.Proofs.OnePass

/-!
# What workers take and send

A worker is made from every line that can be read, evaluates it to an outcome in
either mode, and the record of an outcome is read back as that outcome.
-/

namespace Reckoner

/-! ## Evaluation -/

namespace Worker

/-- The mode does not matter. -/
theorem attempt_eq (w : Worker) :
    w.attempt = rpnTokens w.expression >>= fun tokens =>
      (Rules.standard.evaluateRpn tokens).map fun x => (Token.render tokens, x) := by
  have hfused := Rules.evaluateFused_eq Rules.standard w.expression
  unfold Rules.evaluateTwoPass at hfused
  unfold attempt
  cases h : rpnTokens w.expression with
  | error fault => rfl
  | ok tokens =>
    rw [h, ok_bind] at hfused
    rw [ok_bind, ok_bind, hfused]
    cases w.mode <;> cases Rules.standard.evaluateRpn tokens <;> rfl

theorem attempt_cases (w : Worker) :
    (∃ rpn x, toRpn w.expression = .ok rpn ∧ Rules.standard.evaluate w.mode w.expression = .ok x ∧
      w.attempt = .ok (rpn, x)) ∨
    ∃ fault, Rules.standard.evaluate w.mode w.expression = .error fault ∧ fault.isExpression = true ∧
      w.attempt = .error fault := by
  rw [attempt_eq, Rules.evaluate_eq]
  unfold toRpn Rules.evaluateTwoPass
  cases hout : rpnTokens w.expression with
  | error fault => exact Or.inr ⟨fault, rfl, isExpression_of_rpnTokens hout, rfl⟩
  | ok out =>
    simp only [ok_bind, map_ok]
    cases hvalue : Rules.standard.evaluateRpn out with
    | error fault =>
      exact Or.inr ⟨fault, rfl, Rules.isExpression_of_evaluateRpn (lexical_of_rpnTokens hout) hvalue, rfl⟩
    | ok x => exact Or.inl ⟨_, x, rfl, rfl, rfl⟩

/-- A worker always comes to an outcome: its value with the reverse Polish text, or its fault in words. -/
theorem evaluate_cases (w : Worker) :
    (∃ rpn x, toRpn w.expression = .ok rpn ∧ Rules.standard.evaluate w.mode w.expression = .ok x ∧
      w.evaluate = .ok ⟨w.line, w.expression, some rpn, .value x⟩) ∨
    ∃ fault, Rules.standard.evaluate w.mode w.expression = .error fault ∧
      w.evaluate = .ok ⟨w.line, w.expression, none, .failure fault.message⟩ := by
  unfold evaluate
  rcases attempt_cases w with ⟨rpn, x, hrpn, hvalue, hattempt⟩ | ⟨fault, hfault, hexpression, hattempt⟩
  · exact Or.inl ⟨rpn, x, hrpn, hvalue, by rw [hattempt]⟩
  · exact Or.inr ⟨fault, hfault, by simp [hattempt, hexpression]⟩

theorem evaluate_eq_ok (w : Worker) :
    ∃ o, w.evaluate = .ok o ∧ o.line = w.line ∧ o.expression = w.expression := by
  rcases evaluate_cases w with ⟨rpn, x, -, -, h⟩ | ⟨fault, -, h⟩
  · exact ⟨_, h, rfl, rfl⟩
  · exact ⟨_, h, rfl, rfl⟩

/-! ## Records -/

theorem ofRecord_toRecord {w : Worker} (he : w.expression.allBlank = false) (hl : 1 ≤ w.line) :
    ofRecord w.toRecord = .good w := by
  have hexpression : w.toRecord.get? "expression".toList = some (.text w.expression) := rfl
  have hline : w.toRecord.get? "line_number".toList = some (.int w.line) := rfl
  have hmode : w.toRecord.get? "mode".toList = some (.text w.mode.name) := rfl
  have hleast : ¬ (w.line : Int) < (1 : Nat) := by omega
  simp only [ofRecord, Record.required, Record.withDefault, Record.named, hexpression, hline, hmode,
    Reader.expression, he, Reader.atLeast, Reader.integer, hleast, Reader.oneOf, Mode.ofText?_name]
  rfl

end Worker

namespace Outcome

theorem toRecord_fields (o : Outcome) :
    o.toRecord.get? "line".toList = some (.int o.line) ∧
    o.toRecord.get? "expression".toList = some (.text o.expression) ∧
    o.toRecord.get? "postfix".toList = some (ofText o.rpn) ∧
    o.toRecord.get? "result".toList = some (ofFloat o.value?) ∧
    o.toRecord.get? "error".toList = some (ofText o.failure?) :=
  ⟨rfl, rfl, rfl, rfl, rfl⟩

theorem ofRecord_toRecord {o : Outcome} (hl : 1 ≤ o.line) : ofRecord o.toRecord = .good o := by
  obtain ⟨hline, hexpression, hrpn, hresult, herror⟩ := o.toRecord_fields
  have hleast : ¬ (o.line : Int) < (1 : Nat) := by omega
  have htext : ∀ t, Reader.optional Reader.text (ofText t) = .ok t := by
    intro t
    cases t <;> rfl
  have hfloat : ∀ x, Reader.optional Reader.number (ofFloat x) = .ok x := by
    intro x
    cases x <;> rfl
  have hdraft : Draft.ofRecord o.toRecord = .good ⟨o.line, o.expression, o.rpn, o.value?, o.failure?⟩ := by
    simp only [Draft.ofRecord, Record.required, Record.withDefault, Record.named, hline, hexpression, hrpn,
      hresult, herror, Reader.atLeast, Reader.integer, hleast, htext, hfloat, Reader.text]
    rfl
  rw [ofRecord, hdraft]
  obtain ⟨line, expression, rpn, verdict⟩ := o
  cases verdict <;> rfl

end Outcome

namespace Runner

def obituaryOutcome (p : Runner) : Outcome :=
  ⟨p.line.toNat, p.expression, none, .failure ("worker ".toList ++ p.exitText)⟩

/-- Every field of an obituary, those it leaves out among them. -/
theorem obituary_fields (p : Runner) :
    p.obituary.get? "line".toList = some (.int p.line) ∧
    p.obituary.get? "expression".toList = some (.text p.expression) ∧
    p.obituary.get? "postfix".toList = none ∧
    p.obituary.get? "result".toList = none ∧
    p.obituary.get? "error".toList = some (.text ("worker ".toList ++ p.exitText)) :=
  ⟨rfl, rfl, rfl, rfl, rfl⟩

theorem ofRecord_obituary {p : Runner} (hl : 1 ≤ p.line) :
    Outcome.ofRecord p.obituary = .good p.obituaryOutcome := by
  obtain ⟨hline, hexpression, hrpn, hresult, herror⟩ := p.obituary_fields
  have hleast : ¬ p.line < (1 : Nat) := by omega
  simp only [Outcome.ofRecord, Outcome.Draft.ofRecord, Record.required, Record.withDefault, Record.named,
    hline, hexpression, hrpn, hresult, herror, Reader.atLeast, Reader.integer, hleast, Reader.optional,
    Reader.text]
  rfl

/-- No outcome has a line before the first, and no obituary is read as one. -/
theorem ofRecord_obituary_of_lt {p : Runner} (hl : p.line < 1) :
    Outcome.ofRecord p.obituary = .flawed [⟨some "line".toList, .tooSmall⟩] := by
  obtain ⟨hline, hexpression, hrpn, hresult, herror⟩ := p.obituary_fields
  have hleast : p.line < (1 : Nat) := by omega
  simp only [Outcome.ofRecord, Outcome.Draft.ofRecord, Record.required, Record.withDefault, Record.named,
    hline, hexpression, hrpn, hresult, herror, Reader.atLeast, Reader.integer, hleast, Reader.optional,
    Reader.text]
  rfl

theorem settle_of_nil {p : Runner} (hi : p.inbox = []) (hl : 1 ≤ p.line) :
    p.settle = ({ p with closed := true, joined := true }, [p.obituaryEntry], .ok p.obituaryOutcome) := by
  unfold settle
  rw [hi]
  dsimp only
  rw [ofRecord_obituary hl]
  rfl

theorem settle_of_record {p : Runner} {o : Outcome} (hi : p.inbox = [.record o.toRecord]) (hl : 1 ≤ o.line) :
    p.settle = ({ p with inbox := [], closed := true, joined := true }, [], .ok o) := by
  unfold settle
  rw [hi]
  dsimp only
  rw [Outcome.ofRecord_toRecord hl]
  rfl

end Runner

end Reckoner
