import Reckoner.Proofs.Brackets
import Reckoner.Proofs.Faults

/-!
# One pass and two

Applying tokens as they leave the conversion, with the first fault held back, comes to
the same as applying them when the conversion is over. A conversion that fails comes
first in both.
-/

namespace Reckoner.Rules

variable (rules : Rules)

/-- Lexical tokens have no fault that is not held, so all of them are taken. -/
theorem foldlM_applyHeld {tokens : List Token} (ht : ∀ t ∈ tokens, t.Lexical) (held : Except Fault (List Float)) :
    tokens.foldlM rules.applyHeld held =
      .ok (held >>= fun values => tokens.foldlM (fun values t => rules.apply t values) values) := by
  induction tokens generalizing held with
  | nil => cases held <;> rfl
  | cons t tokens ih =>
    obtain ⟨hlex, hrest⟩ := List.forall_mem_cons.mp ht
    rw [List.foldlM_cons]
    cases held with
    | error fault => exact ih hrest (.error fault)
    | ok values =>
      rw [ok_bind, List.foldlM_cons]
      cases h : rules.apply t values with
      | error fault =>
        have hf := isExpression_of_apply hlex h
        have hstep : rules.applyHeld (.ok values) t = .ok (.error fault) := by simp [applyHeld, h, hf]
        rw [hstep]
        exact ih hrest (.error fault)
      | ok values' =>
        have hstep : rules.applyHeld (.ok values) t = .ok (.ok values') := by simp [applyHeld, h]
        rw [hstep]
        exact ih hrest (.ok values')

/-- Feeding a passage to the values and holding the first fault: the fault of the passage comes first. -/
theorem convert_applyHeld {tokens : List Token} (ht : ∀ t ∈ tokens, t.Lexical) :
    (Rpn.convert rules.applyHeld (.ok []) tokens >>= fun held => held >>= single) =
      Rpn.ofTokens tokens >>= rules.evaluateRpn := by
  have hout : ∀ t ∈ (Rpn.passage tokens []).out, t.Lexical := fun t h => ht t (Rpn.mem_of_passage t h)
  rw [Rpn.convert, Rpn.convertFrom_eq, Rpn.Release.feed, foldlM_applyHeld rules hout, Rpn.ofTokens_eq]
  cases (Rpn.passage tokens []).rest <;> rfl

theorem evaluateFused_eq (e : Text) : rules.evaluateFused e = rules.evaluateTwoPass e := by
  unfold evaluateFused evaluateTwoPass rpnTokens
  cases h : scan .infixed e with
  | error fault => rfl
  | ok tokens => exact convert_applyHeld rules (lexical_of_scan h)

theorem evaluate_eq (mode : Mode) (e : Text) : rules.evaluate mode e = rules.evaluateTwoPass e := by
  cases mode with
  | twoPass => rfl
  | fused => exact evaluateFused_eq rules e

/-- Both ways of evaluating an expression agree, whatever the rules, and both fail for a
parenthesis without its partner exactly where the tokens do not balance, whatever else is wrong with them. -/
theorem evaluateFused_eq_evaluateTwoPass (e : Text) :
    rules.evaluateFused e = rules.evaluateTwoPass e ∧
      (rules.evaluateFused e = .error .mismatched ↔
        ∃ tokens, scan .infixed e = .ok tokens ∧ ¬ Balanced tokens) := by
  refine ⟨evaluateFused_eq rules e, ?_⟩
  rw [evaluateFused_eq]
  unfold evaluateTwoPass rpnTokens
  cases h : scan .infixed e with
  | error fault =>
    obtain ⟨c, p, rfl⟩ := scanFrom_eq_error h
    simp
  | ok tokens =>
    have hp : ∀ t ∈ tokens, t.Proper := fun t ht => (lexical_of_scan h t ht).proper
    constructor
    · intro hm
      rcases bind_eq_error_iff.mp hm with hc | ⟨out, -, hv⟩
      · exact ⟨tokens, rfl, ((Rpn.ofTokens_eq_error_iff hp).mp hc).2⟩
      · exact absurd hv evaluateRpn_ne_mismatched
    · rintro ⟨tokens', ht, hb⟩
      cases ht
      have hc := (Rpn.ofTokens_eq_error_iff hp).mpr ⟨rfl, hb⟩
      rw [ok_bind, hc]
      rfl

theorem isExpression_of_evaluateTwoPass {e : Text} {fault : Fault} (h : rules.evaluateTwoPass e = .error fault) :
    fault.isExpression = true := by
  rcases bind_eq_error_iff.mp h with hout | ⟨out, hout, hvalue⟩
  · exact isExpression_of_rpnTokens hout
  · exact isExpression_of_evaluateRpn (lexical_of_rpnTokens hout) hvalue

end Reckoner.Rules
