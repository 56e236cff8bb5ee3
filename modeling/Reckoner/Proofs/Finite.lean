import Reckoner.Proofs.OnePass
import Reckoner.Proofs.PostOrder

/-!
# Finite values

Literals, operators and functions each have a guard of their own, and the last two guards let a value
that is not finite pass where an operand is none. Such an operand is never on the stack: every token
keeps the values finite, whatever its text and whatever the rules.
-/

namespace Reckoner.Rules

def AllFinite (values : List Float) : Prop := ∀ x ∈ values, x.isFinite = true

theorem allFinite_nil : AllFinite [] := by simp [AllFinite]

theorem allFinite_cons {x : Float} {values : List Float} :
    AllFinite (x :: values) ↔ x.isFinite = true ∧ AllFinite values := List.forall_mem_cons

section
variable {rules : Rules} {values values' : List Float}

/-! ## One token -/

theorem isFinite_of_call {name : Text} {x y : Float} (hx : x.isFinite = true) (h : rules.call name x = .ok y) :
    y.isFinite = true := by
  unfold call at h
  split at h
  · cases h
  · rw [hx] at h
    exact isFinite_of_guarded h

theorem isFinite_of_combine {symbol : Text} {a b x : Float} (ha : a.isFinite = true) (hb : b.isFinite = true)
    (h : rules.combine symbol a b = .ok x) : x.isFinite = true := by
  unfold combine at h
  split at h
  · cases h
  · rw [ha, hb] at h
    exact isFinite_of_guarded h

/-- One case for each kind: the guard of the kind, with the operands that the stack has finite. -/
theorem allFinite_apply {t : Token} (hv : AllFinite values) (h : rules.apply t values = .ok values') :
    AllFinite values' := by
  rcases apply_eq_ok h with ⟨-, x, hx, rfl⟩ | ⟨-, x, below, y, rfl, hy, rfl⟩ | ⟨-, a, b, below, x, rfl, hx, rfl⟩
  · exact allFinite_cons.mpr ⟨Token.isFinite_of_value hx, hv⟩
  · obtain ⟨hfinite, hbelow⟩ := allFinite_cons.mp hv
    exact allFinite_cons.mpr ⟨isFinite_of_call hfinite hy, hbelow⟩
  · obtain ⟨hb, hrest⟩ := allFinite_cons.mp hv
    obtain ⟨ha, hbelow⟩ := allFinite_cons.mp hrest
    exact allFinite_cons.mpr ⟨isFinite_of_combine ha hb hx, hbelow⟩

/-! ## Any number of tokens -/

theorem allFinite_foldlM {tokens : List Token} (hv : AllFinite values)
    (h : tokens.foldlM (fun values t => rules.apply t values) values = .ok values') : AllFinite values' := by
  induction tokens generalizing values with
  | nil =>
    cases h
    exact hv
  | cons t tokens ih =>
    rw [List.foldlM_cons] at h
    obtain ⟨next, hnext, hrest⟩ := bind_eq_ok_iff.mp h
    exact ih (allFinite_apply hv hnext) hrest

theorem isFinite_of_evaluateRpn {tokens : List Token} {x : Float} (h : rules.evaluateRpn tokens = .ok x) :
    x.isFinite = true := by
  obtain ⟨values, hvalues, hx⟩ := bind_eq_ok_iff.mp h
  have hall := allFinite_foldlM allFinite_nil hvalues
  rw [single_eq_ok_iff.mp hx] at hall
  exact hall x List.mem_cons_self

theorem isFinite_of_evaluateTwoPass {e : Text} {x : Float} (h : rules.evaluateTwoPass e = .ok x) :
    x.isFinite = true := by
  obtain ⟨tokens, -, hx⟩ := bind_eq_ok_iff.mp h
  exact isFinite_of_evaluateRpn hx

theorem isFinite_of_evaluateReversed {e : Text} {x : Float} (h : rules.evaluateReversed e = .ok x) :
    x.isFinite = true := by
  obtain ⟨tokens, -, hx⟩ := bind_eq_ok_iff.mp h
  exact isFinite_of_evaluateRpn hx

end

/-- The floats that are not finite. -/
def extremes : List Float := [Numeral.infinity, -Numeral.infinity, Numeral.nan]

theorem not_mem_extremes {x : Float} (h : x.isFinite = true) : x ∉ extremes := by
  intro hx
  have hnone : ∀ y ∈ extremes, y.isFinite = false := by decide
  rw [hnone x hx] at h
  cases h

/-- Whatever the tokens and the rules are, the stack is finite after every token that is applied, and
so is the value at the end. No evaluation of a text comes to an infinity or to no number. -/
theorem values_finite (rules : Rules) :
    (∀ tokens front : List Token, front <+: tokens →
      ∀ values, front.foldlM (fun values t => rules.apply t values) [] = .ok values → AllFinite values) ∧
    (∀ (tokens : List Token) (x : Float), rules.evaluateRpn tokens = .ok x → x.isFinite = true) ∧
    ∀ (e : Text) (x : Float),
      rules.evaluateTwoPass e = .ok x ∨ rules.evaluateFused e = .ok x ∨ rules.evaluateReversed e = .ok x →
        x.isFinite = true ∧ x ∉ extremes := by
  refine ⟨?_, fun tokens x h => isFinite_of_evaluateRpn h, ?_⟩
  · intro tokens front _ values h
    exact allFinite_foldlM allFinite_nil h
  · intro e x h
    have hx : x.isFinite = true := by
      rcases h with h | h | h
      · exact isFinite_of_evaluateTwoPass h
      · rw [evaluateFused_eq] at h
        exact isFinite_of_evaluateTwoPass h
      · exact isFinite_of_evaluateReversed h
    exact ⟨hx, not_mem_extremes hx⟩

/-- In the middle of three quarters of sixteen. -/
theorem values_finite_sample :
    [⟨.number, "3".toList, 0⟩, ⟨.number, "4".toList, 2⟩].foldlM (fun values t => standard.apply t values) [] =
        .ok [4, 3] ∧ AllFinite [4, 3] ∧
      standard.evaluateTwoPass "3/4*16".toList = .ok 12 ∧ (12 : Float) ∉ extremes := by
  obtain ⟨hstacks, -, hvalues⟩ := values_finite standard
  have hfront : [⟨.number, "3".toList, 0⟩, ⟨.number, "4".toList, 2⟩].foldlM
      (fun values t => standard.apply t values) [] = .ok [4, 3] := by decide +kernel
  have hvalue : standard.evaluateTwoPass "3/4*16".toList = .ok 12 := by decide +kernel
  exact ⟨hfront, hstacks _ _ (List.prefix_rfl) _ hfront, hvalue, (hvalues _ _ (Or.inl hvalue)).2⟩

end Reckoner.Rules
