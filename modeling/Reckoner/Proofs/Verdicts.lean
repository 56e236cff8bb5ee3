import Reckoner.Proofs.PostOrder

/-!
# What an evaluation comes to

Tokens in reverse Polish order have a value exactly when they are the post-order of a tree that has one,
and the tree is theirs alone. Otherwise the first token that cannot be applied says what is wrong, or, if
there is none, the number of values that are left.
-/

namespace Reckoner

namespace Tree

/-- Numbers as leaves, functions of the table over one operand, and operators of the table over two. -/
inductive Registered : Tree → Prop
  | number {t} : t.kind = .number → Registered (number t)
  | call {f x g} : f.kind = .identifier → Function.ofText? f.text = some g → Registered x → Registered (call f x)
  | binary {l o r p} : o.kind = .operator → Operator.ofText? o.text = some p → Registered l → Registered r →
      Registered (binary l o r)

theorem Registered.bare {t : Tree} (h : t.Registered) : t.Bare := by
  induction h with
  | number hk => exact .number hk
  | call hk _ _ ih => exact .call hk ih
  | binary hk _ _ _ ihl ihr => exact .binary hk ihl ihr

theorem registered_of_value {rules : Rules} {t : Tree} (ht : t.Bare) :
    ∀ {x : Float}, t.value rules = .ok x → t.Registered := by
  induction ht with
  | number hk => exact fun _ => .number hk
  | @call f x hk _ ih =>
    intro y h
    obtain ⟨z, hz, hy⟩ := bind_eq_ok_iff.mp h
    cases hf : Function.ofText? f.text with
    | none => simp [Rules.call, hf] at hy
    | some g => exact .call hk hf (ih hz)
  | @binary l o r hk _ _ ihl ihr =>
    intro y h
    obtain ⟨a, ha, h⟩ := bind_eq_ok_iff.mp h
    obtain ⟨b, hb, hy⟩ := bind_eq_ok_iff.mp h
    cases ho : Operator.ofText? o.text with
    | none => simp [Rules.combine, ho] at hy
    | some p => exact .binary hk ho (ihl ha) (ihr hb)

end Tree

namespace Rules

/-- Why a token cannot be applied to the values below it: a function that is not known comes before an
operand that is missing, and that before a rule that fails. -/
inductive Refuses (rules : Rules) : Token → List Float → Fault → Prop
  | literal {t values fault} : t.kind = .number → t.value = .error fault → Refuses rules t values fault
  | unknown {t values} : t.kind = .identifier → Function.ofText? t.text = none →
      Refuses rules t values (.unknownFunction t.text)
  | noArgument {t f} : t.kind = .identifier → Function.ofText? t.text = some f → Refuses rules t [] .invalid
  | call {t f x below fault} : t.kind = .identifier → Function.ofText? t.text = some f →
      rules.call t.text x = .error fault → Refuses rules t (x :: below) fault
  | fewOperands {t values} : t.kind = .operator → values.length < 2 → Refuses rules t values .invalid
  | combine {t a b below fault} : t.kind = .operator → rules.combine t.text a b = .error fault →
      Refuses rules t (b :: a :: below) fault
  | parenthesis {t values} : t.kind = .parenthesis → Refuses rules t values .invalid

section
variable {rules : Rules} {t : Token} {values : List Float} {fault : Fault}

theorem refuses_of_apply (h : rules.apply t values = .error fault) : Refuses rules t values fault := by
  unfold apply at h
  cases hk : t.kind with
  | number =>
    rw [hk] at h
    exact .literal hk (map_eq_error_iff.mp h)
  | identifier =>
    rw [hk] at h
    cases hf : Function.ofText? t.text with
    | none =>
      simp only [hf, Option.isNone_none, if_true] at h
      cases h
      exact .unknown hk hf
    | some f =>
      simp only [hf, Option.isNone_some, Bool.false_eq_true, if_false] at h
      cases values with
      | nil =>
        cases h
        exact .noArgument hk hf
      | cons x below => exact .call hk hf (map_eq_error_iff.mp h)
  | operator =>
    rw [hk] at h
    rcases values with _ | ⟨b, _ | ⟨a, below⟩⟩
    · cases h
      exact .fewOperands hk (by simp)
    · cases h
      exact .fewOperands hk (by simp)
    · exact .combine hk (map_eq_error_iff.mp h)
  | parenthesis =>
    rw [hk] at h
    cases h
    exact .parenthesis hk

theorem apply_of_refuses (h : Refuses rules t values fault) : rules.apply t values = .error fault := by
  cases h with
  | literal hk hv => rw [apply_number hk, hv, map_error]
  | unknown hk hf => simp [apply, hk, hf]
  | noArgument hk hf => simp [apply, hk, hf]
  | call hk _ hc => rw [apply_identifier hk, hc, map_error]
  | fewOperands hk hlen =>
    rcases values with _ | ⟨b, _ | ⟨a, below⟩⟩
    · simp [apply, hk]
    · simp [apply, hk]
    · exact absurd hlen (by simp)
  | combine hk hc => rw [apply_operator hk, hc, map_error]
  | parenthesis hk => simp [apply, hk]

/-! ## Values before a token -/

theorem foldlM_of_spells {tokens : List Token} (h : Spells rules tokens values) :
    tokens.foldlM (fun values t => rules.apply t values) [] = .ok values := by
  induction h with
  | nil => rfl
  | @push tokens values t x _ ht hx ih =>
    have htree := Tree.foldlM_rpn rules ht [] values
    rw [List.append_nil, hx] at htree
    rw [List.foldlM_append, ih, ok_bind, htree]
    rfl

theorem spells_iff {tokens : List Token} :
    Spells rules tokens values ↔ tokens.foldlM (fun values t => rules.apply t values) [] = .ok values :=
  ⟨foldlM_of_spells, spells_foldlM .nil⟩

end

/-- What is wrong with tokens that have no value. All before the token that is refused spells trees, whose
values it finds. -/
inductive Fails (rules : Rules) (tokens : List Token) : Fault → Prop
  | refused {front t rest values fault} : tokens = front ++ t :: rest → Spells rules front values →
      Refuses rules t values fault → Fails rules tokens fault
  | leftOver {values} : Spells rules tokens values → values.length ≠ 1 → Fails rules tokens .invalid

theorem evaluateRpn_eq_error_iff {rules : Rules} {tokens : List Token} {fault : Fault} :
    rules.evaluateRpn tokens = .error fault ↔ rules.Fails tokens fault := by
  constructor
  · intro h
    rcases bind_eq_error_iff.mp h with h | ⟨values, hvalues, h⟩
    · obtain ⟨front, t, rest, values, htokens, hfront, ht⟩ := foldlM_eq_error_iff.mp h
      exact .refused htokens (spells_iff.mpr hfront) (refuses_of_apply ht)
    · obtain ⟨hlen, rfl⟩ := single_eq_error h
      exact .leftOver (spells_iff.mpr hvalues) hlen
  · intro h
    cases h with
    | @refused front t rest values _ htokens hfront ht =>
      have hfold := foldlM_eq_error_iff.mpr
        ⟨front, t, rest, values, htokens, spells_iff.mp hfront, apply_of_refuses ht⟩
      rw [evaluateRpn, hfold, error_bind]
    | @leftOver values hs hlen =>
      rw [evaluateRpn, spells_iff.mp hs, ok_bind]
      rcases values with _ | ⟨x, _ | ⟨y, below⟩⟩
      · rfl
      · simp at hlen
      · rfl

theorem evaluateRpn_eq_ok_iff {rules : Rules} {tokens : List Token} {x : Float} :
    rules.evaluateRpn tokens = .ok x ↔ ∃ t : Tree, t.Registered ∧ t.rpn = tokens ∧ t.value rules = .ok x := by
  constructor
  · intro h
    obtain ⟨t, ht, hrpn, hx⟩ := exists_tree_of_evaluateRpn h
    exact ⟨t, Tree.registered_of_value ht hx, hrpn, hx⟩
  · rintro ⟨t, ht, rfl, hx⟩
    rw [Tree.evaluateRpn_of_bare rules ht.bare, hx]

/-- Tokens have a value exactly when they are the post-order of a tree with that value, which no other tree
has as its post-order. Everything else fails at the first token that is refused, or with the number of values left. -/
theorem evaluateRpn_verdict (rules : Rules) (tokens : List Token) :
    (∀ x, rules.evaluateRpn tokens = .ok x ↔
      ∃ t : Tree, t.Registered ∧ t.rpn = tokens ∧ t.value rules = .ok x) ∧
    (∀ t u : Tree, t.Registered → u.Registered → t.rpn = tokens → u.rpn = tokens → t = u) ∧
    ∀ fault, rules.evaluateRpn tokens = .error fault ↔ rules.Fails tokens fault := by
  refine ⟨fun x => evaluateRpn_eq_ok_iff, ?_, fun fault => evaluateRpn_eq_error_iff⟩
  rintro t u ht hu rfl hsame
  exact Tree.rpn_inj ht.bare hu.bare hsame.symm

/-- The negative of a difference. -/
def difference : List Token :=
  [⟨.number, "8".toList, 0⟩, ⟨.number, "2".toList, 2⟩, ⟨.operator, "-".toList, 4⟩,
    ⟨.identifier, "neg".toList, 6⟩]

/-- A division by zero before a function that is not known and an operator without operands. -/
def faulty : List Token :=
  [⟨.number, "1".toList, 0⟩, ⟨.number, "0".toList, 2⟩, ⟨.operator, "/".toList, 4⟩,
    ⟨.identifier, "log".toList, 6⟩, ⟨.operator, "+".toList, 10⟩]

theorem evaluateRpn_verdict_difference :
    (∃ t : Tree, t.Registered ∧ t.rpn = difference ∧ t.value standard = .ok (-6) ∧
      ∀ u : Tree, u.Registered → u.rpn = difference → u = t) ∧
    standard.Fails faulty (.evaluation "/".toList .divisionByZero) := by
  have hvalue : standard.evaluateRpn difference = .ok (-6) := by decide +kernel
  have hfault : standard.evaluateRpn faulty = .error (.evaluation "/".toList .divisionByZero) := by decide +kernel
  obtain ⟨hok, hunique, -⟩ := evaluateRpn_verdict standard difference
  obtain ⟨t, ht, hrpn, hx⟩ := (hok _).mp hvalue
  exact ⟨⟨t, ht, hrpn, hx, fun u hu hu' => hunique u t hu ht hu' hrpn⟩,
    ((evaluateRpn_verdict standard faulty).2.2 _).mp hfault⟩

end Rules

end Reckoner
