import Mathlib.Data.Bool.AllAny
import Mathlib.Tactic.IntervalCases
import Reckoner.Evaluate
import Reckoner.Proofs.Lexical

/-!
# Faults of lexical tokens

Every number that a scan can give reads as a numeral, and every operator stands in
the table. So a token of a text, whatever it is applied to, has only faults of an
expression.
-/

namespace Reckoner

/-! ## The characters of a numeral -/

def numeralCharacters : Text := "0123456789.-".toList

theorem mem_numeralCharacters_of_isDigit {c : Char} (h : isDigit c = true) : c ∈ numeralCharacters := by
  simp only [isDigit, Bool.and_eq_true, decide_eq_true_eq, Char.le_def, UInt32.le_iff_toNat_le] at h
  have hl : 48 ≤ c.toNat := h.1
  have hu : c.toNat ≤ 57 := h.2
  rw [← Char.ofNat_toNat c]
  generalize c.toNat = n at hl hu
  interval_cases n <;> decide

theorem isDigit_or_point_of_isNumeral {t : Text} (h : IsNumeral t) : ∀ c ∈ t, isDigit c = true ∨ c = '.' := by
  obtain ⟨whole, point, places, rfl, hw, hpoint, -, hplaces⟩ := h
  intro c hc
  rw [List.mem_append, List.mem_append] at hc
  rcases hc with hc | hc | hc
  · exact Or.inl (hw c hc)
  · rcases hpoint with rfl | rfl
    · cases hc
    · exact Or.inr (List.mem_singleton.mp hc)
  · exact Or.inl (hplaces c hc)

theorem mem_numeralCharacters {t : Text} (h : Kind.Language .number t) : ∀ c ∈ t, c ∈ numeralCharacters := by
  have hbody : ∀ body : Text, IsNumeral body → ∀ c ∈ body, c ∈ numeralCharacters := by
    intro body hb c hc
    rcases isDigit_or_point_of_isNumeral hb c hc with hd | rfl
    · exact mem_numeralCharacters_of_isDigit hd
    · decide
  obtain ⟨body, hb, rfl | rfl⟩ := h
  · exact hbody _ hb
  · intro c hc
    rcases List.mem_cons.mp hc with rfl | hc
    · decide
    · exact hbody _ hb c hc

/-- What reading does to characters leaves those of a numeral alone. -/
theorem numeralCharacters_plain : ∀ c ∈ numeralCharacters,
    Numeral.plain c = c ∧ Numeral.isPlainSpace c = false ∧ c ≠ '_' ∧ c.toLower ≠ 'n' :=
  List.all_iff_forall_prop.mp (by decide)

/-! ## Reading -/

theorem trim_of_none {p : Char → Bool} {t : Text} (h : ∀ c ∈ t, p c = false) : t.trim p = t := by
  have hdrop : ∀ u : Text, (∀ c ∈ u, p c = false) → u.dropWhile p = u := by
    intro u hu
    cases u with
    | nil => rfl
    | cons c rest => rw [List.dropWhile_cons, if_neg (by simp [hu c List.mem_cons_self])]
  unfold Text.trim
  rw [hdrop t h, hdrop t.reverse fun c hc => h c (List.mem_reverse.mp hc), List.reverse_reverse]

theorem ungroup?_of_none {t : Text} (h : ∀ c ∈ t, c ≠ '_') :
    ∀ {previous : Char}, previous ≠ '_' → Numeral.ungroup? previous t = some t := by
  induction t with
  | nil => intro previous hp; simp [Numeral.ungroup?, hp]
  | cons c rest ih =>
    intro previous hp
    have hc := h c List.mem_cons_self
    have hrest := ih (fun d hd => h d (List.mem_cons_of_mem _ hd)) hc
    simp [Numeral.ungroup?, hc, hp, hrest]

theorem unsigned?_of_isNumeral {t : Text} (h : IsNumeral t) (negative : Bool) :
    ∃ n, Numeral.unsigned? negative t = some n := by
  obtain ⟨whole, point, places, rfl, hw, rfl | rfl, hne, hp⟩ := h
  · have hall : ∀ c ∈ whole ++ places, isDigit c = true := by
      intro c hc
      rcases List.mem_append.mp hc with hc | hc
      · exact hw c hc
      · exact hp c hc
    obtain ⟨ht, hd⟩ := takeWhile_append_stop (r := []) hall (by simp)
    rw [List.append_nil] at ht hd
    simp [Numeral.unsigned?, ht, hd, Numeral.fraction, Numeral.exponent?, hne]
  · obtain ⟨ht, hd⟩ := takeWhile_append_stop (r := '.' :: places) hw (by simp; decide)
    obtain ⟨ht', hd'⟩ := takeWhile_append_stop (r := []) hp (by simp)
    rw [List.append_nil] at ht' hd'
    simp [Numeral.unsigned?, ht, hd, Numeral.fraction, ht', hd', Numeral.exponent?, hne]

theorem sign_of_isNumeral {t : Text} (h : IsNumeral t) : Numeral.sign t = (false, t) := by
  have hchars := isDigit_or_point_of_isNumeral h
  unfold Numeral.sign
  split
  · exact absurd (hchars '-' List.mem_cons_self) (by decide)
  · exact absurd (hchars '+' List.mem_cons_self) (by decide)
  · rfl

/-- A text without the letter n is no word for infinity or for no number. -/
theorem parse?_eq_unsigned? {t : Text} (h : 'n' ∉ (Numeral.sign t).2.lower) :
    Numeral.parse? t = Numeral.unsigned? (Numeral.sign t).1 (Numeral.sign t).2 := by
  have hword : ∀ word : Text, 'n' ∈ word → (Numeral.sign t).2.lower ≠ word := by
    rintro word hn rfl
    exact h hn
  unfold Numeral.parse?
  dsimp only
  rw [if_neg, if_neg (hword _ (by decide))]
  rw [Bool.or_eq_true, decide_eq_true_eq, decide_eq_true_eq, not_or]
  exact ⟨hword _ (by decide), hword _ (by decide)⟩

theorem parse?_of_number {t : Text} (h : Kind.Language .number t) : ∃ n, Numeral.parse? t = some n := by
  have hlower : ∀ body : Text, IsNumeral body → 'n' ∉ body.lower := by
    intro body hb hn
    obtain ⟨c, hc, hlow⟩ := List.mem_map.mp hn
    exact (numeralCharacters_plain c (mem_numeralCharacters ⟨body, hb, Or.inl rfl⟩ c hc)).2.2.2 hlow
  obtain ⟨body, hb, ht | ht⟩ := h
  · have hs := sign_of_isNumeral hb
    rw [ht, parse?_eq_unsigned? (by rw [hs]; exact hlower body hb), hs]
    exact unsigned?_of_isNumeral hb false
  · have hs : Numeral.sign ('-' :: body) = (true, body) := rfl
    rw [ht, parse?_eq_unsigned? (by rw [hs]; exact hlower body hb), hs]
    exact unsigned?_of_isNumeral hb true

theorem parseFree?_of_number {t : Text} (h : Kind.Language .number t) :
    ∃ n, Numeral.parseFree? t = some n := by
  have hchars := fun c hc => numeralCharacters_plain c (mem_numeralCharacters h c hc)
  have hmap : t.map Numeral.plain = t := by
    rw [List.map_congr_left fun c hc => (hchars c hc).1, List.map_id']
  have htrim : t.trim Numeral.isPlainSpace = t := trim_of_none fun c hc => (hchars c hc).2.1
  have hfree : Numeral.ungroup? ' ' t = some t :=
    ungroup?_of_none (fun c hc => (hchars c hc).2.2.1) (by decide)
  rw [Numeral.parseFree?, hmap, htrim, hfree]
  exact parse?_of_number h

/-! ## Faults -/

theorem value_eq_error {t : Token} {fault : Fault} (hk : t.kind = .number) (h : t.value = .error fault) :
    fault = .evaluation t.text .literalTooLarge ∨
      fault = .malformedNumber t.text ∧ Numeral.parseFree? t.text = none := by
  unfold Token.value at h
  rw [if_pos hk] at h
  cases hp : Numeral.parseFree? t.text with
  | none =>
    rw [hp] at h
    cases h
    exact Or.inr ⟨rfl, rfl⟩
  | some n =>
    rw [hp] at h
    dsimp only at h
    split at h
    · cases h
    · cases h
      exact Or.inl rfl

namespace Rules

variable {rules : Rules} {fault : Fault}

theorem guarded_eq_error {symbol : Text} {finite : Bool} {r : Except Reason Float}
    (h : guarded symbol finite r = .error fault) : ∃ reason, fault = .evaluation symbol reason := by
  unfold guarded at h
  split at h
  · cases h
    exact ⟨_, rfl⟩
  · split at h
    · cases h
      exact ⟨_, rfl⟩
    · cases h

theorem call_eq_error {name : Text} {x : Float} (h : rules.call name x = .error fault) :
    fault = .unknownFunction name ∨ ∃ reason, fault = .evaluation name reason := by
  unfold call at h
  split at h
  · cases h
    exact Or.inl rfl
  · exact Or.inr (guarded_eq_error h)

theorem combine_eq_error {symbol : Text} {a b : Float} (h : rules.combine symbol a b = .error fault) :
    fault = .unknownOperator symbol ∧ Operator.ofText? symbol = none ∨
      ∃ reason, fault = .evaluation symbol reason := by
  unfold combine at h
  cases ho : Operator.ofText? symbol with
  | none =>
    rw [ho] at h
    cases h
    exact Or.inl ⟨rfl, rfl⟩
  | some o =>
    rw [ho] at h
    exact Or.inr (guarded_eq_error h)

/-- All that can go wrong when a token is applied. The last two cases need a token that
does not belong to its kind. -/
theorem apply_eq_error {t : Token} {values : List Float} (h : rules.apply t values = .error fault) :
    fault = .invalid ∨ fault = .unknownFunction t.text ∨ (∃ reason, fault = .evaluation t.text reason) ∨
      (t.kind = .operator ∧ Operator.ofText? t.text = none ∧ fault = .unknownOperator t.text) ∨
      (t.kind = .number ∧ Numeral.parseFree? t.text = none ∧ fault = .malformedNumber t.text) := by
  unfold apply at h
  cases hk : t.kind with
  | number =>
    rw [hk] at h
    rcases value_eq_error hk (map_eq_error_iff.mp h) with rfl | ⟨rfl, hn⟩
    · exact Or.inr (Or.inr (Or.inl ⟨_, rfl⟩))
    · exact Or.inr (Or.inr (Or.inr (Or.inr ⟨rfl, hn, rfl⟩)))
  | identifier =>
    rw [hk] at h
    dsimp only at h
    split at h
    · cases h
      exact Or.inr (Or.inl rfl)
    · split at h
      · cases h
        exact Or.inl rfl
      · rcases call_eq_error (map_eq_error_iff.mp h) with rfl | hr
        · exact Or.inr (Or.inl rfl)
        · exact Or.inr (Or.inr (Or.inl hr))
  | operator =>
    rw [hk] at h
    dsimp only at h
    split at h
    · rcases combine_eq_error (map_eq_error_iff.mp h) with ⟨rfl, hn⟩ | hr
      · exact Or.inr (Or.inr (Or.inr (Or.inl ⟨rfl, hn, rfl⟩)))
      · exact Or.inr (Or.inr (Or.inl hr))
    · cases h
      exact Or.inl rfl
  | parenthesis =>
    rw [hk] at h
    cases h
    exact Or.inl rfl

theorem isExpression_of_apply {t : Token} (ht : t.Lexical) {values : List Float}
    (h : rules.apply t values = .error fault) : fault.isExpression = true := by
  unfold Token.Lexical at ht
  rcases apply_eq_error h with rfl | rfl | ⟨reason, rfl⟩ | ⟨hk, hn, -⟩ | ⟨hk, hn, -⟩
  · rfl
  · rfl
  · rfl
  · rw [hk] at ht
    obtain ⟨o, ho⟩ := ht
    rw [ho, Operator.ofText?_symbol] at hn
    cases hn
  · rw [hk] at ht
    obtain ⟨n, hp⟩ := parseFree?_of_number ht
    rw [hp] at hn
    cases hn

theorem apply_ne_mismatched {t : Token} {values : List Float} : rules.apply t values ≠ .error .mismatched := by
  intro h
  rcases apply_eq_error h with h | h | ⟨_, h⟩ | ⟨-, -, h⟩ | ⟨-, -, h⟩ <;> cases h

theorem single_eq_error {values : List Float} (h : single values = .error fault) :
    values.length ≠ 1 ∧ fault = .invalid := by
  match values, h with
  | [], h => cases h; exact ⟨by simp, rfl⟩
  | _ :: _ :: _, h => cases h; exact ⟨by simp, rfl⟩

/-- An evaluation fails where a token does, or has no single value at its end. -/
theorem evaluateRpn_eq_error {tokens : List Token} (h : rules.evaluateRpn tokens = .error fault) :
    fault = .invalid ∨ ∃ t ∈ tokens, ∃ values, rules.apply t values = .error fault := by
  rcases bind_eq_error_iff.mp h with h | ⟨values, -, h⟩
  · obtain ⟨front, t, rest, values, rfl, -, ht⟩ := foldlM_eq_error_iff.mp h
    exact Or.inr ⟨t, by simp, values, ht⟩
  · exact Or.inl (single_eq_error h).2

theorem evaluateRpn_ne_mismatched {tokens : List Token} : rules.evaluateRpn tokens ≠ .error .mismatched := by
  intro h
  rcases evaluateRpn_eq_error h with h | ⟨t, -, values, h⟩
  · cases h
  · exact apply_ne_mismatched h

theorem isExpression_of_evaluateRpn {tokens : List Token} (ht : ∀ t ∈ tokens, t.Lexical)
    (h : rules.evaluateRpn tokens = .error fault) : fault.isExpression = true := by
  rcases evaluateRpn_eq_error h with rfl | ⟨t, hmem, values, h⟩
  · rfl
  · exact isExpression_of_apply (ht t hmem) h

end Rules

end Reckoner
