import Mathlib.Data.List.TakeWhile
import Reckoner.Proofs.Results
import Reckoner.Token.Scan

/-!
# Lexical tokens

Every kind of token has a language, said without the scanner. A scan gives tokens of
these languages alone, in either order.
-/

namespace Reckoner

/-! ## Languages -/

/-- Digits, an optional point, and then at least one digit. -/
def IsNumeral (t : Text) : Prop :=
  ∃ whole point places : Text, t = whole ++ (point ++ places) ∧ (∀ c ∈ whole, isDigit c = true) ∧
    (point = [] ∨ point = ['.']) ∧ places ≠ [] ∧ ∀ c ∈ places, isDigit c = true

/-- The texts that a token of a kind can have. -/
def Kind.Language : Kind → Text → Prop
  | .number, t => ∃ body, IsNumeral body ∧ (t = body ∨ t = '-' :: body)
  | .identifier, t => t ≠ [] ∧ ∀ c ∈ t, isLetter c = true
  | .operator, t => ∃ o : Operator, t = [o.symbol]
  | .parenthesis, t => t = ['('] ∨ t = [')']

def Token.Lexical (t : Token) : Prop := t.kind.Language t.text

theorem ne_nil_of_isNumeral {t : Text} (h : IsNumeral t) : t ≠ [] := by
  obtain ⟨whole, point, places, rfl, -, -, hne, -⟩ := h
  simp [hne]

theorem ne_nil_of_language {k : Kind} {t : Text} (h : k.Language t) : t ≠ [] := by
  cases k with
  | number =>
    obtain ⟨body, hb, rfl | rfl⟩ := h
    · exact ne_nil_of_isNumeral hb
    · exact List.cons_ne_nil _ _
  | identifier => exact h.1
  | operator => obtain ⟨o, rfl⟩ := h; exact List.cons_ne_nil _ _
  | parenthesis => rcases h with rfl | rfl <;> exact List.cons_ne_nil _ _

/-! ## Numerals at the start of a text -/

/-- A run of a class ends where something else stands. -/
theorem takeWhile_append_stop {α : Type} {p : α → Bool} {u r : List α} (hu : ∀ c ∈ u, p c = true)
    (hr : ∀ c ∈ r.head?, p c = false) : (u ++ r).takeWhile p = u ∧ (u ++ r).dropWhile p = r := by
  rw [List.takeWhile_append_of_pos hu, List.dropWhile_append_of_pos hu]
  cases r with
  | nil => simp
  | cons c rest =>
    have hc : p c = false := hr c rfl
    simp [hc]

theorem isNumeral_of_digits {t : Text} (hne : t ≠ []) (h : ∀ c ∈ t, isDigit c = true) : IsNumeral t :=
  ⟨[], [], t, rfl, fun _ hc => absurd hc List.not_mem_nil, Or.inl rfl, hne, h⟩

/-- A leading numeral has places behind a point, or it is the leading digits alone. -/
theorem leadingNumeral_cases (t : Text) :
    (∃ rest, t.dropWhile isDigit = '.' :: rest ∧ rest.takeWhile isDigit ≠ [] ∧
      leadingNumeral t = t.takeWhile isDigit ++ '.' :: rest.takeWhile isDigit) ∨
    ((∀ rest, t.dropWhile isDigit = '.' :: rest → rest.takeWhile isDigit = []) ∧
      leadingNumeral t = t.takeWhile isDigit) := by
  unfold leadingNumeral
  split
  · rename_i rest hr
    by_cases hp : rest.takeWhile isDigit = []
    · refine Or.inr ⟨?_, by simp [hp]⟩
      intro rest' hr'
      cases hr.symm.trans hr'
      exact hp
    · exact Or.inl ⟨rest, hr, hp, by simp [List.isEmpty_iff, hp]⟩
  · rename_i hn
    exact Or.inr ⟨fun rest hr => absurd hr (hn rest), rfl⟩

theorem leadingNumeral_digit {c : Char} (hc : isDigit c = true) (t : Text) :
    leadingNumeral (c :: t) = c :: leadingNumeral t := by
  unfold leadingNumeral
  rw [List.takeWhile_cons_of_pos hc, List.dropWhile_cons_of_pos hc]
  split
  · dsimp only
    split <;> rfl
  · rfl

theorem leadingNumeral_point (t : Text) :
    leadingNumeral ('.' :: t) = if t.takeWhile isDigit = [] then [] else '.' :: t.takeWhile isDigit := by
  have hc : isDigit '.' = false := by decide
  simp [leadingNumeral, hc, List.isEmpty_iff]

theorem isNumeral_leadingNumeral {t : Text} (h : leadingNumeral t ≠ []) : IsNumeral (leadingNumeral t) := by
  have hw : ∀ c ∈ t.takeWhile isDigit, isDigit c = true := fun _ hc => List.mem_takeWhile_imp hc
  rcases leadingNumeral_cases t with ⟨rest, -, hp, he⟩ | ⟨-, he⟩
  · rw [he]
    exact ⟨_, ['.'], _, rfl, hw, Or.inr rfl, hp, fun _ hc => List.mem_takeWhile_imp hc⟩
  · rw [he] at h ⊢
    exact isNumeral_of_digits h hw

theorem isPrefix_leadingNumeral (t : Text) : leadingNumeral t <+: t := by
  have ht : t.takeWhile isDigit ++ t.dropWhile isDigit = t := List.takeWhile_append_dropWhile
  rcases leadingNumeral_cases t with ⟨rest, hr, -, he⟩ | ⟨-, he⟩
  · have hrest : rest.takeWhile isDigit ++ rest.dropWhile isDigit = rest := List.takeWhile_append_dropWhile
    refine ⟨rest.dropWhile isDigit, ?_⟩
    rw [he, List.append_assoc, List.cons_append, hrest, ← hr, ht]
  · exact ⟨t.dropWhile isDigit, by rw [he, ht]⟩

/-! ## Lexemes -/

/-- All that a lexeme can be: a numeral, a word, a signed numeral, a symbol or a parenthesis. -/
theorem lexeme?_cases {sign : Bool} {t text : Text} {kind : Kind} (h : lexeme? sign t = some (kind, text)) :
    (kind = .number ∧ text = leadingNumeral t ∧ leadingNumeral t ≠ []) ∨
    ∃ c rest, t = c :: rest ∧
      ((kind = .identifier ∧ isLetter c = true ∧ text = t.takeWhile isLetter) ∨
        (kind = .number ∧ c = '-' ∧ text = '-' :: leadingNumeral rest ∧ leadingNumeral rest ≠ []) ∨
        (kind = .operator ∧ text = [c] ∧ isSymbol c = true) ∨
        (kind = .parenthesis ∧ text = [c] ∧ isParenthesis c = true)) := by
  unfold lexeme? at h
  by_cases hn : leadingNumeral t = []
  · rw [if_neg (by simp [hn])] at h
    cases t with
    | nil => cases h
    | cons c rest =>
      refine Or.inr ⟨c, rest, rfl, ?_⟩
      dsimp only at h
      by_cases hc : isLetter c = true
      · rw [if_pos hc] at h
        cases h
        exact Or.inl ⟨rfl, hc, rfl⟩
      · rw [if_neg hc] at h
        by_cases hm : c = '-' ∧ sign = true ∧ leadingNumeral rest ≠ []
        · rw [if_pos hm] at h
          cases h
          exact Or.inr (Or.inl ⟨rfl, hm.1, rfl, hm.2.2⟩)
        · rw [if_neg hm] at h
          by_cases hs : isSymbol c = true
          · rw [if_pos hs] at h
            cases h
            exact Or.inr (Or.inr (Or.inl ⟨rfl, rfl, hs⟩))
          · rw [if_neg hs] at h
            by_cases hp : isParenthesis c = true
            · rw [if_pos hp] at h
              cases h
              exact Or.inr (Or.inr (Or.inr ⟨rfl, rfl, hp⟩))
            · rw [if_neg hp] at h
              cases h
  · rw [if_pos hn] at h
    cases h
    exact Or.inl ⟨rfl, rfl, hn⟩

theorem language_of_lexeme? {sign : Bool} {t text : Text} {kind : Kind}
    (h : lexeme? sign t = some (kind, text)) : kind.Language text := by
  rcases lexeme?_cases h with ⟨rfl, rfl, hn⟩ | ⟨c, rest, rfl, hcases⟩
  · exact ⟨_, isNumeral_leadingNumeral hn, Or.inl rfl⟩
  · rcases hcases with ⟨rfl, hc, rfl⟩ | ⟨rfl, -, rfl, hn⟩ | ⟨rfl, rfl, hs⟩ | ⟨rfl, rfl, hp⟩
    · refine ⟨?_, fun _ hx => List.mem_takeWhile_imp hx⟩
      rw [List.takeWhile_cons, if_pos hc]
      exact List.cons_ne_nil _ _
    · exact ⟨_, isNumeral_leadingNumeral hn, Or.inr rfl⟩
    · obtain ⟨o, -, ho⟩ := List.any_eq_true.mp hs
      exact ⟨o, by rw [eq_of_beq ho]⟩
    · simp only [isParenthesis, Bool.or_eq_true, beq_iff_eq] at hp
      rcases hp with rfl | rfl
      · exact Or.inl rfl
      · exact Or.inr rfl

theorem isPrefix_of_lexeme? {sign : Bool} {t text : Text} {kind : Kind}
    (h : lexeme? sign t = some (kind, text)) : text <+: t := by
  rcases lexeme?_cases h with ⟨-, rfl, -⟩ | ⟨c, rest, rfl, hcases⟩
  · exact isPrefix_leadingNumeral t
  · rcases hcases with ⟨-, -, rfl⟩ | ⟨-, rfl, rfl, -⟩ | ⟨-, rfl, -⟩ | ⟨-, rfl, -⟩
    · exact List.takeWhile_prefix _
    · exact List.cons_prefix_cons.mpr ⟨rfl, isPrefix_leadingNumeral rest⟩
    · exact ⟨rest, rfl⟩
    · exact ⟨rest, rfl⟩

/-! ## Scans -/

/-- A scan that does not stand on a blank reads one lexeme and goes on behind it. -/
theorem scanFrom_lexeme {order : Order} {previous : Option Token} {c : Char} {rest text : Text} {kind : Kind}
    (hc : isBlank c = false) (h : lexeme? (signs order previous) (c :: rest) = some (kind, text))
    (position : Nat) :
    scanFrom order previous position 0 (c :: rest) =
      (scanFrom order (some ⟨kind, text, position⟩) (position + text.length) 0
        ((c :: rest).drop text.length)).map (⟨kind, text, position⟩ :: ·) := by
  obtain ⟨n, hn⟩ : ∃ n, text.length = n + 1 :=
    Nat.exists_eq_succ_of_ne_zero (by simpa using ne_nil_of_language (language_of_lexeme? h))
  have hlen : n ≤ rest.length := by
    have := (isPrefix_of_lexeme? h).length_le
    rw [hn, List.length_cons] at this
    exact Nat.le_of_succ_le_succ this
  rw [scanFrom, if_neg (by simp [hc]), h]
  show Except.map _ _ = _
  rw [scanFrom_skip _ _ _ _ _ (by rw [hn]; exact hlen), hn, Nat.add_sub_cancel, List.drop_succ_cons,
    Nat.add_assoc, Nat.add_comm 1]

theorem scanFrom_unexpected {order : Order} {previous : Option Token} {c : Char} {rest : Text}
    (hc : isBlank c = false) (h : lexeme? (signs order previous) (c :: rest) = none) (position : Nat) :
    scanFrom order previous position 0 (c :: rest) = .error (.unexpected c position) := by
  rw [scanFrom, if_neg (by simp [hc]), h]

/-- A scan goes on behind a whole lexeme, so what is shown along it is shown by cases on the
start of the text: nothing, a blank, a character that starts no lexeme, or a lexeme. -/
@[elab_as_elim]
theorem scanFrom_induction (order : Order) {motive : Option Token → Nat → Text → Prop}
    (nil : ∀ previous position, motive previous position [])
    (blank : ∀ previous position c rest, isBlank c = true → motive previous (position + 1) rest →
      motive previous position (c :: rest))
    (unexpected : ∀ previous position c rest, isBlank c = false →
      lexeme? (signs order previous) (c :: rest) = none → motive previous position (c :: rest))
    (lexeme : ∀ previous position c rest kind text, isBlank c = false →
      lexeme? (signs order previous) (c :: rest) = some (kind, text) →
      motive (some ⟨kind, text, position⟩) (position + text.length) ((c :: rest).drop text.length) →
      motive previous position (c :: rest))
    (previous : Option Token) (position : Nat) (t : Text) : motive previous position t := by
  induction hn : t.length using Nat.strong_induction_on generalizing previous position t with
  | _ n ih =>
    subst hn
    cases t with
    | nil => exact nil previous position
    | cons c rest =>
      cases hc : isBlank c with
      | true => exact blank previous position c rest hc (ih _ (Nat.lt_succ_self _) _ _ _ rfl)
      | false =>
        cases hl : lexeme? (signs order previous) (c :: rest) with
        | none => exact unexpected previous position c rest hc hl
        | some found =>
          obtain ⟨kind, text⟩ := found
          have hpos : 0 < text.length := List.length_pos_iff.mpr (ne_nil_of_language (language_of_lexeme? hl))
          refine lexeme previous position c rest kind text hc hl (ih _ ?_ _ _ _ rfl)
          rw [List.length_drop, List.length_cons]
          omega

theorem lexical_of_scanFrom {order : Order} {previous : Option Token} {position : Nat} {t : Text} :
    ∀ {tokens : List Token}, scanFrom order previous position 0 t = .ok tokens → ∀ k ∈ tokens, k.Lexical := by
  induction previous, position, t using scanFrom_induction order with
  | nil previous position =>
    intro tokens h k hk
    cases h
    cases hk
  | blank previous position c rest hc ih =>
    intro tokens h
    rw [scanFrom_blank hc] at h
    exact ih h
  | unexpected previous position c rest hc hl =>
    intro tokens h
    rw [scanFrom_unexpected hc hl] at h
    cases h
  | lexeme previous position c rest kind text hc hl ih =>
    intro tokens h
    rw [scanFrom_lexeme hc hl] at h
    obtain ⟨more, hmore, rfl⟩ := map_eq_ok_iff.mp h
    exact List.forall_mem_cons.mpr ⟨language_of_lexeme? hl, ih hmore⟩

theorem lexical_of_scan {order : Order} {e : Text} {tokens : List Token} (h : scan order e = .ok tokens) :
    ∀ t ∈ tokens, t.Lexical :=
  lexical_of_scanFrom h

theorem scanFrom_eq_error {order : Order} {previous : Option Token} {position : Nat} {t : Text} {fault : Fault}
    (h : scanFrom order previous position 0 t = .error fault) : ∃ c p, fault = .unexpected c p := by
  induction previous, position, t using scanFrom_induction order with
  | nil previous position => cases h
  | blank previous position c rest hc ih =>
    rw [scanFrom_blank hc] at h
    exact ih h
  | unexpected previous position c rest hc hl =>
    rw [scanFrom_unexpected hc hl] at h
    cases h
    exact ⟨c, position, rfl⟩
  | lexeme previous position c rest kind text hc hl ih =>
    rw [scanFrom_lexeme hc hl] at h
    exact ih (map_eq_error_iff.mp h)

end Reckoner
