import Reckoner.Proofs.OnePass
import Reckoner.Proofs.PolishText

/-!
# Spacing

Blanks between the tokens of a text say nothing, as long as there are some wherever two tokens
meet: a text whose tokens are set apart anew has the same tokens. A sign keeps its numeral, which
stands in the same token, and a minus that is no sign gets none, for behind it stands a blank.
-/

namespace Reckoner

/-! ## Texts set apart -/

/-- Texts with a gap before each of them and one behind the last. -/
def spread (gap : Nat → Text) : List Text → Text
  | [] => gap 0
  | t :: texts => gap 0 ++ (t ++ spread (fun i => gap (i + 1)) texts)

/-- Gaps for `n` texts: blanks, and at least one wherever two texts are neighbours. -/
structure Gaps (n : Nat) (gap : Nat → Text) : Prop where
  blank : ∀ i ≤ n, (gap i).allBlank = true
  between : ∀ i, 0 < i → i < n → gap i ≠ []

theorem Gaps.tail {n : Nat} {gap : Nat → Text} (h : Gaps (n + 1) gap) : Gaps n fun i => gap (i + 1) :=
  ⟨fun i hi => h.blank (i + 1) (by omega), fun i _ hn => h.between (i + 1) (by omega) (by omega)⟩

theorem apart_of_allBlank {gap : Text} (h : gap.allBlank = true) (hne : gap ≠ []) (rest : Text) :
    Apart (gap ++ rest) := by
  cases gap with
  | nil => exact absurd rfl hne
  | cons c gap =>
    intro d hd
    cases hd
    exact List.all_eq_true.mp h c List.mem_cons_self

theorem apart_spread {gap : Nat → Text} {texts : List Text} (h : Gaps (texts.length + 1) gap) :
    Apart (spread (fun i => gap (i + 1)) texts) := by
  cases texts with
  | nil =>
    have hblank := h.blank 1 (Nat.le_refl 1)
    intro c hc
    exact List.all_eq_true.mp hblank c (List.mem_of_mem_head? hc)
  | cons t texts =>
    simp only [List.length_cons] at h
    exact apart_of_allBlank (h.blank 1 (by omega)) (h.between 1 (by omega) (by omega)) _

/-! ## Signs in their places -/

/-- Tokens that a scan can give where a minus at their start is a sign or is none: each signed number
stands where a sign may stand. -/
def InPlace (order : Order) : Bool → List Token → Prop
  | _, [] => True
  | sign, t :: tokens => (t.Signed → sign = true) ∧ InPlace order (signs order (some t)) tokens

theorem sign_of_lexeme? {sign : Bool} {t text : Text} (h : lexeme? sign t = some (.number, text))
    (hminus : text.head? = some '-') : sign = true := by
  rcases lexeme?_cases h with ⟨-, htext, hne⟩ | ⟨c, rest, ht, hcases⟩
  · subst htext
    have hmem := List.mem_of_mem_head? (Option.mem_def.mpr hminus)
    rcases isDigit_or_point_of_isNumeral (isNumeral_leadingNumeral hne) '-' hmem with hd | hp
    · exact absurd hd (by decide)
    · exact absurd hp (by decide)
  · subst ht
    rcases hcases with ⟨hk, -⟩ | ⟨-, rfl, -, -⟩ | ⟨hk, -⟩ | ⟨hk, -⟩
    · cases hk
    · by_cases hs : sign = true
      · exact hs
      · simp [lexeme?_minus, hs] at h
    · cases hk
    · cases hk

theorem inPlace_of_scanFrom {order : Order} {previous : Option Token} {position : Nat} {t : Text} :
    ∀ {tokens : List Token}, scanFrom order previous position 0 t = .ok tokens →
      InPlace order (signs order previous) tokens := by
  induction previous, position, t using scanFrom_induction order with
  | nil previous position =>
    intro tokens h
    cases h
    trivial
  | blank previous position c rest hc ih =>
    intro tokens h
    rw [scanFrom_blank hc] at h
    exact ih h
  | unexpected previous position c rest hc hl =>
    intro tokens h
    rw [scanFrom_unexpected hc hl] at h
    cases h
  | lexeme previous position c rest kind text hc hl ih =>
    intro tokens h
    rw [scanFrom_lexeme hc hl] at h
    obtain ⟨more, hmore, rfl⟩ := map_eq_ok_iff.mp h
    refine ⟨fun hsigned => ?_, ih hmore⟩
    obtain ⟨hk, hminus⟩ := hsigned
    dsimp only at hk hminus
    rw [hk] at hl
    exact sign_of_lexeme? hl hminus

/-! ## Scans of texts set apart -/

theorem scanFrom_allBlank {gap : Text} (h : gap.allBlank = true) (order : Order) (previous : Option Token)
    (position : Nat) (rest : Text) :
    scanFrom order previous position 0 (gap ++ rest) =
      scanFrom order previous (position + gap.length) 0 rest := by
  induction gap generalizing position with
  | nil => rfl
  | cons c gap ih =>
    have hall := List.forall_mem_cons.mp (List.all_eq_true.mp h)
    rw [List.cons_append, scanFrom_blank hall.1, ih (List.all_eq_true.mpr hall.2), List.length_cons,
      Nat.add_assoc, Nat.add_comm 1]

/-- The induction is on the tokens. Whether a sign may stand before the next one is decided by what the
token before says, so it does not matter that this stands elsewhere now. -/
theorem scanFrom_spread {order : Order} {tokens : List Token} (hlexical : ∀ t ∈ tokens, t.Lexical)
    {gap : Nat → Text} (hgap : Gaps tokens.length gap) {previous : Option Token}
    (hplace : InPlace order (signs order previous) tokens) (position : Nat) :
    ∃ again, scanFrom order previous position 0 (spread gap (tokens.map Token.text)) = .ok again ∧
      again.map Token.content = tokens.map Token.content := by
  induction tokens generalizing gap previous position with
  | nil =>
    have hblank := scanFrom_allBlank (hgap.blank 0 (Nat.le_refl 0)) order previous position []
    rw [List.append_nil] at hblank
    exact ⟨[], hblank, rfl⟩
  | cons t tokens ih =>
    obtain ⟨ht, hrest⟩ := List.forall_mem_cons.mp hlexical
    have hapart : Apart (spread (fun i => gap (i + 1)) (tokens.map Token.text)) :=
      apart_spread (by simpa using hgap)
    rw [List.map_cons, spread, scanFrom_allBlank (hgap.blank 0 (Nat.zero_le _)),
      scanFrom_token ht hplace.1 hapart]
    have hnext : InPlace order (signs order (some { t with position := position + (gap 0).length })) tokens :=
      hplace.2
    obtain ⟨again, hagain, hcontent⟩ := ih hrest hgap.tail hnext (position + (gap 0).length + t.text.length)
    refine ⟨_, by rw [hagain]; rfl, ?_⟩
    rw [List.map_cons, List.map_cons, hcontent]
    rfl

/-! ## Expressions with the same tokens -/

theorem toRpn_congr {e e' : Text} {tokens more : List Token} (h : scan .infixed e = .ok tokens)
    (h' : scan .infixed e' = .ok more) (hcontent : tokens.map Token.content = more.map Token.content) :
    toRpn e = toRpn e' := by
  have hforget : ∀ ts, (Rpn.ofTokens ts).map Token.render =
      (Rpn.ofTokens (ts.map Token.unplaced)).map Token.render := by
    intro ts
    have hrender : ∀ out : List Token, Token.render (out.map Token.unplaced) = Token.render out := by
      intro out
      rw [Token.render, List.map_map]
      rfl
    rw [Rpn.ofTokens_unplaced]
    cases Rpn.ofTokens ts with
    | error fault => rfl
    | ok out => simp [hrender]
  unfold toRpn rpnTokens
  rw [h, h', ok_bind, ok_bind, hforget tokens, map_unplaced_eq_iff.mpr hcontent, ← hforget more]

theorem Rules.evaluate_congr (rules : Rules) {e e' : Text} {tokens more : List Token}
    (h : scan .infixed e = .ok tokens) (h' : scan .infixed e' = .ok more)
    (hcontent : tokens.map Token.content = more.map Token.content) (mode : Mode) :
    rules.evaluate mode e = rules.evaluate mode e' := by
  rw [rules.evaluate_eq, rules.evaluate_eq]
  unfold Rules.evaluateTwoPass rpnTokens
  rw [h, h', ok_bind, ok_bind]
  exact rules.ofTokens_evaluateRpn_congr hcontent

/-- However the tokens of an expression are set apart, the text has the same tokens, the same reverse Polish
text and the same value or fault, in either mode. -/
theorem scan_spread {e : Text} {tokens : List Token} (h : scan .infixed e = .ok tokens) {gap : Nat → Text}
    (hgap : Gaps tokens.length gap) :
    (∃ again, scan .infixed (spread gap (tokens.map Token.text)) = .ok again ∧
      again.map Token.content = tokens.map Token.content) ∧
    toRpn (spread gap (tokens.map Token.text)) = toRpn e ∧
    ∀ (rules : Rules) (mode : Mode),
      rules.evaluate mode (spread gap (tokens.map Token.text)) = rules.evaluate mode e := by
  obtain ⟨again, hagain, hcontent⟩ := scanFrom_spread (lexical_of_scan h) hgap (inPlace_of_scanFrom h) 0
  exact ⟨⟨again, hagain, hcontent⟩, toRpn_congr hagain h hcontent,
    fun rules mode => rules.evaluate_congr hagain h hcontent mode⟩

/-- Subtractions, signs, and a minus where a sign may stand, with a numeral behind it that is not its own. -/
def crowded : Text := "2--3*- 4-sin(-.5)".toList

/-- Line feeds and wide spaces. -/
def sampleGap (i : Nat) : Text := if i % 2 = 0 then ['\n'] else ['\u3000', ' ']

theorem scan_spread_crowded :
    ∃ tokens again, scan .infixed crowded = .ok tokens ∧ Gaps tokens.length sampleGap ∧
      tokens.map Token.text =
        ["2".toList, "-".toList, "-3".toList, "*".toList, "-".toList, "4".toList, "-".toList, "sin".toList,
          "(".toList, "-.5".toList, ")".toList] ∧
      scan .infixed "\n2\u3000 -\n-3\u3000 *\n-\u3000 4\n-\u3000 sin\n(\u3000 -.5\n)\u3000 ".toList = .ok again ∧
      again.map Token.content = tokens.map Token.content := by
  obtain ⟨tokens, htokens, htexts⟩ : ∃ tokens, scan .infixed crowded = .ok tokens ∧ tokens.map Token.text =
      ["2".toList, "-".toList, "-3".toList, "*".toList, "-".toList, "4".toList, "-".toList, "sin".toList,
        "(".toList, "-.5".toList, ")".toList] := ⟨_, rfl, by decide⟩
  have hgap : Gaps tokens.length sampleGap := by
    refine ⟨fun i _ => ?_, fun i _ _ => ?_⟩
    · unfold sampleGap
      split <;> decide
    · unfold sampleGap
      split <;> decide
  have hspread : spread sampleGap (tokens.map Token.text) =
      "\n2\u3000 -\n-3\u3000 *\n-\u3000 4\n-\u3000 sin\n(\u3000 -.5\n)\u3000 ".toList := by
    rw [htexts]
    decide
  obtain ⟨⟨again, hagain, hcontent⟩, -⟩ := scan_spread htokens hgap
  rw [hspread] at hagain
  exact ⟨tokens, again, htokens, hgap, htexts, hagain, hcontent⟩

end Reckoner
