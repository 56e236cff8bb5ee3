import Mathlib.Data.List.Basic
import Reckoner.Proofs.Brackets
import Reckoner.Proofs.Faults
import Reckoner.Proofs.Positions

/-!
# Reading rendered tokens back

Spaces between texts keep every lexical token apart from its neighbours, in whatever
order they stand: a minus before a space is never a sign, and a sign never loses its
numeral. So a scan of rendered tokens in reversed order gives them back.
-/

namespace Reckoner

/-! ## Characters of tokens -/

theorem not_isBlank_of_numeralCharacters : ∀ c ∈ numeralCharacters, isBlank c = false :=
  List.all_iff_forall_prop.mp (by decide)

theorem isLetter_bounds {c : Char} (h : isLetter c = true) : 97 ≤ c.toNat ∧ c.toNat ≤ 122 := by
  simp only [isLetter, Bool.and_eq_true, decide_eq_true_eq, Char.le_def, UInt32.le_iff_toNat_le] at h
  exact h

theorem isDigit_bounds {c : Char} (h : isDigit c = true) : 48 ≤ c.toNat ∧ c.toNat ≤ 57 := by
  simp only [isDigit, Bool.and_eq_true, decide_eq_true_eq, Char.le_def, UInt32.le_iff_toNat_le] at h
  exact h

theorem isBlank_bounds {c : Char} (h : isBlank c = true) : c.toNat ≤ 32 ∨ 127 < c.toNat := by
  simp only [isBlank, Bool.or_eq_true, Bool.and_eq_true, decide_eq_true_eq, beq_iff_eq] at h
  omega

theorem not_isBlank_of_language {k : Kind} {t : Text} (h : k.Language t) : ∀ c ∈ t, isBlank c = false := by
  cases k with
  | number => exact fun c hc => not_isBlank_of_numeralCharacters c (mem_numeralCharacters h c hc)
  | identifier =>
    intro c hc
    have hl := isLetter_bounds (h.2 c hc)
    refine Bool.eq_false_iff.mpr fun hb => ?_
    have := isBlank_bounds hb
    omega
  | operator =>
    obtain ⟨o, rfl⟩ := h
    rw [List.forall_mem_singleton]
    cases o <;> decide
  | parenthesis =>
    rcases h with rfl | rfl
    · rw [List.forall_mem_singleton]; decide
    · rw [List.forall_mem_singleton]; decide

/-! ## Lexemes before a blank -/

/-- Nothing follows, or a blank. -/
def Apart (rest : Text) : Prop := ∀ c ∈ rest.head?, isBlank c = true

theorem not_isDigit_of_apart {rest : Text} (h : Apart rest) : ∀ c ∈ rest.head?, isDigit c = false := by
  intro c hc
  have hb := isBlank_bounds (h c hc)
  refine Bool.eq_false_iff.mpr fun hd => ?_
  have := isDigit_bounds hd
  omega

theorem not_isLetter_of_apart {rest : Text} (h : Apart rest) : ∀ c ∈ rest.head?, isLetter c = false := by
  intro c hc
  have hb := isBlank_bounds (h c hc)
  refine Bool.eq_false_iff.mpr fun hl => ?_
  have := isLetter_bounds hl
  omega

theorem leadingNumeral_append {t rest : Text} (h : IsNumeral t) (hr : Apart rest) :
    leadingNumeral (t ++ rest) = t := by
  have hdigit := not_isDigit_of_apart hr
  obtain ⟨whole, point, places, rfl, hw, rfl | rfl, hne, hp⟩ := h
  · have hall : ∀ c ∈ whole ++ places, isDigit c = true := by
      intro c hc
      rcases List.mem_append.mp hc with hc | hc
      · exact hw c hc
      · exact hp c hc
    obtain ⟨ht, hd⟩ := takeWhile_append_stop hall hdigit
    rw [List.nil_append]
    unfold leadingNumeral
    rw [ht, hd]
    split
    · rename_i rest' hrest
      exact absurd (hr '.' rfl) (by decide)
    · rfl
  · obtain ⟨ht, hd⟩ := takeWhile_append_stop (r := '.' :: (places ++ rest)) hw (by intro c hc; cases hc; decide)
    obtain ⟨ht', -⟩ := takeWhile_append_stop hp hdigit
    unfold leadingNumeral
    rw [List.append_assoc, List.append_assoc, List.singleton_append, ht, hd]
    show (if ((places ++ rest).takeWhile isDigit).isEmpty = true then whole
      else whole ++ '.' :: (places ++ rest).takeWhile isDigit) = _
    rw [ht', if_neg (by simp [hne])]
    rfl

theorem leadingNumeral_eq_nil {t : Text} (h : ∀ c ∈ t.head?, isDigit c = false ∧ c ≠ '.') :
    leadingNumeral t = [] := by
  cases t with
  | nil => rfl
  | cons c rest =>
    obtain ⟨hd, hp⟩ := h c rfl
    unfold leadingNumeral
    rw [List.takeWhile_cons, List.dropWhile_cons, hd]
    dsimp only
    split
    · rename_i rest' he
      exact absurd (List.cons.inj he).1 hp
    · rfl

theorem lexeme?_numeral {t : Text} (h : leadingNumeral t ≠ []) (sign : Bool) :
    lexeme? sign t = some (.number, leadingNumeral t) := by
  unfold lexeme?
  rw [if_pos h]

/-- A minus is a sign where one may stand and a numeral follows, and an operator everywhere else. -/
theorem lexeme?_minus (sign : Bool) (rest : Text) :
    lexeme? sign ('-' :: rest) =
      if sign = true ∧ leadingNumeral rest ≠ [] then some (.number, '-' :: leadingNumeral rest)
      else some (.operator, ['-']) := by
  have hm : leadingNumeral ('-' :: rest) = [] := leadingNumeral_eq_nil (by intro c hc; cases hc; decide)
  unfold lexeme?
  rw [hm, if_neg (by simp)]
  dsimp only
  rw [if_neg (by decide)]
  simp only [true_and]
  rfl

theorem lexeme?_symbol {o : Operator} (ho : o ≠ .minus) (sign : Bool) (rest : Text) :
    lexeme? sign (o.symbol :: rest) = some (.operator, [o.symbol]) := by
  have hm : leadingNumeral (o.symbol :: rest) = [] :=
    leadingNumeral_eq_nil (by intro c hc; cases hc; cases o <;> decide)
  have hminus : o.symbol ≠ '-' := by cases o <;> simp_all [Operator.symbol]
  unfold lexeme?
  rw [hm, if_neg (by simp)]
  dsimp only
  rw [if_neg (by cases o <;> decide), if_neg (by simp [hminus]), if_pos (by cases o <;> decide)]

theorem lexeme?_letters {t rest : Text} (hne : t ≠ []) (hl : ∀ c ∈ t, isLetter c = true)
    (hr : ∀ c ∈ rest.head?, isLetter c = false) (sign : Bool) :
    lexeme? sign (t ++ rest) = some (.identifier, t) := by
  obtain ⟨htake, -⟩ := takeWhile_append_stop hl hr
  cases t with
  | nil => exact absurd rfl hne
  | cons c t =>
    have hc := hl c List.mem_cons_self
    have hb := isLetter_bounds hc
    have hm : leadingNumeral (c :: t ++ rest) = [] := by
      refine leadingNumeral_eq_nil fun d hd => ?_
      cases hd
      refine ⟨Bool.eq_false_iff.mpr fun hd => ?_, ?_⟩
      · have := isDigit_bounds hd
        omega
      · rintro rfl
        exact absurd hc (by decide)
    unfold lexeme?
    rw [hm, if_neg (by simp)]
    rw [List.cons_append] at htake ⊢
    dsimp only
    rw [if_pos hc, htake]

def Token.Signed (t : Token) : Prop := t.kind = .number ∧ t.text.head? = some '-'

/-- Apart from what follows, a lexical token is read whole, a signed one where a sign may stand. -/
theorem lexeme?_append {t : Token} {rest : Text} (h : t.Lexical) (hr : Apart rest) {sign : Bool}
    (hs : t.Signed → sign = true) : lexeme? sign (t.text ++ rest) = some (t.kind, t.text) := by
  obtain ⟨k, text, position⟩ := t
  cases k with
  | number =>
    obtain ⟨body, hb, rfl | rfl⟩ := h
    · have hn := leadingNumeral_append hb hr
      rw [lexeme?_numeral (by rw [hn]; exact ne_nil_of_isNumeral hb), hn]
    · have hn := leadingNumeral_append hb hr
      rw [List.cons_append, lexeme?_minus, hn, if_pos ⟨hs ⟨rfl, rfl⟩, ne_nil_of_isNumeral hb⟩]
  | identifier => exact lexeme?_letters h.1 h.2 (not_isLetter_of_apart hr) sign
  | operator =>
    obtain ⟨o, rfl⟩ := h
    have hrest : leadingNumeral rest = [] := by
      refine leadingNumeral_eq_nil fun c hc => ⟨not_isDigit_of_apart hr c hc, ?_⟩
      rintro rfl
      exact absurd (hr '.' hc) (by decide)
    by_cases ho : o = .minus
    · subst ho
      show lexeme? sign ('-' :: rest) = _
      rw [lexeme?_minus, hrest, if_neg (by simp)]
      rfl
    · exact lexeme?_symbol ho sign rest
  | parenthesis =>
    rcases h with rfl | rfl <;> rfl

/-! ## Rendered tokens -/

/-- The tokens at the positions that they have where they are rendered. -/
def Token.placed : Nat → List Token → List Token
  | _, [] => []
  | position, t :: tokens => { t with position := position } :: placed (position + t.text.length + 1) tokens

theorem map_content_placed (position : Nat) (tokens : List Token) :
    (Token.placed position tokens).map Token.content = tokens.map Token.content := by
  induction tokens generalizing position with
  | nil => rfl
  | cons t tokens ih =>
    rw [Token.placed, List.map_cons, List.map_cons, ih]
    rfl

theorem render_cons_cons (t u : Token) (tokens : List Token) :
    Token.render (t :: u :: tokens) = t.text ++ ' ' :: Token.render (u :: tokens) := by
  unfold Token.render
  rw [List.map_cons, List.map_cons, List.intercalate_cons_cons, List.append_assoc]
  rfl

/-- A scan reads a lexical token back, a signed one where a sign may stand. -/
theorem scanFrom_token {order : Order} {previous : Option Token} {t : Token} (ht : t.Lexical)
    (hs : t.Signed → signs order previous = true) {rest : Text} (hr : Apart rest) (position : Nat) :
    scanFrom order previous position 0 (t.text ++ rest) =
      (scanFrom order (some { t with position := position }) (position + t.text.length) 0 rest).map
        ({ t with position := position } :: ·) := by
  have hlexeme := lexeme?_append ht hr hs
  have hdrop : (t.text ++ rest).drop t.text.length = rest := List.drop_left
  cases htext : t.text with
  | nil => exact absurd htext (ne_nil_of_language ht)
  | cons c text =>
    have hc : isBlank c = false := not_isBlank_of_language ht c (by rw [htext]; exact List.mem_cons_self)
    rw [htext, List.cons_append] at hlexeme hdrop
    rw [List.cons_append, scanFrom_lexeme hc hlexeme, hdrop, ← htext]

theorem scanFrom_render {tokens : List Token} (h : ∀ t ∈ tokens, t.Lexical) (previous : Option Token)
    (position : Nat) :
    scanFrom .reversed previous position 0 (Token.render tokens) = .ok (Token.placed position tokens) := by
  induction tokens generalizing previous position with
  | nil => rfl
  | cons t tokens ih =>
    obtain ⟨ht, hrest⟩ := List.forall_mem_cons.mp h
    cases tokens with
    | nil =>
      have hone : Token.render [t] = t.text ++ [] := by simp [Token.render]
      rw [hone, scanFrom_token ht (fun _ => rfl) (by intro c hc; cases hc)]
      rfl
    | cons u tokens =>
      rw [render_cons_cons, scanFrom_token ht (fun _ => rfl) (by intro c hc; cases hc; rfl),
        scanFrom_blank (c := ' ') rfl, ih hrest, Token.placed]
      rfl

theorem position_placed {position i : Nat} {tokens : List Token} {t : Token}
    (h : (Token.placed position tokens)[i]? = some t) :
    t.position = position + ((tokens.take i).map fun u => u.text.length).sum + i := by
  induction tokens generalizing position i with
  | nil => cases h
  | cons u tokens ih =>
    cases i with
    | zero => cases h; simp
    | succ i =>
      rw [Token.placed, List.getElem?_cons_succ] at h
      rw [ih h, List.take_succ_cons, List.map_cons, List.sum_cons]
      omega

theorem scan_render_of_lexical {tokens : List Token} (h : ∀ t ∈ tokens, t.Lexical) :
    ∃ back, scan .reversed (Token.render tokens) = .ok back ∧ back.map Token.content = tokens.map Token.content ∧
      ∀ i t, back[i]? = some t → t.position = ((tokens.take i).map fun u => u.text.length).sum + i := by
  refine ⟨Token.placed 0 tokens, scanFrom_render h none 0, map_content_placed 0 tokens, fun i t ht => ?_⟩
  rw [position_placed ht, Nat.zero_add]

/-- Whatever lexical tokens are rendered, in whatever order, a scan in reversed order gives them back, each
behind all texts before it and a space for each of them. What such a scan of any text gives can be rendered
and read again. -/
theorem scan_render :
    (∀ tokens : List Token, (∀ t ∈ tokens, t.Lexical) →
      ∃ back, scan .reversed (Token.render tokens) = .ok back ∧
        back.map Token.content = tokens.map Token.content ∧
        ∀ i t, back[i]? = some t → t.position = ((tokens.take i).map fun u => u.text.length).sum + i) ∧
    ∀ (e : Text) (tokens : List Token), scan .reversed e = .ok tokens →
      ∃ back, scan .reversed (Token.render tokens) = .ok back ∧
        back.map Token.content = tokens.map Token.content := by
  refine ⟨fun tokens h => scan_render_of_lexical h, fun e tokens h => ?_⟩
  obtain ⟨back, hback, hcontent, -⟩ := scan_render_of_lexical (lexical_of_scan h)
  exact ⟨back, hback, hcontent⟩

/-- A subtraction before a literal, a negative literal behind an operand, and two words side by side. -/
def sampleTokens : List Token :=
  [⟨.operator, "-".toList, 0⟩, ⟨.number, "5".toList, 0⟩, ⟨.number, "-.5".toList, 0⟩, ⟨.identifier, "sin".toList, 0⟩,
    ⟨.identifier, "x".toList, 0⟩, ⟨.parenthesis, ")".toList, 0⟩]

theorem scan_render_sample :
    (∀ t ∈ sampleTokens, t.Lexical) ∧ Token.render sampleTokens = "- 5 -.5 sin x )".toList ∧
      ∃ back, scan .reversed "- 5 -.5 sin x )".toList = .ok back ∧
        back.map Token.content = sampleTokens.map Token.content := by
  have hlexical : ∀ t ∈ sampleTokens, t.Lexical := by
    have hdigit : ∀ c ∈ ['5'], isDigit c = true := List.all_eq_true.mp (by decide)
    have hfive : IsNumeral "5".toList := isNumeral_of_digits (by decide) hdigit
    have hhalf : IsNumeral ".5".toList := ⟨[], ['.'], ['5'], rfl, by simp, Or.inr rfl, by decide, hdigit⟩
    have hsin : ∀ c ∈ "sin".toList, isLetter c = true := List.all_eq_true.mp (by decide)
    have hx : ∀ c ∈ "x".toList, isLetter c = true := List.all_eq_true.mp (by decide)
    simp only [sampleTokens, List.forall_mem_cons, Token.Lexical, Kind.Language]
    exact ⟨⟨.minus, rfl⟩, ⟨_, hfive, Or.inl rfl⟩, ⟨_, hhalf, Or.inr rfl⟩, ⟨by decide, hsin⟩, ⟨by decide, hx⟩,
      Or.inr rfl, by simp⟩
  have hrender : Token.render sampleTokens = "- 5 -.5 sin x )".toList := by decide
  obtain ⟨back, hback, hcontent, -⟩ := scan_render.1 sampleTokens hlexical
  exact ⟨hlexical, hrender, back, hrender ▸ hback, hcontent⟩

/-- Evaluating the reverse Polish text of an expression comes to the same as evaluating the
expression, and an expression without such a text fails with what keeps it from one. -/
theorem Rules.evaluateReversed_toRpn (rules : Rules) (e : Text) :
    (toRpn e >>= rules.evaluateReversed) = rules.evaluateTwoPass e := by
  unfold toRpn Rules.evaluateTwoPass
  rw [bind_map]
  cases h : rpnTokens e with
  | error fault => rfl
  | ok out =>
    have hback : scan .reversed (Token.render out) = .ok (Token.placed 0 out) :=
      scanFrom_render (lexical_of_rpnTokens h) none 0
    rw [ok_bind, ok_bind, Rules.evaluateReversed, hback]
    exact Rules.evaluateRpn_congr rules (map_content_placed 0 out)

end Reckoner
