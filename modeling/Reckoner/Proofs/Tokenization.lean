import Mathlib.Data.List.Pairwise
import Reckoner.Proofs.Numerals
import Reckoner.Proofs.RoundTrip

/-!
# Tokenizations

What the tokens of a text have to be, said place by place and without the scanner:
nothing but blanks between them, each as long as it can be, and every minus either a
sign or an operator. A scan gives tokens exactly where some fulfil this, and then no
others do.
-/

namespace Reckoner

/-! ## Conditions -/

namespace Token

def Covers (t : Token) (i : Nat) : Prop := t.position ≤ i ∧ i < t.position + t.text.length

/-- The text without a minus in front. -/
def digits (t : Token) : Text :=
  match t.text with
  | '-' :: body => body
  | text => text

def digitsAt (t : Token) : Nat := t.position + (t.text.length - t.digits.length)

end Token

def lastBefore (tokens : List Token) (i : Nat) : Option Token :=
  (tokens.takeWhile fun t => t.position < i).getLast?

/-- An operand may start behind `previous`: in reversed order always, and in infix order at the start,
behind an operator and behind an opening parenthesis. -/
def OperandDue (order : Order) (previous : Option Token) : Prop :=
  order = .reversed ∨ ∀ t ∈ previous, t.kind = .operator ∨ t.text = ['(']

/-- A number is at a place, a sign in front of its digits included. -/
def InNumber (tokens : List Token) (i : Nat) : Prop := ∃ t ∈ tokens, t.kind = .number ∧ t.Covers i

/-- The tokens of a text. -/
structure TokensOf (order : Order) (e : Text) (tokens : List Token) : Prop where
  increasing : tokens.Pairwise fun a b => a.position < b.position
  apart : tokens.Pairwise fun a b => a.position + a.text.length ≤ b.position
  spelled : ∀ t ∈ tokens, t.text <+: e.drop t.position
  filled : ∀ i c, e[i]? = some c → isBlank c = true ∨ ∃ t ∈ tokens, t.Covers i
  lexical : ∀ t ∈ tokens, t.Lexical
  whole : ∀ t ∈ tokens, t.kind = .identifier → ∀ c, e[t.position + t.text.length]? = some c → isLetter c = false
  longest : ∀ t ∈ tokens, t.kind = .number → IsLongestNumeral t.digits (e.drop t.digitsAt)
  signed : ∀ i, e[i]? = some '-' →
    (InNumber tokens i ↔ StartsNumeral (e.drop (i + 1)) ∧ OperandDue order (lastBefore tokens i))
  alone : ∀ i, e[i]? = some '-' → ¬ InNumber tokens i → ⟨.operator, ['-'], i⟩ ∈ tokens

theorem signs_eq_true_iff {order : Order} {previous : Option Token} :
    signs order previous = true ↔ OperandDue order previous := by
  cases previous <;> simp [signs, OperandDue, Token.opens]

theorem digits_of_isNumeral {t : Token} (h : IsNumeral t.text) : t.digits = t.text := by
  unfold Token.digits
  split
  · rename_i body hb
    rw [hb] at h
    rcases isDigit_or_point_of_isNumeral h '-' List.mem_cons_self with hd | hp
    · exact absurd hd (by decide)
    · exact absurd hp (by decide)
  · rfl

theorem eq_of_covers {tokens : List Token} (h : tokens.Pairwise fun a b => a.position + a.text.length ≤ b.position)
    {a b : Token} (ha : a ∈ tokens) (hb : b ∈ tokens) {i : Nat} (hai : a.Covers i) (hbi : b.Covers i) : a = b := by
  have hshare : tokens.Pairwise fun a b => ¬ (a.Covers i ∧ b.Covers i) := by
    refine h.imp fun {a b} hab hboth => ?_
    have := hboth.1.2
    have := hboth.2.1
    omega
  have : Std.Symm fun a b : Token => ¬ (a.Covers i ∧ b.Covers i) := ⟨fun a b hab hba => hab hba.symm⟩
  by_contra hne
  exact hshare.forall ha hb hne ⟨hai, hbi⟩

theorem inNumber_iff {tokens : List Token}
    (h : tokens.Pairwise fun a b => a.position + a.text.length ≤ b.position) {t : Token} (ht : t ∈ tokens) {i : Nat}
    (hcovers : t.Covers i) : InNumber tokens i ↔ t.kind = .number := by
  constructor
  · rintro ⟨u, hu, hk, hcu⟩
    rw [← eq_of_covers h hu ht hcu hcovers]
    exact hk
  · exact fun hk => ⟨t, ht, hk, hcovers⟩

theorem minus_at_start {k : Kind} {t : Text} (h : k.Language t) {j : Nat} (hj : t[j]? = some '-') : j = 0 := by
  cases k with
  | number =>
    have hbody : ∀ body : Text, IsNumeral body → '-' ∉ body := by
      intro body hb hm
      rcases isDigit_or_point_of_isNumeral hb '-' hm with hd | hp
      · exact absurd hd (by decide)
      · exact absurd hp (by decide)
    obtain ⟨body, hb, rfl | rfl⟩ := h
    · exact absurd (List.mem_of_getElem? hj) (hbody _ hb)
    · cases j with
      | zero => rfl
      | succ j => exact absurd (List.mem_of_getElem? (l := body) hj) (hbody body hb)
  | identifier => exact absurd (h.2 '-' (List.mem_of_getElem? hj)) (by decide)
  | operator =>
    obtain ⟨o, rfl⟩ := h
    simpa using (List.getElem?_eq_some_iff.mp hj).1
  | parenthesis =>
    rcases h with rfl | rfl
    · simpa using (List.getElem?_eq_some_iff.mp hj).1
    · simpa using (List.getElem?_eq_some_iff.mp hj).1

/-! ## Readings -/

/-- Tokens from a place on, each of them the lexeme where it stands. -/
structure Reads (order : Order) (previous : Option Token) (e : Text) (start : Nat) (tokens : List Token) : Prop where
  behind : ∀ t ∈ tokens, start ≤ t.position
  apart : tokens.Pairwise fun a b => a.position + a.text.length ≤ b.position
  lexeme : ∀ front t rest, tokens = front ++ t :: rest →
    lexeme? (signs order (front.getLast?.or previous)) (e.drop t.position) = some (t.kind, t.text)
  filled : ∀ i c, start ≤ i → e[i]? = some c → isBlank c = true ∨ ∃ t ∈ tokens, t.Covers i

section
variable {order : Order} {previous : Option Token} {e : Text} {start : Nat} {tokens : List Token}

theorem getLast?_cons_or (k : Token) (front : List Token) (previous : Option Token) :
    (k :: front).getLast?.or previous = front.getLast?.or (some k) := by
  rw [List.getLast?_cons]
  cases front.getLast? <;> rfl

namespace Reads

theorem found (h : Reads order previous e start tokens) {t : Token} (ht : t ∈ tokens) :
    ∃ sign, lexeme? sign (e.drop t.position) = some (t.kind, t.text) := by
  obtain ⟨front, rest, hsplit⟩ := List.append_of_mem ht
  exact ⟨_, h.lexeme front t rest hsplit⟩

theorem starts (h : Reads order previous e start tokens) {t : Token} (ht : t ∈ tokens) :
    ∃ c rest, e.drop t.position = c :: rest ∧ isBlank c = false ∧ 0 < t.text.length := by
  obtain ⟨sign, hl⟩ := h.found ht
  obtain ⟨behind, hbehind⟩ := isPrefix_of_lexeme? hl
  cases htext : t.text with
  | nil => exact absurd htext (ne_nil_of_language (language_of_lexeme? hl))
  | cons c text =>
    refine ⟨c, text ++ behind, by rw [← hbehind, htext]; rfl, ?_, Nat.succ_pos _⟩
    exact not_isBlank_of_language (language_of_lexeme? hl) c (by rw [htext]; exact List.mem_cons_self)

theorem nil (hend : e.drop start = []) : Reads order previous e start [] := by
  refine ⟨by simp, List.Pairwise.nil, by simp, fun i c hi hc => ?_⟩
  have hlength : e.length ≤ start := List.drop_eq_nil_iff.mp hend
  rw [List.getElem?_eq_none (by omega)] at hc
  cases hc

theorem eq_nil (h : Reads order previous e start tokens) (hend : e.drop start = []) : tokens = [] := by
  cases tokens with
  | nil => rfl
  | cons k more =>
    obtain ⟨c, rest, hc, -⟩ := h.starts List.mem_cons_self
    have hlength : e.length ≤ start := List.drop_eq_nil_iff.mp hend
    have hk := h.behind k List.mem_cons_self
    rw [List.drop_eq_nil_of_le (by omega)] at hc
    cases hc

theorem blank_iff {c : Char} {rest : Text} (hc : e.drop start = c :: rest) (hb : isBlank c = true) :
    Reads order previous e start tokens ↔ Reads order previous e (start + 1) tokens := by
  have hget : e[start]? = some c := by rw [← List.head?_drop, hc]; rfl
  constructor
  · intro h
    refine ⟨fun t ht => ?_, h.apart, h.lexeme, fun i d hi => h.filled i d (by omega)⟩
    obtain ⟨d, rest', hd, hblank, -⟩ := h.starts ht
    refine Nat.lt_of_le_of_ne (h.behind t ht) fun heq => ?_
    rw [← heq, hc] at hd
    cases hd
    rw [hb] at hblank
    cases hblank
  · intro h
    refine ⟨fun t ht => Nat.le_of_succ_le (h.behind t ht), h.apart, h.lexeme, fun i d hi hd => ?_⟩
    by_cases hstart : i = start
    · subst hstart
      rw [hget] at hd
      cases hd
      exact Or.inl hb
    · exact h.filled i d (by omega) hd

theorem cons {k : Token} {more : List Token} (hp : k.position = start)
    (hl : lexeme? (signs order previous) (e.drop start) = some (k.kind, k.text))
    (h : Reads order (some k) e (start + k.text.length) more) : Reads order previous e start (k :: more) := by
  refine ⟨?_, List.pairwise_cons.mpr ⟨fun t ht => hp ▸ h.behind t ht, h.apart⟩, ?_, fun i c hi hc => ?_⟩
  · exact List.forall_mem_cons.mpr ⟨hp.ge, fun t ht => Nat.le_trans (Nat.le_add_right _ _) (h.behind t ht)⟩
  · intro front t rest hsplit
    cases front with
    | nil => cases hsplit; rw [hp]; exact hl
    | cons b front =>
      cases hsplit
      rw [getLast?_cons_or]
      exact h.lexeme front t rest rfl
  · by_cases hin : i < start + k.text.length
    · exact Or.inr ⟨k, List.mem_cons_self, hp ▸ hi, hp ▸ hin⟩
    · rcases h.filled i c (by omega) hc with hb | ⟨t, ht, hcovers⟩
      · exact Or.inl hb
      · exact Or.inr ⟨t, List.mem_cons_of_mem k ht, hcovers⟩

theorem tail {k : Token} {more : List Token} (h : Reads order previous e start (k :: more)) :
    Reads order (some k) e (k.position + k.text.length) more := by
  obtain ⟨hbehind, hapart⟩ := List.pairwise_cons.mp h.apart
  refine ⟨hbehind, hapart, fun front t rest hsplit => ?_, fun i c hi hc => ?_⟩
  · have hl := h.lexeme (k :: front) t rest (by rw [hsplit]; rfl)
    rwa [getLast?_cons_or] at hl
  · have hk := h.behind k List.mem_cons_self
    rcases h.filled i c (by omega) hc with hb | ⟨t, ht, hcovers⟩
    · exact Or.inl hb
    · rcases List.mem_cons.mp ht with rfl | ht
      · have := hcovers.2
        omega
      · exact Or.inr ⟨t, ht, hcovers⟩

theorem head {c : Char} {rest : Text} (h : Reads order previous e start tokens) (hc : e.drop start = c :: rest)
    (hb : isBlank c = false) : ∃ k more, tokens = k :: more ∧ k.position = start := by
  have hget : e[start]? = some c := by rw [← List.head?_drop, hc]; rfl
  rcases h.filled start c (Nat.le_refl _) hget with hblank | ⟨t, ht, hcovers⟩
  · rw [hb] at hblank
    cases hblank
  · have hposition : t.position = start := Nat.le_antisymm hcovers.1 (h.behind t ht)
    cases tokens with
    | nil => cases ht
    | cons k more =>
      rcases List.mem_cons.mp ht with rfl | hmore
      · exact ⟨_, more, rfl, hposition⟩
      · -- A token before `t` would end where `t` starts, and start before that.
        obtain ⟨-, -, -, -, hlength⟩ := h.starts (t := k) List.mem_cons_self
        have hk := h.behind k List.mem_cons_self
        have := (List.pairwise_cons.mp h.apart).1 t hmore
        omega

end Reads

theorem reads_of_scanFrom {t : Text} : ∀ {tokens : List Token}, t = e.drop start →
    scanFrom order previous start 0 t = .ok tokens → Reads order previous e start tokens := by
  induction previous, start, t using scanFrom_induction order with
  | nil previous start =>
    intro tokens ht h
    cases h
    exact .nil ht.symm
  | blank previous start c rest hc ih =>
    intro tokens ht h
    rw [scanFrom_blank hc] at h
    exact (Reads.blank_iff ht.symm hc).mpr (ih (by rw [← List.drop_drop, ← ht]; rfl) h)
  | unexpected previous start c rest hc hl =>
    intro tokens ht h
    rw [scanFrom_unexpected hc hl] at h
    cases h
  | lexeme previous start c rest kind text hc hl ih =>
    intro tokens ht h
    rw [scanFrom_lexeme hc hl] at h
    obtain ⟨more, hmore, rfl⟩ := map_eq_ok_iff.mp h
    exact .cons rfl (ht ▸ hl) (ih (by rw [ht, List.drop_drop]) hmore)

theorem scanFrom_of_reads {t : Text} : ∀ {tokens : List Token}, t = e.drop start →
    Reads order previous e start tokens → scanFrom order previous start 0 t = .ok tokens := by
  induction previous, start, t using scanFrom_induction order with
  | nil previous start =>
    intro tokens ht h
    rw [h.eq_nil ht.symm]
    rfl
  | blank previous start c rest hc ih =>
    intro tokens ht h
    rw [scanFrom_blank hc]
    exact ih (by rw [← List.drop_drop, ← ht]; rfl) ((Reads.blank_iff ht.symm hc).mp h)
  | unexpected previous start c rest hc hl =>
    intro tokens ht h
    obtain ⟨k, more, rfl, rfl⟩ := h.head ht.symm hc
    have hk := h.lexeme [] k more rfl
    rw [← ht] at hk
    cases hl.symm.trans hk
  | lexeme previous start c rest kind text hc hl ih =>
    intro tokens ht h
    obtain ⟨⟨kind', text', position⟩, more, rfl, rfl⟩ := h.head ht.symm hc
    have hk := h.lexeme [] _ more rfl
    rw [← ht] at hk
    cases hl.symm.trans hk
    rw [scanFrom_lexeme hc hl, ih (by rw [ht, List.drop_drop]) h.tail]
    rfl

theorem scan_eq_ok_iff_reads : scan order e = .ok tokens ↔ Reads order none e 0 tokens :=
  ⟨reads_of_scanFrom rfl, scanFrom_of_reads rfl⟩

/-! ## From readings to conditions -/

theorem lastBefore_append {front rest : List Token} {t : Token}
    (h : (front ++ t :: rest).Pairwise fun a b => a.position < b.position) :
    lastBefore (front ++ t :: rest) t.position = front.getLast? := by
  obtain ⟨htake, -⟩ := takeWhile_append_stop (p := fun u : Token => decide (u.position < t.position))
    (u := front) (r := t :: rest)
    (fun u hu => decide_eq_true ((List.pairwise_append.mp h).2.2 u hu t List.mem_cons_self))
    (by intro u hu; cases hu; simp)
  rw [lastBefore, htake]

theorem not_isLetter_behind {sign : Bool} {t text : Text} (h : lexeme? sign t = some (.identifier, text)) :
    ∀ c, t[text.length]? = some c → isLetter c = false := by
  have htext : text = t.takeWhile isLetter := by
    rcases lexeme?_cases h with ⟨hk, -⟩ | ⟨c, rest, rfl, ⟨-, -, rfl⟩ | ⟨hk, -⟩ | ⟨hk, -⟩ | ⟨hk, -⟩⟩
    · cases hk
    · rfl
    · cases hk
    · cases hk
    · cases hk
  intro c hc
  have hsplit : t.takeWhile isLetter ++ t.dropWhile isLetter = t := List.takeWhile_append_dropWhile
  rw [← hsplit, htext, List.getElem?_append_right (Nat.le_refl _), Nat.sub_self, ← List.head?_eq_getElem?] at hc
  have hnot := List.head?_dropWhile_not isLetter t
  rw [hc] at hnot
  exact hnot

theorem longest_of_lexeme? {sign : Bool} {t : Token} (h : lexeme? sign (e.drop t.position) = some (t.kind, t.text))
    (hk : t.kind = .number) : IsLongestNumeral t.digits (e.drop t.digitsAt) := by
  rw [hk] at h
  rcases lexeme?_cases h with ⟨-, htext, hne⟩ | ⟨c, rest, hrest, ⟨hk', -⟩ | ⟨-, rfl, htext, hne⟩ | ⟨hk', -⟩ | ⟨hk', -⟩⟩
  · have hdigits : t.digits = t.text := digits_of_isNumeral (by rw [htext]; exact isNumeral_leadingNumeral hne)
    have hat : t.digitsAt = t.position := by simp [Token.digitsAt, hdigits]
    rw [hdigits, hat, htext]
    exact isLongestNumeral_leadingNumeral hne
  · cases hk'
  · have hdigits : t.digits = leadingNumeral rest := by simp [Token.digits, htext]
    have hat : t.digitsAt = t.position + 1 := by simp [Token.digitsAt, hdigits, htext]
    rw [hdigits, hat, ← List.drop_drop, hrest]
    exact isLongestNumeral_leadingNumeral hne
  · cases hk'
  · cases hk'

theorem Reads.exists_of_minus (h : Reads order none e 0 tokens) {i : Nat} (hi : e[i]? = some '-') :
    ∃ front t rest, tokens = front ++ t :: rest ∧ t.position = i ∧
      lexeme? (signs order front.getLast?) ('-' :: e.drop (i + 1)) = some (t.kind, t.text) := by
  rcases h.filled i '-' (Nat.zero_le i) hi with hb | ⟨t, ht, hle, hlt⟩
  · exact absurd hb (by decide)
  · obtain ⟨front, rest, hsplit⟩ := List.append_of_mem ht
    have hl := h.lexeme front t rest hsplit
    obtain ⟨behind, hbehind⟩ := isPrefix_of_lexeme? hl
    obtain ⟨j, rfl⟩ := Nat.exists_eq_add_of_le hle
    have hj : t.text[j]? = some '-' := by
      rw [← List.getElem?_drop, ← hbehind, List.getElem?_append_left (by omega)] at hi
      exact hi
    obtain rfl := minus_at_start (language_of_lexeme? hl) hj
    rw [Nat.add_zero] at hi ⊢
    have hdrop : e.drop t.position = '-' :: e.drop (t.position + 1) := by
      obtain ⟨hlength, hget⟩ := List.getElem?_eq_some_iff.mp hi
      rw [List.drop_eq_getElem_cons hlength, hget]
    rw [Option.or_none, hdrop] at hl
    exact ⟨front, t, rest, hsplit, rfl, hl⟩

theorem Reads.increasing (h : Reads order previous e start tokens) :
    tokens.Pairwise fun a b => a.position < b.position := by
  refine h.apart.imp_of_mem fun {a b} ha hb hab => ?_
  obtain ⟨-, -, -, -, hlength⟩ := h.starts ha
  omega

/-- Every minus starts a number or is an operator. -/
theorem Reads.minus (h : Reads order none e 0 tokens) {i : Nat} (hi : e[i]? = some '-') :
    (InNumber tokens i ↔ StartsNumeral (e.drop (i + 1)) ∧ OperandDue order (lastBefore tokens i)) ∧
      (¬ InNumber tokens i → ⟨.operator, ['-'], i⟩ ∈ tokens) := by
  obtain ⟨front, t, rest, rfl, rfl, hl⟩ := h.exists_of_minus hi
  have hmem : t ∈ front ++ t :: rest := by simp
  have hcovers : t.Covers t.position := by
    obtain ⟨-, -, -, -, hlength⟩ := h.starts hmem
    exact ⟨Nat.le_refl _, by omega⟩
  rw [lastBefore_append h.increasing, ← signs_eq_true_iff, ← leadingNumeral_ne_nil_iff,
    inNumber_iff h.apart hmem hcovers]
  rw [lexeme?_minus] at hl
  by_cases hsign : signs order front.getLast? = true ∧ leadingNumeral (e.drop (t.position + 1)) ≠ []
  · rw [if_pos hsign] at hl
    have hk : t.kind = .number := (congrArg Prod.fst (Option.some.inj hl)).symm
    exact ⟨iff_of_true hk hsign.symm, fun hn => absurd hk hn⟩
  · rw [if_neg hsign] at hl
    have hk : t.kind = .operator := (congrArg Prod.fst (Option.some.inj hl)).symm
    have htext : t.text = ['-'] := (congrArg Prod.snd (Option.some.inj hl)).symm
    refine ⟨iff_of_false (by simp [hk]) fun hs => hsign hs.symm, fun _ => ?_⟩
    rw [← hk, ← htext]
    exact hmem

theorem tokensOf_of_reads (h : Reads order none e 0 tokens) : TokensOf order e tokens := by
  refine ⟨h.increasing, h.apart, ?_, fun i c hc => h.filled i c (Nat.zero_le i) hc, ?_, ?_, ?_,
    fun i hi => (h.minus hi).1, fun i hi => (h.minus hi).2⟩
  · intro t ht
    obtain ⟨sign, hl⟩ := h.found ht
    exact isPrefix_of_lexeme? hl
  · intro t ht
    obtain ⟨sign, hl⟩ := h.found ht
    exact language_of_lexeme? hl
  · intro t ht hk c hc
    obtain ⟨sign, hl⟩ := h.found ht
    rw [hk] at hl
    exact not_isLetter_behind hl c (by rw [List.getElem?_drop]; exact hc)
  · intro t ht hk
    obtain ⟨sign, hl⟩ := h.found ht
    exact longest_of_lexeme? hl hk

/-! ## From conditions to readings -/

namespace TokensOf

variable {front rest : List Token} {t : Token}

theorem covers (h : TokensOf order e tokens) (ht : t ∈ tokens) : t.Covers t.position := by
  have := List.length_pos_iff.mpr (ne_nil_of_language (h.lexical t ht))
  exact ⟨Nat.le_refl _, by omega⟩

theorem signed_iff (h : TokensOf order e (front ++ t :: rest)) {behind : Text}
    (hdrop : e.drop t.position = '-' :: behind) :
    t.kind = .number ↔ signs order front.getLast? = true ∧ leadingNumeral behind ≠ [] := by
  have hmem : t ∈ front ++ t :: rest := by simp
  have hget : e[t.position]? = some '-' := by rw [← List.head?_drop, hdrop]; rfl
  have hbehind : e.drop (t.position + 1) = behind := by rw [← List.drop_drop, hdrop]; rfl
  rw [← inNumber_iff h.apart hmem (h.covers hmem), h.signed _ hget, lastBefore_append h.increasing, hbehind,
    ← signs_eq_true_iff, ← leadingNumeral_ne_nil_iff]
  exact and_comm

/-- What fulfils the conditions is read where it stands. -/
theorem lexeme (h : TokensOf order e (front ++ t :: rest)) :
    lexeme? (signs order front.getLast?) (e.drop t.position) = some (t.kind, t.text) := by
  have hmem : t ∈ front ++ t :: rest := by simp
  have hlexical := h.lexical t hmem
  obtain ⟨behind, hbehind⟩ := h.spelled t hmem
  unfold Token.Lexical at hlexical
  cases hk : t.kind with
  | number =>
    rw [hk] at hlexical
    have hlongest := (h.longest t hmem hk).eq_leadingNumeral
    obtain ⟨body, hb, htext | htext⟩ := hlexical
    · have hdigits : t.digits = t.text := digits_of_isNumeral (by rw [htext]; exact hb)
      have hat : t.digitsAt = t.position := by simp [Token.digitsAt, hdigits]
      rw [hdigits, hat] at hlongest
      rw [hlongest]
      exact lexeme?_numeral (by rw [← hlongest, htext]; exact ne_nil_of_isNumeral hb) _
    · have hdigits : t.digits = body := by simp [Token.digits, htext]
      have hat : t.digitsAt = t.position + 1 := by simp [Token.digitsAt, hdigits, htext]
      have hdrop : e.drop t.position = '-' :: (body ++ behind) := by rw [← hbehind, htext]; rfl
      rw [hdigits, hat, ← List.drop_drop, hdrop, List.drop_one, List.tail_cons] at hlongest
      rw [hdrop, lexeme?_minus, if_pos ((h.signed_iff hdrop).mp hk), ← hlongest, htext]
  | identifier =>
    rw [hk] at hlexical
    rw [← hbehind]
    refine lexeme?_letters hlexical.1 hlexical.2 (fun c hc => ?_) _
    refine h.whole t hmem hk c ?_
    rw [← List.getElem?_drop, ← hbehind, List.getElem?_append_right (Nat.le_refl _), Nat.sub_self,
      ← List.head?_eq_getElem?]
    exact hc
  | operator =>
    rw [hk] at hlexical
    obtain ⟨o, ho⟩ := hlexical
    have hdrop : e.drop t.position = o.symbol :: behind := by rw [← hbehind, ho]; rfl
    rw [hdrop, ho]
    by_cases hminus : o = .minus
    · subst hminus
      have hunsigned := mt (h.signed_iff hdrop).mpr (by simp [hk])
      exact (lexeme?_minus _ behind).trans (if_neg hunsigned)
    · exact lexeme?_symbol hminus _ behind
  | parenthesis =>
    rw [hk] at hlexical
    rw [← hbehind]
    rcases hlexical with ht | ht
    · rw [ht]; rfl
    · rw [ht]; rfl

theorem reads (h : TokensOf order e tokens) : Reads order none e 0 tokens := by
  refine ⟨fun t _ => Nat.zero_le _, h.apart, ?_, fun i c _ hc => h.filled i c hc⟩
  rintro front t rest rfl
  rw [Option.or_none]
  exact h.lexeme

end TokensOf

end

/-- A scan gives tokens exactly where they are the tokens of the text, and a text has no two lists of these. -/
theorem scan_tokensOf (order : Order) (e : Text) :
    (∀ tokens, scan order e = .ok tokens ↔ TokensOf order e tokens) ∧
    ∀ tokens more, TokensOf order e tokens → TokensOf order e more → tokens = more := by
  have hiff : ∀ tokens, scan order e = .ok tokens ↔ TokensOf order e tokens := fun tokens =>
    scan_eq_ok_iff_reads.trans ⟨tokensOf_of_reads, TokensOf.reads⟩
  refine ⟨hiff, fun tokens more ht hm => ?_⟩
  have hsame := ((hiff tokens).mpr ht).symm.trans ((hiff more).mpr hm)
  exact Except.ok.inj hsame

end Reckoner
