import Reckoner.Decimal.Layout
import Reckoner.Proofs.Legality

/-!
# Messages

The characters that numbers, quoted texts and the words for faults are written in. All
of them have a visible form. A sign that stands in no token comes into the words for a
fault of a text only between quotes.
-/

namespace Reckoner

/-! ## Digits -/

def digitCharacters : Text := "0123456789abcdef".toList

theorem toDigits_subset {b : Nat} (hb : 1 < b) (hle : b ≤ 16) (n : Nat) :
    Nat.toDigits b n ⊆ digitCharacters.take b := by
  have hdigit : ∀ k < b, Nat.digitChar k ∈ digitCharacters.take b := by
    have hall : ∀ k < 16, digitCharacters[k]? = some (Nat.digitChar k) := by decide
    intro k hk
    refine List.mem_of_getElem? (i := k) ?_
    rw [List.getElem?_take_of_lt hk]
    exact hall k (Nat.lt_of_lt_of_le hk hle)
  induction n using Nat.strong_induction_on with
  | _ n ih =>
    rw [Nat.toDigits_eq_if hb]
    by_cases hn : n < b
    · simpa [hn] using hdigit n hn
    · have hpos : 0 < n := by omega
      have hlast := hdigit (n % b) (Nat.mod_lt n (by omega))
      rw [if_neg hn, List.append_subset]
      exact ⟨ih (n / b) (Nat.div_lt_self hpos hb), by simpa using hlast⟩

theorem natural_subset (n : Nat) : Text.natural n ⊆ digitCharacters.take 10 :=
  toDigits_subset (by decide) (by decide) n

theorem hexadecimal_subset (width n : Nat) : Text.hexadecimal width n ⊆ digitCharacters := by
  have hdigits : Nat.toDigits 16 n ⊆ digitCharacters := toDigits_subset (by decide) (by decide) n
  exact List.append_subset.mpr ⟨List.replicate_subset.mpr (Or.inr (by decide)), hdigits⟩

/-! ## Floats -/

def floatCharacters : Text := "0123456789.-+einfa".toList

theorem zeros_subset (n : Nat) : List.replicate n '0' ⊆ floatCharacters :=
  List.replicate_subset.mpr (Or.inr (by decide))

theorem digits_subset_float : digitCharacters.take 10 ⊆ floatCharacters := by decide

theorem onGrid_subset (units : Nat) (place : Int) : (Decimal.onGrid units place).digits ⊆ digitCharacters.take 10 := by
  have hkept : ((Text.natural units).reverse.dropWhile (· = '0')).reverse ⊆ Text.natural units :=
    List.reverse_subset.mpr fun c hc => List.mem_reverse.mp ((List.dropWhile_suffix _).subset hc)
  exact List.Subset.trans hkept (natural_subset units)

theorem shortest_subset (m : Nat) (e : Int) : (Decimal.shortest m e).digits ⊆ digitCharacters.take 10 := by
  unfold Decimal.shortest
  dsimp only
  generalize hfound : List.findSome? _ _ = found
  cases found with
  | none => decide
  | some d =>
    obtain ⟨n, -, hd⟩ := List.exists_of_findSome?_eq_some hfound
    obtain ⟨units, -, rfl⟩ := Option.map_eq_some_iff.mp hd
    exact onGrid_subset units _

namespace Layout

section
variable {d : Decimal} (hd : d.digits ⊆ floatCharacters)
include hd

theorem positional_subset : positional d ⊆ floatCharacters := by
  unfold positional
  by_cases hneg : d.exponent < 0
  · rw [if_pos hneg]
    simp only [List.append_subset]
    exact ⟨⟨by decide, zeros_subset _⟩, hd⟩
  · rw [if_neg hneg]
    simp only [List.append_subset]
    refine ⟨⟨⟨List.Subset.trans (List.take_subset _ _) hd, zeros_subset _⟩, by decide⟩, ?_⟩
    split
    · decide
    · exact List.Subset.trans (List.drop_subset _ _) hd

theorem scientific_subset (width : Nat) : scientific width d ⊆ floatCharacters := by
  have hpower : Text.natural d.exponent.natAbs ⊆ floatCharacters :=
    List.Subset.trans (natural_subset _) digits_subset_float
  unfold scientific
  simp only [List.append_subset]
  refine ⟨⟨⟨⟨⟨List.Subset.trans (List.take_subset _ _) hd, ?_⟩, by decide⟩, ?_⟩, zeros_subset _⟩, hpower⟩
  · split
    · exact List.nil_subset _
    · exact List.cons_subset.mpr ⟨by decide, List.Subset.trans (List.drop_subset _ _) hd⟩
  · split <;> decide

end

theorem float_subset (l : Layout) (x : Float) : l.float x ⊆ floatCharacters := by
  have hsign : (if isNegative x then ['-'] else []) ⊆ floatCharacters := by
    split <;> decide
  unfold float
  dsimp only
  split
  · decide
  · exact List.append_subset.mpr ⟨hsign, by decide⟩
  · exact List.append_subset.mpr ⟨hsign, by decide⟩
  · rename_i m e _ _
    have hdigits : (Decimal.shortest m e).digits ⊆ floatCharacters :=
      List.Subset.trans (shortest_subset m e) digits_subset_float
    refine List.append_subset.mpr ⟨hsign, ?_⟩
    unfold decimal
    split
    · exact positional_subset hdigits
    · exact scientific_subset hdigits l.width

end Layout

/-! ## Quotes -/

/-- Quotes, and what stands for a character without a visible form. -/
def escapeCharacters : Text := digitCharacters ++ "\\'\"nrtxuU".toList

theorem escapeCode_subset (c : Char) : Text.escapeCode c ⊆ escapeCharacters := by
  have hcode : ∀ mark ∈ escapeCharacters, ∀ width,
      '\\' :: mark :: Text.hexadecimal width c.toNat ⊆ escapeCharacters := by
    intro mark hmark width
    have hdigits : digitCharacters ⊆ escapeCharacters := List.subset_append_left _ _
    exact List.cons_subset.mpr ⟨by decide,
      List.cons_subset.mpr ⟨hmark, List.Subset.trans (hexadecimal_subset width c.toNat) hdigits⟩⟩
  unfold Text.escapeCode
  dsimp only
  split
  · exact hcode 'x' (by decide) 2
  · split
    · exact hcode 'u' (by decide) 4
    · exact hcode 'U' (by decide) 8

theorem quoteMark_mem (t : Text) : t.quoteMark ∈ escapeCharacters := by
  unfold Text.quoteMark
  split <;> decide

/-- A character between quotes is one of the text that has a visible form, or part of what stands for one. -/
theorem mem_escape {mark c d : Char} (hm : mark ∈ escapeCharacters) (h : d ∈ Text.escape mark c) :
    d = c ∧ isPrintable c = true ∨ d ∈ escapeCharacters := by
  have hpair : ∀ s ∈ escapeCharacters, d ∈ ['\\', s] → d ∈ escapeCharacters := by
    intro s hs hd
    rcases List.mem_pair.mp hd with rfl | rfl
    · decide
    · exact hs
  unfold Text.escape at h
  split at h
  · rename_i hmark
    rw [Bool.or_eq_true, decide_eq_true_eq, decide_eq_true_eq] at hmark
    have hc : c ∈ escapeCharacters := by
      rcases hmark with rfl | rfl
      · exact hm
      · decide
    exact Or.inr (hpair c hc h)
  split at h
  · exact Or.inr (hpair 'n' (by decide) h)
  split at h
  · exact Or.inr (hpair 'r' (by decide) h)
  split at h
  · exact Or.inr (hpair 't' (by decide) h)
  split at h
  · rename_i hp
    exact Or.inl ⟨List.mem_singleton.mp h, hp⟩
  · exact Or.inr (escapeCode_subset c h)

theorem mem_quoted {t : Text} {d : Char} (h : d ∈ t.quoted) : d ∈ t ∧ isPrintable d = true ∨ d ∈ escapeCharacters := by
  have hmark := quoteMark_mem t
  unfold Text.quoted at h
  simp only [List.mem_append, List.mem_cons, List.mem_flatMap, List.not_mem_nil, or_false] at h
  rcases h with (rfl | ⟨c, hc, hd⟩) | rfl
  · exact Or.inr hmark
  · rcases mem_escape hmark hd with ⟨rfl, hp⟩ | hd
    · exact Or.inl ⟨hc, hp⟩
    · exact Or.inr hd
  · exact Or.inr hmark

/-! ## Visible forms -/

def Visible (t : Text) : Prop := ∀ c ∈ t, isPrintable c = true

instance (t : Text) : Decidable (Visible t) := List.decidableBAll _ t

theorem visible_append {s t : Text} : Visible (s ++ t) ↔ Visible s ∧ Visible t := List.forall_mem_append

theorem Visible.of_subset {s t : Text} (ht : Visible t) (h : s ⊆ t) : Visible s := fun c hc => ht c (h hc)

theorem visible_natural (n : Nat) : Visible (Text.natural n) := by
  have hdigits : Visible (digitCharacters.take 10) := by decide
  exact hdigits.of_subset (natural_subset n)

theorem visible_integer (i : Int) : Visible (Text.integer i) := by
  cases i with
  | ofNat n => exact visible_natural n
  | negSucc n => exact List.forall_mem_cons.mpr ⟨by decide, visible_natural (n + 1)⟩

theorem visible_float (x : Float) : Visible (Text.float x) := by
  have hfloat : Visible floatCharacters := by decide
  exact hfloat.of_subset (Layout.float_subset Layout.values x)

theorem visible_quoted (t : Text) : Visible t.quoted := by
  have hescape : Visible escapeCharacters := by decide
  intro c hc
  rcases mem_quoted hc with ⟨-, hp⟩ | hmem
  · exact hp
  · exact hescape c hmem

theorem visible_reason (reason : Reason) : Visible reason.message := by
  cases reason <;> decide

/-- Whatever the fault is about, its words have a visible form. -/
theorem visible_message (fault : Fault) : Visible fault.message := by
  unfold Fault.message
  cases fault with
  | unexpected c position =>
    simp only [visible_append]
    exact ⟨⟨⟨by decide, visible_quoted [c]⟩, by decide⟩, visible_natural position⟩
  | mismatched => decide
  | invalid => decide
  | unknownFunction name => exact visible_append.mpr ⟨by decide, visible_quoted name⟩
  | evaluation symbol reason =>
    simp only [visible_append]
    exact ⟨⟨⟨by decide, visible_quoted symbol⟩, by decide⟩, visible_reason reason⟩
  | unknownOperator symbol => exact visible_quoted symbol
  | notANumber text =>
    simp only [visible_append]
    exact ⟨⟨by decide, visible_quoted text⟩, by decide⟩
  | malformedNumber text => exact visible_append.mpr ⟨by decide, visible_quoted text⟩

/-! ## Faults of a text -/

/-- A fault that names nothing but what tokens are made of, or a character that is in none. -/
def Fault.Legal : Fault → Prop
  | unexpected .. | mismatched | invalid => True
  | unknownFunction name => ∀ c ∈ name, isLegal c = true
  | evaluation symbol _ => ∀ c ∈ symbol, isLegal c = true
  | unknownOperator _ | notANumber _ | malformedNumber _ => False

theorem legal_of_apply {rules : Rules} {t : Token} (ht : t.Lexical) {values : List Float} {fault : Fault}
    (h : rules.apply t values = .error fault) : fault.Legal := by
  have hexpression := Rules.isExpression_of_apply ht h
  rcases Rules.apply_eq_error h with rfl | rfl | ⟨reason, rfl⟩ | ⟨-, -, rfl⟩ | ⟨-, -, rfl⟩
  · trivial
  · exact isLegal_of_language ht
  · exact isLegal_of_language ht
  · cases hexpression
  · cases hexpression

theorem legal_of_evaluateTwoPass {rules : Rules} {e : Text} {fault : Fault}
    (h : rules.evaluateTwoPass e = .error fault) : fault.Legal := by
  rcases bind_eq_error_iff.mp h with hout | ⟨out, hout, hvalue⟩
  · rcases rpnTokens_eq_error hout with ⟨c, p, rfl⟩ | rfl
    · trivial
    · trivial
  · rcases Rules.evaluateRpn_eq_error hvalue with rfl | ⟨t, ht, values, happly⟩
    · trivial
    · exact legal_of_apply (lexical_of_rpnTokens hout t ht) happly

theorem space_mem_message {fault : Fault} (h : fault.Legal) : ' ' ∈ fault.message := by
  unfold Fault.message
  cases fault with
  | unexpected c position =>
    exact List.mem_append_left _ (List.mem_append_left _ (List.mem_append_left _ (by decide)))
  | mismatched => decide
  | invalid => decide
  | unknownFunction name => exact List.mem_append_left _ (by decide)
  | evaluation symbol reason =>
    exact List.mem_append_left _ (List.mem_append_left _ (List.mem_append_left _ (by decide)))
  | unknownOperator symbol => cases h
  | notANumber text => cases h
  | malformedNumber text => cases h

/-! ## Parting signs -/

/-- The signs that part an expression from what became of it. -/
def partingSigns : Text := ['=', '>']

section
variable {d : Char} (hd : d ∈ partingSigns)
include hd

/-- A text without parting signs, which is said of both signs at once. -/
theorem sign_not_mem {t : Text} (ht : partingSigns.all (!t.contains ·) = true) : d ∉ t := by
  have hnone := List.all_eq_true.mp ht d hd
  simpa using hnone

theorem sign_not_mem_quoted {t : Text} (ht : d ∉ t) : d ∉ t.quoted := by
  intro h
  rcases mem_quoted h with ⟨hmem, -⟩ | hmem
  · exact ht hmem
  · exact sign_not_mem hd (t := escapeCharacters) (by decide) hmem

theorem sign_not_mem_legal {t : Text} (ht : ∀ c ∈ t, isLegal c = true) : d ∉ t := by
  intro h
  have hlegal := ht d h
  rcases List.mem_pair.mp hd with rfl | rfl <;> cases hlegal

theorem sign_not_mem_natural (n : Nat) : d ∉ Text.natural n := fun h =>
  sign_not_mem hd (t := digitCharacters.take 10) (by decide) (natural_subset n h)

theorem sign_not_mem_integer (i : Int) : d ∉ Text.integer i := by
  cases i with
  | ofNat n => exact sign_not_mem_natural hd n
  | negSucc n =>
    have hminus : d ∉ ['-'] := sign_not_mem hd (by decide)
    exact List.not_mem_cons_of_ne_of_not_mem (List.ne_of_not_mem_cons hminus) (sign_not_mem_natural hd (n + 1))

theorem sign_not_mem_float (x : Float) : d ∉ Text.float x := fun h =>
  sign_not_mem hd (t := floatCharacters) (by decide) (Layout.float_subset Layout.values x h)

theorem sign_not_mem_reason (reason : Reason) : d ∉ reason.message := by
  cases reason <;> exact sign_not_mem hd (by decide)

/-- Only the character that a message is about can be a parting sign. -/
theorem sign_not_mem_message {fault : Fault} (h : fault.Legal) (hc : ∀ c p, fault = .unexpected c p → c ≠ d) :
    d ∉ fault.message := by
  unfold Fault.message
  cases fault with
  | unexpected c position =>
    have hquoted := sign_not_mem_quoted hd (t := [c]) (by simpa using (hc c position rfl).symm)
    simp only [List.mem_append, not_or]
    exact ⟨⟨⟨sign_not_mem hd (by decide), hquoted⟩, sign_not_mem hd (by decide)⟩, sign_not_mem_natural hd position⟩
  | mismatched => exact sign_not_mem hd (by decide)
  | invalid => exact sign_not_mem hd (by decide)
  | unknownFunction name =>
    have hquoted := sign_not_mem_quoted hd (sign_not_mem_legal hd h)
    rw [List.mem_append, not_or]
    exact ⟨sign_not_mem hd (by decide), hquoted⟩
  | evaluation symbol reason =>
    have hquoted := sign_not_mem_quoted hd (sign_not_mem_legal hd h)
    simp only [List.mem_append, not_or]
    exact ⟨⟨⟨sign_not_mem hd (by decide), hquoted⟩, sign_not_mem hd (by decide)⟩, sign_not_mem_reason hd reason⟩
  | unknownOperator symbol => cases h
  | notANumber text => cases h
  | malformedNumber text => cases h

theorem message_unexpected_sign (p : Nat) : Fault.message (.unexpected d p) =
    "Unexpected character '".toList ++ d :: ("' at position ".toList ++ Text.natural p) := by
  have hquoted : Text.quoted [d] = ['\'', d, '\''] := by
    rcases List.mem_pair.mp hd with rfl | rfl <;> decide
  show "Unexpected character ".toList ++ Text.quoted [d] ++ " at position ".toList ++ Text.natural p = _
  rw [hquoted]
  simp

/-- A parting sign in the words for a fault stands between quotes, so no space follows it. -/
theorem apart_message {fault : Fault} (h : fault.Legal) : ¬ [d, ' '] <:+: fault.message := by
  rintro ⟨s, t, hpair⟩
  by_cases hc : ∃ p, fault = .unexpected d p
  · obtain ⟨p, rfl⟩ := hc
    have hrest : d ∉ "' at position ".toList ++ Text.natural p := by
      rw [List.mem_append, not_or]
      exact ⟨sign_not_mem hd (by decide), sign_not_mem_natural hd p⟩
    have hbefore : d ∉ "Unexpected character '".toList := sign_not_mem hd (by decide)
    rw [message_unexpected_sign hd, List.append_assoc] at hpair
    obtain ⟨-, -, htail⟩ := (List.append_cons_inj_of_notMem hbefore hrest).mp hpair.symm
    cases htail
  · refine sign_not_mem_message hd h (fun c p hfault hcd => hc ⟨p, by rw [hfault, hcd]⟩) ?_
    rw [← hpair]
    simp

end

end Reckoner
