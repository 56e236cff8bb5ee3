import Reckoner.Proofs.Brackets

/-!
# What a conversion keeps

Parentheses apart, what has left and what still waits are together a permutation of what has arrived,
so every token leaves once. Numbers never wait, and leave in the order in which they arrive.
-/

namespace Reckoner

def unbracketed (tokens : List Token) : List Token := tokens.filter (·.kind ≠ .parenthesis)

def numbers (tokens : List Token) : List Token := tokens.filter (·.kind = .number)

theorem unbracketed_append (tokens more : List Token) :
    unbracketed (tokens ++ more) = unbracketed tokens ++ unbracketed more := List.filter_append ..

theorem numbers_append (tokens more : List Token) : numbers (tokens ++ more) = numbers tokens ++ numbers more :=
  List.filter_append ..

theorem unbracketed_cons {t : Token} (h : t.kind ≠ .parenthesis) (tokens : List Token) :
    unbracketed (t :: tokens) = t :: unbracketed tokens := by
  simp [unbracketed, h]

theorem unbracketed_cons_parenthesis {t : Token} (h : t.kind = .parenthesis) (tokens : List Token) :
    unbracketed (t :: tokens) = unbracketed tokens := by
  simp [unbracketed, h]

theorem numbers_singleton {t : Token} (h : t.kind ≠ .number) : numbers [t] = [] := by
  simp [numbers, h]

section
variable {stack : List Token} (hs : ∀ t ∈ stack, t.Waits)
include hs

theorem unbracketed_of_waits (ho : ∀ t ∈ stack, t.opens = false) : unbracketed stack = stack := by
  rw [unbracketed, List.filter_eq_self]
  intro t ht
  simpa using (hs t ht).kind_ne_parenthesis (ho t ht)

theorem numbers_of_waits : numbers stack = [] := by
  rw [numbers, List.filter_eq_nil_iff]
  intro t ht
  simpa using (hs t ht).kind

end

namespace Rpn

/-- Some tokens have arrived on a stack: these have left, and the rest waits. -/
structure Carries (arrived stack out rest : List Token) : Prop where
  waits : ∀ t ∈ rest, t.Waits
  kept : (out ++ unbracketed rest).Perm (unbracketed (arrived ++ stack))
  inOrder : numbers out = numbers arrived

/-! ## One arrival -/

section
variable {token : Token} {stack out rest : List Token} (hs : ∀ t ∈ stack, t.Waits)
include hs

theorem carries_number (hk : token.kind = .number) : Carries [token] stack [token] stack := by
  have hkept : unbracketed ([token] ++ stack) = [token] ++ unbracketed stack := unbracketed_cons (by simp [hk]) stack
  exact ⟨hs, by rw [hkept], rfl⟩

/-- What is only put on the stack. -/
theorem carries_put (ht : token.Waits) : Carries [token] stack [] (token :: stack) :=
  ⟨List.forall_mem_cons.mpr ⟨ht, hs⟩, List.Perm.refl _, (numbers_singleton ht.kind).symm⟩

theorem carries_operator (ht : token.Proper) (hk : token.kind = .operator)
    (h : release token stack = ⟨out, .ok rest⟩) : Carries [token] stack out rest := by
  have hplain : token.kind ≠ .parenthesis := by simp [hk]
  obtain ⟨above, below, hu, rfl, habove⟩ := unwind_of_waits hk ht hs
  obtain ⟨hsabove, hsbelow⟩ := List.forall_mem_append.mp hs
  rw [release_operator _ hk hu] at h
  cases h
  refine ⟨List.forall_mem_cons.mpr ⟨ht.waits (by simp [hk]) hplain, hsbelow⟩, ?_, ?_⟩
  · rw [unbracketed_cons hplain, List.singleton_append, unbracketed_cons hplain, unbracketed_append,
      unbracketed_of_waits hsabove habove]
    exact List.perm_middle
  · rw [numbers_of_waits hsabove, numbers_singleton (by simp [hk])]

/-- The opening parenthesis goes with the closing one, and all that leaves stood on the stack. -/
theorem carries_close (hk : token.kind = .parenthesis) (h : close stack = ⟨out, .ok rest⟩) :
    Carries [token] stack out rest := by
  rcases close_cases stack with ⟨-, hc⟩ | ⟨above, opening, below, rfl, habove, hopen, hc⟩
  · rw [hc] at h
    cases h
  · obtain ⟨hsabove, hsrest⟩ := List.forall_mem_append.mp hs
    obtain ⟨hsopening, hsbelow⟩ := List.forall_mem_cons.mp hsrest
    have hopening : opening.kind = .parenthesis := by
      rw [opens_eq_isOpening hsopening.kind hsopening.proper] at hopen
      simp only [Token.isOpening, Bool.and_eq_true, decide_eq_true_eq] at hopen
      exact hopen.1
    have hstack : unbracketed ([token] ++ (above ++ opening :: below)) = above ++ unbracketed below := by
      rw [List.singleton_append, unbracketed_cons_parenthesis hk, unbracketed_append,
        unbracketed_cons_parenthesis hopening, unbracketed_of_waits hsabove habove]
    have hnumbers : numbers [token] = [] := numbers_singleton (by simp [hk])
    rw [hc, Release.mk_andThen] at h
    rcases called_cases below with hc | ⟨f, last, rfl, hf, hc⟩
    · rw [hc, List.append_nil] at h
      cases h
      exact ⟨hsbelow, by rw [hstack], by rw [numbers_of_waits hsabove, hnumbers]⟩
    · rw [hc] at h
      cases h
      obtain ⟨hsf, hslast⟩ := List.forall_mem_cons.mp hsbelow
      refine ⟨hslast, ?_, ?_⟩
      · rw [hstack, unbracketed_cons (by simp [hf]), List.append_assoc, List.singleton_append]
      · rw [numbers_append, numbers_of_waits hsabove, numbers_singleton hsf.kind, hnumbers]
        rfl

theorem carries_release (ht : token.Proper) (h : release token stack = ⟨out, .ok rest⟩) :
    Carries [token] stack out rest := by
  cases hk : token.kind with
  | number =>
    rw [release_number stack hk] at h
    cases h
    exact carries_number hs hk
  | identifier =>
    rw [release_identifier stack hk] at h
    cases h
    exact carries_put hs (ht.waits (by simp [hk]) (by simp [hk]))
  | operator => exact carries_operator hs ht hk h
  | parenthesis =>
    by_cases ho : token.opens = true
    · rw [release_opening stack hk ho] at h
      cases h
      have htext : token.text = ['('] := by simpa [Token.opens] using ho
      exact carries_put hs ⟨by simp [hk], ht, by simp [Token.isClosing, htext]⟩
    · rw [release_closing stack hk (Bool.eq_false_iff.mpr ho)] at h
      exact carries_close hs hk h

end

/-! ## A whole conversion -/

theorem Carries.trans {tokens more stack middle rest out back : List Token} (h : Carries tokens stack out middle)
    (h' : Carries more middle back rest) : Carries (tokens ++ more) stack (out ++ back) rest := by
  refine ⟨h'.waits, ?_, by rw [numbers_append, numbers_append, h.inOrder, h'.inOrder]⟩
  calc out ++ back ++ unbracketed rest
      = out ++ (back ++ unbracketed rest) := List.append_assoc ..
    List.Perm _ (out ++ unbracketed (more ++ middle)) := h'.kept.append_left out
    List.Perm _ (unbracketed more ++ (out ++ unbracketed middle)) := by
      rw [unbracketed_append]
      exact List.perm_append_comm_assoc ..
    List.Perm _ (unbracketed more ++ unbracketed (tokens ++ stack)) := h.kept.append_left _
    List.Perm _ (unbracketed (tokens ++ more ++ stack)) := by
      rw [unbracketed_append, List.append_assoc, unbracketed_append, unbracketed_append]
      exact List.perm_append_comm_assoc ..

theorem carries_arrive {tokens : List Token} (ht : ∀ t ∈ tokens, t.Proper) :
    ∀ {stack out rest : List Token}, (∀ t ∈ stack, t.Waits) → arrive tokens stack = ⟨out, .ok rest⟩ →
      Carries tokens stack out rest := by
  induction tokens with
  | nil =>
    intro stack out rest hs h
    cases h
    exact ⟨hs, List.Perm.refl _, rfl⟩
  | cons token tokens ih =>
    intro stack out rest hs h
    obtain ⟨htoken, htokens⟩ := List.forall_mem_cons.mp ht
    obtain ⟨front, middle, back, hr, hn, rfl⟩ := Release.andThen_eq_ok h
    have hfirst := carries_release hs htoken hr
    exact hfirst.trans (ih htokens hfirst.waits hn)

/-- The flush lets the whole stack leave. -/
theorem carries_passage {tokens out : List Token} (ht : ∀ t ∈ tokens, t.Proper)
    (h : passage tokens [] = ⟨out, .ok []⟩) : Carries tokens [] out [] := by
  obtain ⟨front, waiting, ha, hopens, rfl, -⟩ := passage_eq_ok h
  have hfront := carries_arrive ht (by simp) ha
  have hback : Carries [] waiting waiting [] := by
    refine ⟨by simp, ?_, numbers_of_waits hfront.waits⟩
    rw [List.nil_append, unbracketed_of_waits hfront.waits hopens]
    simp [unbracketed]
  simpa using hfront.trans hback

/-- A conversion of proper tokens fails where their parentheses do not balance, and nowhere else. Otherwise
all other tokens leave, each once, and the numbers among them in their order. -/
theorem ofTokens_conserves {tokens : List Token} (ht : ∀ t ∈ tokens, t.Proper) :
    (ofTokens tokens = .error .mismatched ↔ ¬ Balanced tokens) ∧
    (∀ fault, ofTokens tokens = .error fault → fault = .mismatched) ∧
    (Balanced tokens → ∃ out, ofTokens tokens = .ok out ∧ out.Perm (unbracketed tokens) ∧
      numbers out = numbers tokens) := by
  refine ⟨?_, fun fault h => ((ofTokens_eq_error_iff ht).mp h).1, fun hb => ?_⟩
  · rw [ofTokens_eq_error_iff ht]
    simp
  · cases h : ofTokens tokens with
    | error fault => exact absurd hb ((ofTokens_eq_error_iff ht).mp h).2
    | ok out =>
      have hall := carries_passage ht (ofTokens_eq_ok_iff.mp h)
      exact ⟨out, rfl, by simpa [unbracketed] using hall.kept, hall.inOrder⟩

/-- Operators without operands, a function behind its argument and an empty group, which no grammar derives. -/
def jumble : List Token :=
  [⟨.operator, "*".toList, 0⟩, ⟨.number, "3".toList, 1⟩, ⟨.parenthesis, "(".toList, 2⟩,
    ⟨.identifier, "sin".toList, 3⟩, ⟨.operator, "-".toList, 6⟩, ⟨.number, "2".toList, 7⟩,
    ⟨.parenthesis, "(".toList, 8⟩, ⟨.parenthesis, ")".toList, 9⟩, ⟨.parenthesis, ")".toList, 10⟩,
    ⟨.number, "5".toList, 11⟩, ⟨.identifier, "neg".toList, 12⟩]

/-- As many closing parentheses as opening ones, but the first of them comes too early. -/
def crossed : List Token :=
  [⟨.number, "1".toList, 0⟩, ⟨.parenthesis, ")".toList, 1⟩, ⟨.parenthesis, "(".toList, 2⟩]

theorem ofTokens_conserves_jumble :
    (∀ t ∈ jumble, t.Proper) ∧ (∀ t ∈ crossed, t.Proper) ∧ ofTokens crossed = .error .mismatched ∧
      ∃ out, ofTokens jumble = .ok out ∧ out.Perm (unbracketed jumble) ∧ out.length = 7 ∧
        (numbers out).map Token.text = ["3".toList, "2".toList, "5".toList] := by
  have hscan : scan .infixed "*3(sin-2())5neg".toList = .ok jumble := by decide +kernel
  have hscan' : scan .infixed "1)(".toList = .ok crossed := by decide +kernel
  have hp := proper_of_scan hscan
  have hp' := proper_of_scan hscan'
  obtain ⟨out, hout, hperm, hnumbers⟩ := (ofTokens_conserves hp).2.2 (by decide)
  refine ⟨hp, hp', (ofTokens_conserves hp').1.mpr (by decide), out, hout, hperm, ?_, ?_⟩
  · rw [hperm.length_eq]
    decide
  · rw [hnumbers]
    decide

end Rpn

end Reckoner
