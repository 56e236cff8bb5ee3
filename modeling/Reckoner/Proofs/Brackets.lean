import Mathlib.Data.List.Basic
import Mathlib.Data.List.Infix
import Reckoner.Evaluate
import Reckoner.Proofs.Lexical
import Reckoner.Proofs.Passage

/-!
# Parentheses in a conversion

The stack holds one opening parenthesis for each that is open. So a conversion of
proper tokens fails where the parentheses do not balance, and nowhere else.
-/

namespace Reckoner

/-! ## Balance -/

def Token.isOpening (t : Token) : Bool := t.kind = .parenthesis && t.text == ['(']

def Token.isClosing (t : Token) : Bool := t.kind = .parenthesis && t.text == [')']

def openings (tokens : List Token) : Nat := tokens.countP Token.isOpening

def closings (tokens : List Token) : Nat := tokens.countP Token.isClosing

/-- No closing parenthesis comes before its opening one, and each has one. -/
structure Balanced (tokens : List Token) : Prop where
  ordered : ∀ front, front <+: tokens → closings front ≤ openings front
  paired : closings tokens = openings tokens

instance (tokens : List Token) : Decidable (Balanced tokens) :=
  decidable_of_iff ((∀ front ∈ tokens.inits, closings front ≤ openings front) ∧ closings tokens = openings tokens)
    ⟨fun h => ⟨fun front hf => h.1 front ((List.mem_inits front tokens).mpr hf), h.2⟩,
      fun h => ⟨fun front hf => h.ordered front ((List.mem_inits front tokens).mp hf), h.paired⟩⟩

theorem openings_cons (t : Token) (tokens : List Token) :
    openings (t :: tokens) = openings [t] + openings tokens := by
  unfold openings
  rw [← List.countP_append, List.singleton_append]

theorem closings_cons (t : Token) (tokens : List Token) :
    closings (t :: tokens) = closings [t] + closings tokens := by
  unfold closings
  rw [← List.countP_append, List.singleton_append]

theorem openings_append (tokens more : List Token) :
    openings (tokens ++ more) = openings tokens + openings more := List.countP_append

theorem closings_append (tokens more : List Token) :
    closings (tokens ++ more) = closings tokens + closings more := List.countP_append

/-! ## Proper tokens -/

/-- A token whose text belongs to its kind, where numbers may have any text. -/
def Token.Proper (t : Token) : Prop := t.kind ≠ .number → t.kind.Language t.text

/-- What can stand on the stack. -/
structure Token.Waits (t : Token) : Prop where
  kind : t.kind ≠ .number
  proper : t.Proper
  opening : t.isClosing = false

theorem Token.Lexical.proper {t : Token} (h : t.Lexical) : t.Proper := fun _ => h

theorem proper_of_scan {order : Order} {e : Text} {tokens : List Token} (h : scan order e = .ok tokens) :
    ∀ t ∈ tokens, t.Proper :=
  fun t ht => (lexical_of_scan h t ht).proper

theorem opens_eq_isOpening {t : Token} (hk : t.kind ≠ .number) (ht : t.Proper) : t.opens = t.isOpening := by
  have hl := ht hk
  unfold Token.opens Token.isOpening
  cases h : t.kind with
  | number => exact absurd h hk
  | identifier =>
    rw [h] at hl
    have hne : t.text ≠ ['('] := by
      intro he
      exact absurd (hl.2 '(' (by rw [he]; exact List.mem_cons_self)) (by decide)
    simp [hne]
  | operator =>
    rw [h] at hl
    obtain ⟨o, ho⟩ := hl
    rw [ho]
    cases o <;> rfl
  | parenthesis => simp

theorem openings_of_kind {t : Token} (h : t.kind ≠ .parenthesis) : openings [t] = 0 := by
  simp [openings, Token.isOpening, h]

theorem closings_of_kind {t : Token} (h : t.kind ≠ .parenthesis) : closings [t] = 0 := by
  simp [closings, Token.isClosing, h]

theorem Token.Proper.waits {t : Token} (h : t.Proper) (hn : t.kind ≠ .number) (hp : t.kind ≠ .parenthesis) :
    t.Waits :=
  ⟨hn, h, by simp [Token.isClosing, hp]⟩

theorem Token.Waits.kind_ne_parenthesis {t : Token} (h : t.Waits) (ho : t.opens = false) :
    t.kind ≠ .parenthesis := by
  intro hk
  have hl := h.proper h.kind
  have hclosing := h.opening
  rw [hk] at hl
  rcases hl with he | he
  · simp [Token.opens, he] at ho
  · simp [Token.isClosing, hk, he] at hclosing

/-- Opening parentheses stand only where the stack says so. -/
theorem openings_eq_zero_iff {stack : List Token} (hs : ∀ t ∈ stack, t.Waits) :
    openings stack = 0 ↔ ∀ t ∈ stack, t.opens = false := by
  unfold openings
  rw [List.countP_eq_zero]
  constructor
  · intro h t ht
    rw [opens_eq_isOpening (hs t ht).kind (hs t ht).proper]
    exact Bool.eq_false_iff.mpr (h t ht)
  · intro h t ht
    rw [← opens_eq_isOpening (hs t ht).kind (hs t ht).proper, h t ht]
    exact Bool.false_ne_true

namespace Rpn

/-! ## One arrival -/

theorem leavesBefore_of_waits {top incoming : Token} (ht : top.Waits) (hi : incoming.kind = .operator)
    (hp : incoming.Proper) :
    ∃ b, leavesBefore top incoming = .ok b ∧ (b = true → top.opens = false) := by
  unfold leavesBefore
  by_cases ho : top.opens = true
  · exact ⟨false, if_pos ho, fun h => absurd h Bool.false_ne_true⟩
  · rw [if_neg ho]
    have ho' : top.opens = false := Bool.eq_false_iff.mpr ho
    by_cases hid : top.kind = .identifier
    · exact ⟨true, if_pos hid, fun _ => ho'⟩
    · rw [if_neg hid]
      have hop : top.kind = .operator := by
        cases h : top.kind with
        | number => exact absurd h ht.kind
        | identifier => exact absurd h hid
        | operator => rfl
        | parenthesis => exact absurd h (ht.kind_ne_parenthesis ho')
      have hlt := ht.proper ht.kind
      have hli := hp (by rw [hi]; decide)
      rw [hop] at hlt
      rw [hi] at hli
      obtain ⟨p, hp⟩ := hlt
      obtain ⟨o, ho⟩ := hli
      simp only [precedence, grouping, hp, ho, Operator.ofText?_symbol, ok_bind]
      split
      · exact ⟨true, rfl, fun _ => ho'⟩
      · split
        · exact ⟨_, rfl, fun _ => ho'⟩
        · exact ⟨false, rfl, fun h => absurd h Bool.false_ne_true⟩

theorem unwind_of_waits {incoming : Token} (hi : incoming.kind = .operator) (hp : incoming.Proper)
    {stack : List Token} (hs : ∀ t ∈ stack, t.Waits) :
    ∃ out rest, unwind incoming stack = ⟨out, .ok rest⟩ ∧ stack = out ++ rest ∧
      ∀ t ∈ out, t.opens = false := by
  induction stack with
  | nil => exact ⟨[], [], rfl, rfl, fun t ht => by cases ht⟩
  | cons top below ih =>
    obtain ⟨b, hb, htop⟩ := leavesBefore_of_waits (hs top List.mem_cons_self) hi hp
    obtain ⟨out, rest, hu, hsplit, hout⟩ := ih fun t ht => hs t (List.mem_cons_of_mem _ ht)
    unfold unwind
    rw [hb]
    cases b with
    | false => exact ⟨[], top :: below, rfl, rfl, fun t ht => by cases ht⟩
    | true =>
      refine ⟨top :: out, rest, by rw [hu], by rw [hsplit, List.cons_append], ?_⟩
      intro t ht
      rcases List.mem_cons.mp ht with rfl | ht
      · exact htop rfl
      · exact hout t ht

/-- Lets the function on top leave, if there is one: what a group that is closed does to the stack below it. -/
def called : List Token → Release
  | [] => ⟨[], .ok []⟩
  | next :: below => if next.kind = .identifier then ⟨[next], .ok below⟩ else ⟨[], .ok (next :: below)⟩

theorem called_cases (stack : List Token) :
    called stack = ⟨[], .ok stack⟩ ∨
      ∃ f below, stack = f :: below ∧ f.kind = .identifier ∧ called stack = ⟨[f], .ok below⟩ := by
  cases stack with
  | nil => exact Or.inl rfl
  | cons f below =>
    by_cases hf : f.kind = .identifier
    · exact Or.inr ⟨f, below, rfl, hf, if_pos hf⟩
    · exact Or.inl (if_neg hf)

theorem called_of_not_identifier {stack : List Token} (h : ∀ top ∈ stack.head?, top.kind ≠ .identifier) :
    called stack = ⟨[], .ok stack⟩ := by
  rcases called_cases stack with hc | ⟨f, below, rfl, hf, -⟩
  · exact hc
  · exact absurd hf (h f rfl)

theorem close_append {above : List Token} {opening : Token} (ha : ∀ t ∈ above, t.opens = false)
    (ho : opening.opens = true) (stack : List Token) :
    close (above ++ opening :: stack) = Release.andThen ⟨above, .ok stack⟩ called := by
  obtain ⟨htake, hdrop⟩ := takeWhile_append_stop (p := fun t : Token => !t.opens) (u := above)
    (r := opening :: stack) (fun t ht => by simp [ha t ht]) (by simp [ho])
  unfold close
  rw [htake, hdrop, Release.mk_andThen]
  cases stack with
  | nil => simp [called]
  | cons f below => by_cases hf : f.kind = .identifier <;> simp [called, hf]

/-- A closing parenthesis meets the last opening one, or there is none. -/
theorem close_cases (stack : List Token) :
    ((∀ t ∈ stack, t.opens = false) ∧ close stack = ⟨stack, .error .mismatched⟩) ∨
    ∃ above opening below, stack = above ++ opening :: below ∧ (∀ t ∈ above, t.opens = false) ∧
      opening.opens = true ∧ close stack = Release.andThen ⟨above, .ok below⟩ called := by
  have hsplit : stack.takeWhile (!·.opens) ++ stack.dropWhile (!·.opens) = stack :=
    List.takeWhile_append_dropWhile
  have habove : ∀ t ∈ stack.takeWhile (!·.opens), t.opens = false := by
    intro t ht
    have := List.mem_takeWhile_imp ht
    simpa using this
  cases hd : stack.dropWhile (!·.opens) with
  | nil =>
    unfold close
    rw [hd, List.append_nil] at hsplit
    rw [hd, hsplit]
    rw [hsplit] at habove
    exact Or.inl ⟨habove, rfl⟩
  | cons opening below =>
    have hopen : opening.opens = true := by
      have := List.head_dropWhile_not (fun t : Token => !t.opens) (l := stack) (by rw [hd]; simp)
      simpa [hd] using this
    rw [hd] at hsplit
    have hclose := close_append habove hopen below
    rw [hsplit] at hclose
    exact Or.inr ⟨_, opening, below, hsplit.symm, habove, hopen, hclose⟩

theorem close_of_waits {stack : List Token} (hs : ∀ t ∈ stack, t.Waits) :
    (∃ rest, (close stack).rest = .ok rest ∧ (∀ t ∈ rest, t.Waits) ∧ openings rest + 1 = openings stack) ∨
    (openings stack = 0 ∧ (close stack).rest = .error .mismatched) := by
  rcases close_cases stack with ⟨hall, hclose⟩ | ⟨above, opening, below, rfl, habove, hopen, hclose⟩
  · exact Or.inr ⟨(openings_eq_zero_iff hs).mpr hall, by rw [hclose]⟩
  · obtain ⟨hsabove, hsrest⟩ := List.forall_mem_append.mp hs
    obtain ⟨hsopening, hsbelow⟩ := List.forall_mem_cons.mp hsrest
    have hzero : openings above = 0 := (openings_eq_zero_iff hsabove).mpr habove
    have hone : openings [opening] = 1 := by
      rw [opens_eq_isOpening hsopening.kind hsopening.proper] at hopen
      simp [openings, hopen]
    have hstack : openings (above ++ opening :: below) = 1 + openings below := by
      rw [openings_append, hzero, openings_cons, hone]
      omega
    rw [hclose, Release.mk_andThen]
    rcases called_cases below with hc | ⟨f, rest, rfl, hf, hc⟩
    · exact Or.inl ⟨below, by rw [hc], hsbelow, by omega⟩
    · have hfunction : openings [f] = 0 := openings_of_kind (by simp [hf])
      have hrest := openings_cons f rest
      exact Or.inl ⟨rest, by rw [hc], (List.forall_mem_cons.mp hsbelow).2, by omega⟩

/-- One case for each kind: what stays on the stack waits there, and the depth changes with
the parenthesis that arrives, if any. -/
theorem release_of_waits {token : Token} (ht : token.Proper) {stack : List Token} (hs : ∀ t ∈ stack, t.Waits) :
    (∃ rest, (release token stack).rest = .ok rest ∧ (∀ t ∈ rest, t.Waits) ∧
      openings rest + closings [token] = openings stack + openings [token]) ∨
    (closings [token] = 1 ∧ openings [token] = 0 ∧ openings stack = 0 ∧
      (release token stack).rest = .error .mismatched) := by
  unfold release
  cases hk : token.kind with
  | number =>
    have ho : openings [token] = 0 := openings_of_kind (by simp [hk])
    have hc : closings [token] = 0 := closings_of_kind (by simp [hk])
    exact Or.inl ⟨stack, rfl, hs, by rw [ho, hc]⟩
  | identifier =>
    have hw : token.Waits := ht.waits (by simp [hk]) (by simp [hk])
    have hc : closings [token] = 0 := closings_of_kind (by simp [hk])
    refine Or.inl ⟨token :: stack, rfl, List.forall_mem_cons.mpr ⟨hw, hs⟩, ?_⟩
    rw [openings_cons, hc]
    omega
  | operator =>
    have hw : token.Waits := ht.waits (by simp [hk]) (by simp [hk])
    have hc : closings [token] = 0 := closings_of_kind (by simp [hk])
    obtain ⟨out, rest, hu, rfl, hout⟩ := unwind_of_waits hk ht hs
    obtain ⟨hsout, hsrest⟩ := List.forall_mem_append.mp hs
    have hzero : openings out = 0 := (openings_eq_zero_iff hsout).mpr hout
    refine Or.inl ⟨token :: rest, by rw [hu]; rfl, List.forall_mem_cons.mpr ⟨hw, hsrest⟩, ?_⟩
    rw [openings_append, hzero, openings_cons, hc]
    omega
  | parenthesis =>
    have hl := ht (by simp [hk])
    rw [hk] at hl
    dsimp only
    rcases hl with he | he
    · have ho : token.opens = true := by simp [Token.opens, he]
      have hc : closings [token] = 0 := by simp [closings, Token.isClosing, he]
      have hw : token.Waits := ⟨by simp [hk], ht, by simp [Token.isClosing, he]⟩
      rw [if_pos ho]
      refine Or.inl ⟨token :: stack, rfl, List.forall_mem_cons.mpr ⟨hw, hs⟩, ?_⟩
      rw [openings_cons, hc]
      omega
    · have ho : openings [token] = 0 := by simp [openings, Token.isOpening, he]
      have hc : closings [token] = 1 := by simp [closings, Token.isClosing, hk, he]
      rw [if_neg (by simp [Token.opens, he])]
      rcases close_of_waits hs with ⟨rest, hr, hrest, hdepth⟩ | ⟨hz, hr⟩
      · exact Or.inl ⟨rest, hr, hrest, by omega⟩
      · exact Or.inr ⟨hc, ho, hz, hr⟩

/-- When a group is closed, all of it that still waits leaves, and the function before it. -/
theorem arrive_group {opening closing : Token} {mid front above stack : List Token}
    (ho : opening.kind = .parenthesis ∧ opening.opens = true)
    (hc : closing.kind = .parenthesis ∧ closing.opens = false) (ha : ∀ t ∈ above, t.opens = false)
    (h : arrive mid (opening :: stack) = ⟨front, .ok (above ++ opening :: stack)⟩) :
    arrive (opening :: (mid ++ [closing])) stack = Release.andThen ⟨front ++ above, .ok stack⟩ called := by
  rw [arrive_cons, release_opening stack ho.1 ho.2, Release.mk_andThen, arrive_append, h, Release.mk_andThen,
    arrive_singleton, release_closing _ hc.1 hc.2, close_append ha ho.2, Release.mk_andThen, Release.mk_andThen,
    List.nil_append, List.append_assoc]

/-! ## A whole conversion -/

/-- The run from a stack: it goes on as long as no closing parenthesis is one too many. -/
theorem arrive_of_waits {tokens : List Token} (ht : ∀ t ∈ tokens, t.Proper) :
    ∀ {stack : List Token}, (∀ t ∈ stack, t.Waits) →
      (∃ rest, (arrive tokens stack).rest = .ok rest ∧ (∀ t ∈ rest, t.Waits) ∧
        openings rest + closings tokens = openings stack + openings tokens ∧
        ∀ front, front <+: tokens → closings front ≤ openings stack + openings front) ∨
      ((arrive tokens stack).rest = .error .mismatched ∧
        ∃ front, front <+: tokens ∧ openings stack + openings front < closings front) := by
  induction tokens with
  | nil =>
    intro stack hs
    refine Or.inl ⟨stack, rfl, hs, rfl, fun front hf => ?_⟩
    rw [List.prefix_nil.mp hf]
    exact Nat.zero_le _
  | cons token tokens ih =>
    intro stack hs
    obtain ⟨htoken, htokens⟩ := List.forall_mem_cons.mp ht
    have hoc := openings_cons token
    have hcc := closings_cons token
    rw [arrive_cons]
    rcases release_of_waits htoken hs with ⟨rest, hr, hrest, hdepth⟩ | ⟨hclose, hopen, hzero, hr⟩
    · rw [Release.andThen_ok hr]
      rcases ih htokens hrest with ⟨last, hl, hlast, heven, hfront⟩ | ⟨hl, front, hf, hlt⟩
      · refine Or.inl ⟨last, hl, hlast, ?_, ?_⟩
        · rw [hoc, hcc]
          omega
        · intro front hf
          rcases List.prefix_cons_iff.mp hf with rfl | ⟨front', rfl, hf'⟩
          · exact Nat.zero_le _
          · have := hfront front' hf'
            rw [hoc, hcc]
            omega
      · refine Or.inr ⟨hl, token :: front, List.cons_prefix_cons.mpr ⟨rfl, hf⟩, ?_⟩
        rw [hoc, hcc]
        omega
    · refine Or.inr ⟨by rw [Release.andThen_error hr, hr], [token], ⟨tokens, rfl⟩, ?_⟩
      omega

theorem flush_rest_of_waits {stack : List Token} (hs : ∀ t ∈ stack, t.Waits) :
    (flush stack).rest = if openings stack = 0 then .ok [] else .error .mismatched := by
  by_cases hz : openings stack = 0
  · rw [flush_of_opens ((openings_eq_zero_iff hs).mp hz), if_pos hz]
  · have hany : stack.any Token.opens = true := by
      rw [openings_eq_zero_iff hs] at hz
      simpa using hz
    simp [flush, hz, hany]

/-- Proper tokens have a passage exactly when their parentheses balance; else the fault is theirs. -/
theorem passage_of_proper {tokens : List Token} (ht : ∀ t ∈ tokens, t.Proper) :
    (Balanced tokens ∧ (passage tokens []).rest = .ok []) ∨
    (¬ Balanced tokens ∧ (passage tokens []).rest = .error .mismatched) := by
  have hzero : openings [] = 0 := rfl
  unfold passage
  have hnone : ∀ t ∈ ([] : List Token), t.Waits := fun t h => absurd h List.not_mem_nil
  rcases arrive_of_waits ht hnone with
    ⟨rest, hr, hrest, heven, hfront⟩ | ⟨hr, front, hf, hlt⟩
  · rw [Release.andThen_ok hr, flush_rest_of_waits hrest]
    by_cases hz : openings rest = 0
    · exact Or.inl ⟨⟨fun front hf => by have := hfront front hf; omega, by omega⟩, if_pos hz⟩
    · exact Or.inr ⟨fun hb => hz (by have := hb.paired; omega), if_neg hz⟩
  · rw [Release.andThen_error hr]
    exact Or.inr ⟨fun hb => by have := hb.ordered front hf; omega, hr⟩

theorem ofTokens_eq_error_iff {tokens : List Token} (ht : ∀ t ∈ tokens, t.Proper) {fault : Fault} :
    ofTokens tokens = .error fault ↔ fault = .mismatched ∧ ¬ Balanced tokens := by
  rw [ofTokens_eq, map_eq_error_iff]
  rcases passage_of_proper ht with ⟨hb, hr⟩ | ⟨hb, hr⟩
  · simp [hr, hb]
  · rw [hr, Except.error.injEq]
    exact ⟨fun h => ⟨h.symm, hb⟩, fun h => h.1.symm⟩

end Rpn

/-! ## Tokens of an expression -/

theorem rpnTokens_eq_error {e : Text} {fault : Fault} (h : rpnTokens e = .error fault) :
    (∃ c p, fault = .unexpected c p) ∨ fault = .mismatched := by
  rcases bind_eq_error_iff.mp h with hscan | ⟨tokens, hscan, hconvert⟩
  · exact Or.inl (scanFrom_eq_error hscan)
  · exact Or.inr ((Rpn.ofTokens_eq_error_iff (proper_of_scan hscan)).mp hconvert).1

theorem isExpression_of_rpnTokens {e : Text} {fault : Fault} (h : rpnTokens e = .error fault) :
    fault.isExpression = true := by
  rcases rpnTokens_eq_error h with ⟨c, p, rfl⟩ | rfl <;> rfl

theorem lexical_of_rpnTokens {e : Text} {out : List Token} (h : rpnTokens e = .ok out) : ∀ t ∈ out, t.Lexical := by
  obtain ⟨tokens, hscan, hconvert⟩ := bind_eq_ok_iff.mp h
  intro t ht
  have hmem := Rpn.mem_of_ofTokens hconvert t ht
  exact lexical_of_scan hscan t hmem

end Reckoner
