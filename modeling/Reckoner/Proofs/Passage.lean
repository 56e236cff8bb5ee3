import Mathlib.Data.List.Basic
import Mathlib.Data.List.TakeWhile
import Reckoner.Proofs.Results
import Reckoner.Rpn

/-!
# The passage of tokens

What leaves when a whole list of tokens arrives on a stack does not depend on who
takes it: every conversion feeds the same passage to its own taker. A passage is
made of the arrivals one after another, and of the flush at the end.
-/

namespace Reckoner.Rpn

/-! ## Releases in a row -/

/-- Goes on with the stack that stays, unless a fault ended the release. -/
def Release.andThen (r : Release) (next : List Token → Release) : Release :=
  match r.rest with
  | .error fault => ⟨r.out, .error fault⟩
  | .ok stack => ⟨r.out ++ (next stack).out, (next stack).rest⟩

namespace Release

variable {σ : Type}

theorem andThen_error {r : Release} {fault : Fault} (h : r.rest = .error fault) (next : List Token → Release) :
    r.andThen next = r := by
  obtain ⟨out, rest⟩ := r
  subst h
  rfl

theorem andThen_ok {r : Release} {stack : List Token} (h : r.rest = .ok stack) (next : List Token → Release) :
    r.andThen next = ⟨r.out ++ (next stack).out, (next stack).rest⟩ := by
  unfold andThen
  rw [h]

theorem mk_andThen (out stack : List Token) (next : List Token → Release) :
    (⟨out, .ok stack⟩ : Release).andThen next = ⟨out ++ (next stack).out, (next stack).rest⟩ := rfl

theorem andThen_eq_ok {r : Release} {next : List Token → Release} {out last : List Token}
    (h : r.andThen next = ⟨out, .ok last⟩) :
    ∃ front stack back, r = ⟨front, .ok stack⟩ ∧ next stack = ⟨back, .ok last⟩ ∧ out = front ++ back := by
  obtain ⟨front, rest⟩ := r
  cases rest with
  | error fault => simp [andThen] at h
  | ok stack =>
    cases hn : next stack with
    | mk back rest =>
      simp only [mk_andThen, hn, mk.injEq] at h
      obtain ⟨rfl, rfl⟩ := h
      exact ⟨front, stack, back, rfl, hn, rfl⟩

theorem andThen_assoc (r : Release) (f g : List Token → Release) :
    (r.andThen f).andThen g = r.andThen fun stack => (f stack).andThen g := by
  cases h : r.rest with
  | error fault => rw [andThen_error h, andThen_error h, andThen_error h]
  | ok stack =>
    rw [andThen_ok h, andThen_ok h]
    cases hf : (f stack).rest with
    | error fault =>
      rw [andThen_error hf, hf]
      rfl
    | ok stack' =>
      rw [andThen_ok hf, mk_andThen, List.append_assoc]

theorem feed_andThen (take : σ → Token → Except Fault σ) (r : Release) (next : List Token → Release) (acc : σ) :
    (r.andThen next).feed take acc = r.feed take acc >>= fun p => (next p.2).feed take p.1 := by
  unfold feed
  cases h : r.rest with
  | error fault =>
    rw [andThen_error h, h]
    cases r.out.foldlM take acc <;> rfl
  | ok stack =>
    rw [andThen_ok h, List.foldlM_append]
    cases r.out.foldlM take acc <;> rfl

end Release

/-! ## Arrivals -/

section
variable {token : Token} (stack : List Token)

theorem release_number (h : token.kind = .number) : release token stack = ⟨[token], .ok stack⟩ := by
  unfold release
  rw [h]

theorem release_identifier (h : token.kind = .identifier) : release token stack = ⟨[], .ok (token :: stack)⟩ := by
  unfold release
  rw [h]

theorem release_operator (h : token.kind = .operator) {out rest : List Token}
    (hu : unwind token stack = ⟨out, .ok rest⟩) : release token stack = ⟨out, .ok (token :: rest)⟩ := by
  unfold release
  rw [h, hu]
  rfl

theorem release_opening (h : token.kind = .parenthesis) (ho : token.opens = true) :
    release token stack = ⟨[], .ok (token :: stack)⟩ := by
  unfold release
  rw [h]
  exact if_pos ho

theorem release_closing (h : token.kind = .parenthesis) (ho : token.opens = false) :
    release token stack = close stack := by
  unfold release
  rw [h]
  exact if_neg (by rw [ho]; exact Bool.false_ne_true)

end

/-- All that leaves while tokens arrive, without the flush at the end. -/
def arrive : List Token → List Token → Release
  | [], stack => ⟨[], .ok stack⟩
  | token :: tokens, stack => (release token stack).andThen (arrive tokens)

/-- All that leaves until the stack is empty. -/
def passage (tokens stack : List Token) : Release := (arrive tokens stack).andThen flush

theorem arrive_nil (stack : List Token) : arrive [] stack = ⟨[], .ok stack⟩ := rfl

theorem arrive_cons (token : Token) (tokens stack : List Token) :
    arrive (token :: tokens) stack = (release token stack).andThen (arrive tokens) := rfl

theorem arrive_singleton (token : Token) (stack : List Token) : arrive [token] stack = release token stack := by
  rw [arrive_cons]
  cases h : (release token stack).rest with
  | error fault => exact Release.andThen_error h _
  | ok rest => rw [Release.andThen_ok h, arrive_nil, List.append_nil, ← h]

theorem arrive_append (tokens more stack : List Token) :
    arrive (tokens ++ more) stack = (arrive tokens stack).andThen (arrive more) := by
  induction tokens generalizing stack with
  | nil => rfl
  | cons token tokens ih =>
    rw [List.cons_append, arrive_cons, arrive_cons, Release.andThen_assoc]
    congr 1
    funext rest
    exact ih rest

/-- What every arrival keeps, all arrivals together keep. -/
theorem arrive_keeps {p : List Token → Prop} {tokens : List Token}
    (hstep : ∀ token ∈ tokens, ∀ {stack out rest : List Token}, p stack →
      release token stack = ⟨out, .ok rest⟩ → p rest) :
    ∀ {stack out rest : List Token}, p stack → arrive tokens stack = ⟨out, .ok rest⟩ → p rest := by
  induction tokens with
  | nil =>
    intro stack out rest hs h
    cases h
    exact hs
  | cons token tokens ih =>
    intro stack out rest hs h
    obtain ⟨hfirst, hmore⟩ := List.forall_mem_cons.mp hstep
    obtain ⟨front, middle, back, hr, hn, rfl⟩ := Release.andThen_eq_ok h
    exact ih hmore (hfirst hs hr) hn

theorem passage_cons (token : Token) (tokens stack : List Token) :
    passage (token :: tokens) stack = (release token stack).andThen (passage tokens) :=
  Release.andThen_assoc _ _ _

theorem passage_append (tokens more stack : List Token) :
    passage (tokens ++ more) stack = (arrive tokens stack).andThen (passage more) := by
  rw [passage, arrive_append, Release.andThen_assoc]
  rfl

theorem flush_of_opens {stack : List Token} (h : ∀ t ∈ stack, t.opens = false) : flush stack = ⟨stack, .ok []⟩ := by
  have hany : stack.any Token.opens = false := by simpa using h
  have htake : stack.takeWhile (!·.opens) = stack := List.takeWhile_eq_self_iff.mpr (by simpa using h)
  simp [flush, hany, htake]

theorem flush_eq_ok {stack out last : List Token} (h : flush stack = ⟨out, .ok last⟩) :
    (∀ t ∈ stack, t.opens = false) ∧ out = stack ∧ last = [] := by
  by_cases hany : stack.any Token.opens = true
  · simp [flush, hany] at h
  · have hopens : ∀ t ∈ stack, t.opens = false := by simpa using hany
    rw [flush_of_opens hopens] at h
    cases h
    exact ⟨hopens, rfl, rfl⟩

/-- What leaves last has waited above no parenthesis. -/
theorem passage_eq_ok {tokens stack out last : List Token} (h : passage tokens stack = ⟨out, .ok last⟩) :
    ∃ front waiting, arrive tokens stack = ⟨front, .ok waiting⟩ ∧ (∀ t ∈ waiting, t.opens = false) ∧
      out = front ++ waiting ∧ last = [] := by
  obtain ⟨front, waiting, back, ha, hf, rfl⟩ := Release.andThen_eq_ok h
  obtain ⟨hopens, rfl, rfl⟩ := flush_eq_ok hf
  exact ⟨front, back, ha, hopens, rfl, rfl⟩

theorem convertFrom_eq {σ : Type} (take : σ → Token → Except Fault σ) (tokens stack : List Token) (acc : σ) :
    convertFrom take tokens stack acc = ((passage tokens stack).feed take acc).map Prod.fst := by
  induction tokens generalizing stack acc with
  | nil => rfl
  | cons token tokens ih =>
    rw [convertFrom, passage_cons, Release.feed_andThen, map_bind]
    congr 1
    funext p
    exact ih p.2 p.1

/-- Behind its first tokens a conversion goes on with what has been taken and with the stack that stays. -/
theorem convertFrom_append {σ : Type} (take : σ → Token → Except Fault σ) {front out stack rest : List Token}
    (h : arrive front stack = ⟨out, .ok rest⟩) (back : List Token) (acc : σ) :
    convertFrom take (front ++ back) stack acc = out.foldlM take acc >>= convertFrom take back rest := by
  rw [convertFrom_eq, passage_append, h, Release.feed_andThen, map_bind]
  unfold Release.feed
  cases hfold : out.foldlM take acc with
  | error fault => rfl
  | ok acc' => exact (convertFrom_eq take back rest acc').symm

theorem foldlM_keep (tokens out : List Token) :
    tokens.foldlM (fun out t => (.ok (t :: out) : Except Fault (List Token))) out =
      .ok (tokens.reverse ++ out) := by
  induction tokens generalizing out with
  | nil => rfl
  | cons t tokens ih => simp [ih]

/-- The tokens in reverse Polish order are those of the passage, in the order in which they leave. -/
theorem ofTokens_eq (tokens : List Token) :
    ofTokens tokens = (passage tokens []).rest.map fun _ => (passage tokens []).out := by
  rw [ofTokens, convert, convertFrom_eq, Release.feed, foldlM_keep]
  cases (passage tokens []).rest <;> simp

theorem ofTokens_eq_ok_iff {tokens out : List Token} :
    ofTokens tokens = .ok out ↔ passage tokens [] = ⟨out, .ok []⟩ := by
  rw [ofTokens_eq]
  cases h : passage tokens [] with
  | mk out' rest =>
    cases rest with
    | error fault => simp
    | ok last =>
      obtain ⟨-, -, -, -, -, rfl⟩ := passage_eq_ok h
      simp

theorem ofTokens_eq_error {tokens : List Token} {fault : Fault} (h : (passage tokens []).rest = .error fault) :
    ofTokens tokens = .error fault := by
  rw [ofTokens_eq, h, map_error]

/-! ## Nothing comes from elsewhere -/

/-- What leaves and what stays has a property. -/
structure Release.All (p : Token → Prop) (r : Release) : Prop where
  out : ∀ t ∈ r.out, p t
  rest : ∀ stack, r.rest = .ok stack → ∀ t ∈ stack, p t

section
variable {p : Token → Prop}

theorem all_ok {out stack : List Token} (ho : ∀ t ∈ out, p t) (hs : ∀ t ∈ stack, p t) :
    Release.All p ⟨out, .ok stack⟩ := by
  refine ⟨ho, ?_⟩
  intro s h
  cases h
  exact hs

theorem all_error {out : List Token} (ho : ∀ t ∈ out, p t) (fault : Fault) : Release.All p ⟨out, .error fault⟩ := by
  refine ⟨ho, ?_⟩
  intro s h
  cases h

theorem all_andThen {r : Release} (hr : r.All p) {next : List Token → Release}
    (hn : ∀ stack, (∀ t ∈ stack, p t) → (next stack).All p) : (r.andThen next).All p := by
  cases h : r.rest with
  | error fault =>
    rw [Release.andThen_error h]
    exact hr
  | ok stack =>
    have hnext := hn stack (hr.rest stack h)
    rw [Release.andThen_ok h]
    exact ⟨List.forall_mem_append.mpr ⟨hr.out, hnext.out⟩, hnext.rest⟩

theorem all_unwind (incoming : Token) {stack : List Token} (hs : ∀ t ∈ stack, p t) :
    (unwind incoming stack).All p := by
  induction stack with
  | nil => exact all_ok hs hs
  | cons top below ih =>
    obtain ⟨htop, hbelow⟩ := List.forall_mem_cons.mp hs
    unfold unwind
    cases leavesBefore top incoming with
    | error fault => exact all_error (by simp) fault
    | ok leaves =>
      cases leaves with
      | false => exact all_ok (by simp) hs
      | true => exact ⟨List.forall_mem_cons.mpr ⟨htop, (ih hbelow).out⟩, (ih hbelow).rest⟩

theorem all_close {stack : List Token} (hs : ∀ t ∈ stack, p t) : (close stack).All p := by
  have hout : ∀ t ∈ stack.takeWhile (!·.opens), p t := fun t ht => hs t ((List.takeWhile_prefix _).subset ht)
  have hrest : ∀ t ∈ stack.dropWhile (!·.opens), p t := fun t ht => hs t ((List.dropWhile_suffix _).subset ht)
  unfold close
  cases hd : stack.dropWhile (!·.opens) with
  | nil => exact all_error hout _
  | cons opening below =>
    rw [hd] at hrest
    obtain ⟨-, hbelow⟩ := List.forall_mem_cons.mp hrest
    cases below with
    | nil => exact all_ok hout hbelow
    | cons next below =>
      obtain ⟨hnext, hstay⟩ := List.forall_mem_cons.mp hbelow
      dsimp only
      split
      · refine all_ok (List.forall_mem_append.mpr ⟨hout, ?_⟩) hstay
        rw [List.forall_mem_singleton]
        exact hnext
      · exact all_ok hout hbelow

theorem all_release {token : Token} (ht : p token) {stack : List Token} (hs : ∀ t ∈ stack, p t) :
    (release token stack).All p := by
  have hcons : ∀ t ∈ token :: stack, p t := List.forall_mem_cons.mpr ⟨ht, hs⟩
  unfold release
  cases token.kind with
  | number => exact all_ok (List.forall_mem_singleton.mpr ht) hs
  | identifier => exact all_ok (by simp) hcons
  | operator =>
    have hu := all_unwind token hs
    refine ⟨hu.out, ?_⟩
    intro s h
    obtain ⟨rest, hr, rfl⟩ := map_eq_ok_iff.mp h
    exact List.forall_mem_cons.mpr ⟨ht, hu.rest rest hr⟩
  | parenthesis =>
    dsimp only
    split
    · exact all_ok (by simp) hcons
    · exact all_close hs

theorem all_flush {stack : List Token} (hs : ∀ t ∈ stack, p t) : (flush stack).All p := by
  have hout : ∀ t ∈ stack.takeWhile (!·.opens), p t := fun t ht => hs t ((List.takeWhile_prefix _).subset ht)
  unfold flush
  split
  · exact all_error hout _
  · exact all_ok hout (by simp)

theorem all_passage {tokens : List Token} (ht : ∀ t ∈ tokens, p t) :
    ∀ {stack : List Token}, (∀ t ∈ stack, p t) → (passage tokens stack).All p := by
  induction tokens with
  | nil =>
    intro stack hs
    exact all_flush hs
  | cons token tokens ih =>
    intro stack hs
    obtain ⟨htoken, htokens⟩ := List.forall_mem_cons.mp ht
    rw [passage_cons]
    exact all_andThen (all_release htoken hs) fun stack hs => ih htokens hs

end

theorem mem_of_passage {tokens : List Token} : ∀ t ∈ (passage tokens []).out, t ∈ tokens := by
  have hall : (passage tokens []).All (· ∈ tokens) := all_passage (fun t ht => ht) (by simp)
  exact hall.out

theorem mem_of_ofTokens {tokens out : List Token} (h : ofTokens tokens = .ok out) : ∀ t ∈ out, t ∈ tokens := by
  rw [ofTokens_eq] at h
  obtain ⟨_, _, rfl⟩ := map_eq_ok_iff.mp h
  exact mem_of_passage

end Reckoner.Rpn
