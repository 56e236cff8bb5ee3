import Mathlib.Data.List.Basic
import Reckoner.Evaluate
import Reckoner.Proofs.Passage

/-!
# Positions say nothing

Where a token stands in its text is kept, but neither the conversion nor the
evaluation looks at it: token lists of the same contents are converted alike and
have the same value.
-/

namespace Reckoner

/-! ## Contents -/

/-- What a token says, apart from its place. -/
def Token.content (t : Token) : Kind × Text := (t.kind, t.text)

/-- The token at the start of a text. -/
def Token.unplaced (t : Token) : Token := { t with position := 0 }

theorem unplaced_eq_of_content {a b : Token} (h : a.content = b.content) : a.unplaced = b.unplaced := by
  simp only [Token.content, Prod.mk.injEq] at h
  simp [Token.unplaced, h.1, h.2]

theorem map_unplaced_eq_iff {tokens more : List Token} :
    tokens.map Token.unplaced = more.map Token.unplaced ↔ tokens.map Token.content = more.map Token.content := by
  have hback : ∀ ts : List Token, (ts.map Token.unplaced).map Token.content = ts.map Token.content := by
    intro ts
    rw [List.map_map]
    rfl
  constructor
  · intro h
    rw [← hback tokens, h, hback]
  · intro h
    induction tokens generalizing more with
    | nil => rw [List.map_eq_nil_iff.mp h.symm]
    | cons t tokens ih =>
      cases more with
      | nil => cases h
      | cons u more =>
        simp only [List.map_cons, List.cons.injEq] at h ⊢
        exact ⟨unplaced_eq_of_content h.1, ih h.2⟩

/-! ## Conversions -/

namespace Rpn

def Release.unplaced (r : Release) : Release :=
  ⟨r.out.map Token.unplaced, r.rest.map (List.map Token.unplaced)⟩

theorem unwind_unplaced (incoming : Token) (stack : List Token) :
    unwind incoming.unplaced (stack.map Token.unplaced) = (unwind incoming stack).unplaced := by
  induction stack with
  | nil => rfl
  | cons top below ih =>
    have hsame : leavesBefore top.unplaced incoming.unplaced = leavesBefore top incoming := rfl
    rw [List.map_cons, unwind, unwind, hsame]
    cases leavesBefore top incoming with
    | error fault => rfl
    | ok leaves =>
      cases leaves with
      | false => rfl
      | true =>
        dsimp only
        rw [ih]
        rfl

theorem close_unplaced (stack : List Token) :
    close (stack.map Token.unplaced) = (close stack).unplaced := by
  have htake : (stack.map Token.unplaced).takeWhile (!·.opens) =
      (stack.takeWhile (!·.opens)).map Token.unplaced := List.takeWhile_map ..
  have hdrop : (stack.map Token.unplaced).dropWhile (!·.opens) =
      (stack.dropWhile (!·.opens)).map Token.unplaced := List.dropWhile_map ..
  unfold close
  rw [htake, hdrop]
  cases stack.dropWhile (!·.opens) with
  | nil => rfl
  | cons opening below =>
    cases below with
    | nil => rfl
    | cons next below =>
      have hkind : next.unplaced.kind = next.kind := rfl
      rw [List.map_cons, List.map_cons]
      dsimp only
      rw [hkind]
      split
      · simp [Release.unplaced]
      · rfl

theorem release_unplaced (token : Token) (stack : List Token) :
    release token.unplaced (stack.map Token.unplaced) = (release token stack).unplaced := by
  have hkind : token.unplaced.kind = token.kind := rfl
  have hopens : token.unplaced.opens = token.opens := rfl
  unfold release
  rw [hkind, hopens]
  cases token.kind with
  | number => rfl
  | identifier => rfl
  | operator =>
    dsimp only
    rw [unwind_unplaced]
    unfold Release.unplaced
    cases (unwind token stack).rest <;> rfl
  | parenthesis =>
    dsimp only
    split
    · rfl
    · exact close_unplaced stack

theorem flush_unplaced (stack : List Token) :
    flush (stack.map Token.unplaced) = (flush stack).unplaced := by
  have htake : (stack.map Token.unplaced).takeWhile (!·.opens) =
      (stack.takeWhile (!·.opens)).map Token.unplaced := List.takeWhile_map ..
  have hany : (stack.map Token.unplaced).any Token.opens = stack.any Token.opens := List.any_map ..
  unfold flush Release.unplaced
  dsimp only
  rw [htake, hany]
  split <;> rfl

theorem andThen_unplaced {next next' : List Token → Release}
    (h : ∀ stack, next' (stack.map Token.unplaced) = (next stack).unplaced) (r : Release) :
    r.unplaced.andThen next' = (r.andThen next).unplaced := by
  cases hr : r.rest with
  | error fault =>
    have hr' : r.unplaced.rest = .error fault := by simp [Release.unplaced, hr]
    rw [Release.andThen_error hr, Release.andThen_error hr']
  | ok stack =>
    have hr' : r.unplaced.rest = .ok (stack.map Token.unplaced) := by simp [Release.unplaced, hr]
    rw [Release.andThen_ok hr, Release.andThen_ok hr', h]
    simp [Release.unplaced]

theorem passage_unplaced (tokens stack : List Token) :
    passage (tokens.map Token.unplaced) (stack.map Token.unplaced) = (passage tokens stack).unplaced := by
  induction tokens generalizing stack with
  | nil => exact flush_unplaced stack
  | cons token tokens ih =>
    rw [List.map_cons, passage_cons, passage_cons, release_unplaced]
    exact andThen_unplaced ih _

theorem ofTokens_unplaced (tokens : List Token) :
    ofTokens (tokens.map Token.unplaced) = (ofTokens tokens).map (List.map Token.unplaced) := by
  have h := passage_unplaced tokens []
  rw [List.map_nil] at h
  rw [ofTokens_eq, ofTokens_eq, h]
  unfold Release.unplaced
  cases (passage tokens []).rest <;> rfl

end Rpn

/-! ## Values -/

namespace Rules

variable (rules : Rules)

theorem evaluateRpn_unplaced (tokens : List Token) :
    rules.evaluateRpn (tokens.map Token.unplaced) = rules.evaluateRpn tokens := by
  unfold evaluateRpn
  rw [List.foldlM_map]
  rfl

theorem evaluateRpn_congr {tokens more : List Token}
    (h : tokens.map Token.content = more.map Token.content) :
    rules.evaluateRpn tokens = rules.evaluateRpn more := by
  rw [← evaluateRpn_unplaced, map_unplaced_eq_iff.mpr h, evaluateRpn_unplaced]

theorem ofTokens_evaluateRpn_congr {tokens more : List Token}
    (h : tokens.map Token.content = more.map Token.content) :
    (Rpn.ofTokens tokens >>= rules.evaluateRpn) = Rpn.ofTokens more >>= rules.evaluateRpn := by
  have hforget : ∀ ts, (Rpn.ofTokens ts >>= rules.evaluateRpn) =
      Rpn.ofTokens (ts.map Token.unplaced) >>= rules.evaluateRpn := by
    intro ts
    rw [Rpn.ofTokens_unplaced, bind_map]
    congr 1
    funext out
    exact (evaluateRpn_unplaced rules out).symm
  rw [hforget tokens, map_unplaced_eq_iff.mpr h, ← hforget more]

end Rules

end Reckoner
