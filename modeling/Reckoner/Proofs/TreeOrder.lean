import Mathlib.Data.List.Basic
import Reckoner.Proofs.Brackets
import Reckoner.Proofs.Positions
import Reckoner.Proofs.PostOrder

/-!
# Trees and their reverse Polish order

When the last token of a formed tree has arrived, the functions and operators along
its right edge still wait on the stack, and all else of it has left in order. What
arrives next lets the right edge leave, so the conversion of the tree's tokens is its
tokens in reverse Polish order.
-/

namespace Reckoner

namespace Tree

/-! ## The right edge -/

def isGroup : Tree → Bool
  | group .. => true
  | _ => false

/-- What waits behind the last token of a tree, the entry on top first. -/
def pending : Tree → List Token
  | number _ => []
  | call f x => if x.isGroup then [] else pending x ++ [f]
  | binary _ o r => pending r ++ [o]
  | group .. => []

/-- What has left behind the last token of a tree. -/
def released : Tree → List Token
  | number t => [t]
  | call f x => if x.isGroup then rpn x ++ [f] else released x
  | binary l _ r => rpn l ++ released r
  | group _ t _ => rpn t

theorem released_append_pending (t : Tree) : t.released ++ t.pending = t.rpn := by
  induction t with
  | number t => rfl
  | call f x ih =>
    rw [released, pending, rpn]
    split
    · exact List.append_nil _
    · rw [← List.append_assoc, ih]
  | binary l o r _ ihr =>
    rw [released, pending, rpn, List.append_assoc, ← List.append_assoc (released r), ihr, List.append_assoc]
  | group a t b _ => exact List.append_nil _

end Tree

/-! ## Operators against one another -/

/-- The operator `top` on the stack makes way for `incoming`. -/
def Operator.yields (top incoming : Operator) : Prop :=
  incoming.precedence < top.precedence ∨ incoming.precedence = top.precedence ∧ incoming.grouping = .left

theorem Operator.grouping_eq {p q : Operator} (h : p.precedence = q.precedence) : p.grouping = q.grouping := by
  cases p <;> cases q <;> first | rfl | cases h

theorem Tree.fitsLeft_iff {o p : Operator} {t : Tree} (h : t.root? = some p) :
    t.fitsLeft o = true ↔ p.yields o := by
  unfold Tree.fitsLeft Operator.yields
  simp [h]

theorem Tree.fitsRight_iff {o p : Operator} {t : Tree} (h : t.root? = some p) :
    t.fitsRight o = true ↔ ¬ o.yields p := by
  unfold Tree.fitsRight Operator.yields
  rw [h]
  simp only [Bool.or_eq_true, Bool.and_eq_true, decide_eq_true_eq]
  constructor
  · rintro (hlt | ⟨heq, hg⟩) (hlt' | ⟨heq', hg'⟩)
    · omega
    · omega
    · omega
    · rw [Operator.grouping_eq heq, hg'] at hg
      cases hg
  · intro hn
    rcases Nat.lt_trichotomy o.precedence p.precedence with hlt | heq | hgt
    · exact Or.inl hlt
    · refine Or.inr ⟨heq, ?_⟩
      cases hg : o.grouping with
      | left => exact absurd (Or.inr ⟨heq.symm, by rw [← Operator.grouping_eq heq, hg]⟩) hn
      | right => rfl
    · exact absurd (Or.inl hgt) hn

theorem Operator.yields_trans {p q o : Operator} (h : p.yields q) (h' : q.yields o) : p.yields o := by
  unfold yields at *
  rcases h with hlt | ⟨heq, -⟩
  · rcases h' with hlt' | ⟨heq', -⟩
    · exact Or.inl (by omega)
    · exact Or.inl (by omega)
  · rcases h' with hlt' | ⟨heq', hg⟩
    · exact Or.inl (by omega)
    · exact Or.inr ⟨by omega, hg⟩

/-- What binds at least as tight as an operator that makes way makes way too. -/
theorem Operator.yields_of_not_yields {p q o : Operator} (hq : ¬ p.yields q) (hp : p.yields o) : q.yields o := by
  unfold yields at *
  rcases Nat.lt_trichotomy q.precedence p.precedence with hlt | heq | hgt
  · exact absurd (Or.inl hlt) hq
  · rcases hp with hlt | ⟨heq', hg⟩
    · exact Or.inl (by omega)
    · exact absurd (Or.inr ⟨heq, by rw [grouping_eq (heq.trans heq'.symm), hg]⟩) hq
  · exact Or.inl (by omega)

namespace Rpn

/-! ## What an operator lets leave -/

theorem leavesBefore_identifier {top incoming : Token} (hk : top.kind = .identifier) (ho : top.opens = false) :
    leavesBefore top incoming = .ok true := by
  simp [leavesBefore, hk, ho]

theorem opens_of_ofText? {t : Token} {o : Operator} (h : Operator.ofText? t.text = some o) : t.opens = false := by
  have ht := Operator.eq_symbol_of_ofText? h
  unfold Token.opens
  rw [ht]
  cases o <;> rfl

theorem leavesBefore_operator {top incoming : Token} {p o : Operator} (hk : top.kind = .operator)
    (hp : Operator.ofText? top.text = some p) (ho : Operator.ofText? incoming.text = some o) :
    (p.yields o → leavesBefore top incoming = .ok true) ∧
      (¬ p.yields o → leavesBefore top incoming = .ok false) := by
  have hkind : top.kind ≠ .identifier := by rw [hk]; decide
  unfold leavesBefore Operator.yields
  rw [if_neg (by simp [opens_of_ofText? hp]), if_neg hkind]
  simp only [precedence, grouping, hp, ho, ok_bind]
  by_cases hlt : o.precedence < p.precedence
  · simp [hlt]
  · by_cases heq : p.precedence = o.precedence
    · simp [heq]
    · simp [hlt, heq, Ne.symm heq]

theorem unwind_append {incoming : Token} {above stack : List Token}
    (ha : ∀ t ∈ above, leavesBefore t incoming = .ok true)
    (hs : ∀ top ∈ stack.head?, leavesBefore top incoming = .ok false) :
    unwind incoming (above ++ stack) = ⟨above, .ok stack⟩ := by
  induction above with
  | nil =>
    cases stack with
    | nil => rfl
    | cons top below => rw [List.nil_append, unwind, hs top rfl]
  | cons t above ih =>
    obtain ⟨ht, habove⟩ := List.forall_mem_cons.mp ha
    rw [List.cons_append, unwind, ht]
    dsimp only
    rw [ih habove]

end Rpn

/-! ## The right edge leaves -/

namespace Tree

theorem opens_of_mem_pending {t : Tree} (h : t.Formed) : ∀ k ∈ t.pending, k.opens = false := by
  induction h with
  | number _ => intro k hk; cases hk
  | @call f x _ ho _ _ ih =>
    rw [pending]
    split
    · intro k hk
      cases hk
    · intro k hk
      rcases List.mem_append.mp hk with hk | hk
      · exact ih k hk
      · rw [List.mem_singleton.mp hk]
        exact ho
  | @binary l o r p _ ho _ _ _ _ _ ihr =>
    intro k hk
    rcases List.mem_append.mp hk with hk | hk
    · exact ihr k hk
    · rw [List.mem_singleton.mp hk]
      exact Rpn.opens_of_ofText? ho
  | group _ _ _ _ _ _ => intro k hk; cases hk

theorem fitsLeft_of_root? {t : Tree} (h : t.root? = none) (o : Operator) : t.fitsLeft o = true := by
  unfold fitsLeft
  rw [h]

theorem root?_of_isArgument {t : Tree} (h : t.isArgument = true) : t.root? = none := by
  cases t with
  | binary l o r => cases h
  | _ => rfl

/-- Left of an operator, the whole right edge of a tree makes way for it. -/
theorem leaves_of_mem_pending {t : Tree} (h : t.Formed) {o : Operator} {incoming : Token}
    (hi : Operator.ofText? incoming.text = some o) :
    t.fitsLeft o = true → ∀ k ∈ t.pending, Rpn.leavesBefore k incoming = .ok true := by
  induction h with
  | number _ => intro _ k hk; cases hk
  | @call f x hk ho harg _ ih =>
    intro _
    rw [pending]
    split
    · intro k hk
      cases hk
    · intro k hmem
      rcases List.mem_append.mp hmem with hmem | hmem
      · exact ih (fitsLeft_of_root? (root?_of_isArgument harg) o) k hmem
      · rw [List.mem_singleton.mp hmem]
        exact Rpn.leavesBefore_identifier hk ho
  | @binary l q r p hk hp _ hr _ _ _ ihr =>
    intro hfit k hmem
    have hyields : p.yields o := (fitsLeft_iff (t := .binary l q r) hp).mp hfit
    rcases List.mem_append.mp hmem with hmem | hmem
    · refine ihr ?_ k hmem
      cases hroot : r.root? with
      | none => exact fitsLeft_of_root? hroot o
      | some q' =>
        rw [fitsLeft_iff hroot]
        exact Operator.yields_of_not_yields ((fitsRight_iff hroot).mp hr) hyields
    · rw [List.mem_singleton.mp hmem]
      exact (Rpn.leavesBefore_operator hk hp hi).1 hyields
  | group _ _ _ _ _ _ => intro _ k hk; cases hk

/-! ## What has to stand below a tree -/

def startsWithGroup : Tree → Bool
  | binary l _ _ => startsWithGroup l
  | group .. => true
  | _ => false

/-- The top of the stack waits when the operator arrives. -/
def Stays (stack : List Token) (o : Operator) : Prop :=
  ∀ top ∈ stack.head?, top.opens = true ∨
    top.kind = .operator ∧ ∃ p, Operator.ofText? top.text = some p ∧ ¬ p.yields o

/-- A stack on which a tree can arrive: no function waits for a group that is not its argument,
and no operator makes way for the tree's own. -/
structure Fits (stack : List Token) (t : Tree) : Prop where
  group : t.startsWithGroup = true → ∀ top ∈ stack.head?, top.kind ≠ .identifier
  root : ∀ o, t.root? = some o → Stays stack o

theorem leavesBefore_of_stays {stack : List Token} {o : Operator} (h : Stays stack o) {incoming : Token}
    (hi : Operator.ofText? incoming.text = some o) :
    ∀ top ∈ stack.head?, Rpn.leavesBefore top incoming = .ok false := by
  intro top htop
  rcases h top htop with ho | ⟨hk, p, hp, hn⟩
  · exact if_pos ho
  · exact (Rpn.leavesBefore_operator hk hp hi).2 hn

theorem fits_of_isArgument {x : Tree} (hx : x.isArgument = true) (hg : x.isGroup = false) (stack : List Token) :
    Fits stack x := by
  cases x with
  | number t => exact ⟨fun h => (by cases h), fun o h => (by cases h)⟩
  | call f y => exact ⟨fun h => (by cases h), fun o h => (by cases h)⟩
  | binary l o r => cases hx
  | group a t b => cases hg

theorem fits_opening {opening : Token} (hk : opening.kind = .parenthesis) (ho : opening.opens = true)
    (stack : List Token) (t : Tree) : Fits (opening :: stack) t := by
  constructor
  · rintro - top htop
    cases htop
    rw [hk]
    decide
  · rintro o - top htop
    cases htop
    exact Or.inl ho

theorem fits_left {l r : Tree} {o : Token} {p : Operator} {stack : List Token}
    (hp : Operator.ofText? o.text = some p) (hl : l.fitsLeft p = true) (h : Fits stack (.binary l o r)) :
    Fits stack l := by
  refine ⟨h.group, fun q hq top htop => ?_⟩
  rcases h.root p hp top htop with ho | ⟨hk, p', hp', hn⟩
  · exact Or.inl ho
  · exact Or.inr ⟨hk, p', hp', fun hy => hn (Operator.yields_trans hy ((fitsLeft_iff hq).mp hl))⟩

theorem fits_right {r : Tree} {o : Token} {p : Operator} (hk : o.kind = .operator)
    (hp : Operator.ofText? o.text = some p) (hr : r.fitsRight p = true) (stack : List Token) :
    Fits (o :: stack) r := by
  constructor
  · rintro - top htop
    cases htop
    rw [hk]
    decide
  · intro q hq top htop
    cases htop
    exact Or.inr ⟨hk, p, hp, (fitsRight_iff hq).mp hr⟩

/-! ## The arrival of a tree -/

/-- What is left of a group when its content has arrived. The function whose argument it is
leaves with the closing parenthesis. -/
theorem arrive_group {a b : Token} {t : Tree} (h : (group a t b).Formed) {stack : List Token}
    (hin : Rpn.arrive t.flat (a :: stack) = ⟨t.released, .ok (t.pending ++ a :: stack)⟩) :
    Rpn.arrive (group a t b).flat stack = Rpn.Release.andThen ⟨t.rpn, .ok stack⟩ Rpn.called := by
  cases h with
  | group hak hao hbk hbt ht =>
    have hbo : b.opens = false := by simp [Token.opens, hbt]
    rw [flat, List.cons_append, Rpn.arrive_group ⟨hak, hao⟩ ⟨hbk, hbo⟩ (opens_of_mem_pending ht) hin,
      released_append_pending]

/-- The arrival of a formed tree on a stack that fits it: its right edge is put on the stack. -/
theorem arrive_flat : ∀ (t : Tree), t.Formed → ∀ stack, Fits stack t →
    Rpn.arrive t.flat stack = ⟨t.released, .ok (t.pending ++ stack)⟩
  | .number t, h, stack, _ => by
    cases h with
    | number hk =>
      rw [flat, Rpn.arrive_cons, Rpn.release_number stack hk, Rpn.Release.mk_andThen]
      rfl
  | .group a t b, h, stack, hs => by
    cases h with
    | group hak hao hbk hbt ht =>
      have hin := arrive_flat t ht (a :: stack) (fits_opening hak hao stack t)
      rw [arrive_group (.group hak hao hbk hbt ht) hin, Rpn.Release.mk_andThen,
        Rpn.called_of_not_identifier (hs.group rfl), List.append_nil]
      rfl
  | .call f x, h, stack, hs => by
    cases h with
    | call hk ho harg hx =>
      have hfirst : Rpn.arrive (call f x).flat stack = Rpn.arrive x.flat (f :: stack) := by
        rw [flat, Rpn.arrive_cons, Rpn.release_identifier stack hk, Rpn.Release.mk_andThen]
        rfl
      rw [hfirst, released, pending]
      by_cases hg : x.isGroup = true
      · rw [if_pos hg, if_pos hg]
        cases x with
        | group a t b =>
          cases hx with
          | group hak hao hbk hbt ht =>
            have hin := arrive_flat t ht (a :: f :: stack) (fits_opening hak hao _ t)
            rw [arrive_group (.group hak hao hbk hbt ht) hin, Rpn.Release.mk_andThen, Rpn.called, if_pos hk]
            rfl
        | _ => cases hg
      · rw [if_neg hg, if_neg hg, arrive_flat x hx (f :: stack)
          (fits_of_isArgument harg (Bool.eq_false_iff.mpr hg) _), List.append_assoc]
        rfl
  | .binary l o r, h, stack, hs => by
    cases h with
    | @binary _ _ _ p hk hp hfl hfr hl hr =>
      have hunwind : Rpn.unwind o (l.pending ++ stack) = ⟨l.pending, .ok stack⟩ :=
        Rpn.unwind_append (leaves_of_mem_pending hl hp hfl) (leavesBefore_of_stays (hs.root p hp) hp)
      rw [flat, Rpn.arrive_append, arrive_flat l hl stack (fits_left hp hfl hs),
        Rpn.Release.mk_andThen, Rpn.arrive_cons, Rpn.release_operator _ hk hunwind,
        Rpn.Release.mk_andThen, arrive_flat r hr (o :: stack) (fits_right hk hp hfr stack),
        released, pending, ← released_append_pending l]
      simp

theorem ofTokens_flat {t : Tree} (h : t.Formed) : Rpn.ofTokens t.flat = .ok t.rpn := by
  have hopens := opens_of_mem_pending h
  have hfits : Fits [] t := ⟨fun _ top htop => (by cases htop), fun o _ top htop => (by cases htop)⟩
  rw [Rpn.ofTokens_eq_ok_iff, Rpn.passage, arrive_flat t h [] hfits, List.append_nil, Rpn.Release.mk_andThen,
    Rpn.flush_of_opens hopens, released_append_pending]

/-! ## Values -/

theorem evaluateRpn_rpn (rules : Rules) {t : Tree} (h : t.Formed) : rules.evaluateRpn t.rpn = t.value rules := by
  rw [← rpn_bare, ← value_bare]
  exact evaluateRpn_of_bare rules (bare_bare h)

/-- The conversion of a formed tree is its reverse Polish order, and every text with the
tree's tokens evaluates as the tree does: to its value, or to its first fault. -/
theorem convert_and_evaluate {t : Tree} (h : t.Formed) :
    Rpn.ofTokens t.flat = .ok t.rpn ∧
      ∀ (rules : Rules) (e : Text) (tokens : List Token), scan .infixed e = .ok tokens →
        tokens.map Token.content = t.flat.map Token.content → rules.evaluateTwoPass e = t.value rules := by
  refine ⟨ofTokens_flat h, ?_⟩
  intro rules e tokens hscan hcontent
  calc rules.evaluateTwoPass e
      = Rpn.ofTokens tokens >>= rules.evaluateRpn := by
        unfold Rules.evaluateTwoPass rpnTokens
        rw [hscan]
        rfl
    _ = Rpn.ofTokens t.flat >>= rules.evaluateRpn := Rules.ofTokens_evaluateRpn_congr rules hcontent
    _ = t.value rules := by rw [ofTokens_flat h, ok_bind, evaluateRpn_rpn rules h]

/-- A product with a power of powers of a called group. -/
def sample : Tree :=
  .binary
    (.binary (.number ⟨.number, "2".toList, 0⟩) ⟨.operator, "*".toList, 1⟩
      (.binary
        (.call ⟨.identifier, "neg".toList, 2⟩
          (.group ⟨.parenthesis, "(".toList, 5⟩
            (.binary (.number ⟨.number, "1".toList, 6⟩) ⟨.operator, "+".toList, 7⟩
              (.number ⟨.number, "3".toList, 8⟩))
            ⟨.parenthesis, ")".toList, 9⟩))
        ⟨.operator, "^".toList, 10⟩
        (.binary (.number ⟨.number, "2".toList, 11⟩) ⟨.operator, "^".toList, 12⟩
          (.number ⟨.number, "3".toList, 13⟩))))
    ⟨.operator, "-".toList, 14⟩
    (.number ⟨.number, "-4".toList, 15⟩)

theorem formed_sample : sample.Formed := by
  refine .binary (p := .minus) rfl rfl rfl rfl ?_ (.number rfl)
  refine .binary (p := .times) rfl rfl rfl rfl (.number rfl) ?_
  refine .binary (p := .power) rfl rfl rfl rfl ?_ ?_
  · exact .call rfl rfl rfl (.group rfl rfl rfl rfl
      (.binary (p := .plus) rfl rfl rfl rfl (.number rfl) (.number rfl)))
  · exact .binary (p := .power) rfl rfl rfl rfl (.number rfl) (.number rfl)

theorem convert_and_evaluate_sample :
    sample.Formed ∧ Rpn.ofTokens sample.flat = .ok sample.rpn ∧
      Token.render sample.rpn = "2 1 3 + neg 2 3 ^ ^ * -4 -".toList ∧
      Rules.standard.evaluateTwoPass "2*neg(1+3)^2^3--4".toList = sample.value Rules.standard := by
  obtain ⟨hconvert, hevaluate⟩ := convert_and_evaluate formed_sample
  have hscan : scan .infixed "2*neg(1+3)^2^3--4".toList = .ok sample.flat := by decide +kernel
  have hrender : Token.render sample.rpn = "2 1 3 + neg 2 3 ^ ^ * -4 -".toList := by decide +kernel
  exact ⟨formed_sample, hconvert, hrender, hevaluate Rules.standard _ _ hscan rfl⟩

end Tree

end Reckoner
