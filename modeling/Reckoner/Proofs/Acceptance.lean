import Reckoner.Proofs.OnePass
import Reckoner.Proofs.TreeOrder

/-!
# What is accepted

Nothing checks that operands and operators alternate: tokens are accepted when what they convert to is
the post-order of a tree. All that the infix grammar derives is accepted, since its derivations can be
regrouped until every operator stands where its precedence allows. But more than that is accepted.
-/

namespace Reckoner

/-! ## The infix grammar -/

inductive Phrase
  | expression
  | operand

/-- The grammar of infix tokens. It says nothing of precedence, so most lists have many derivations. -/
inductive Derives : Phrase → List Token → Prop
  | operand {a} : Derives .operand a → Derives .expression a
  | binary {a b o} : Derives .expression a → o.kind = .operator → Derives .expression b →
      Derives .expression (a ++ o :: b)
  | number {t} : t.kind = .number → Derives .operand [t]
  | group {opening a closing} : opening.isOpening = true → Derives .expression a → closing.isClosing = true →
      Derives .operand (opening :: a ++ [closing])
  | call {f a} : f.kind = .identifier → Derives .operand a → Derives .operand (f :: a)

theorem last_of_derives {phrase : Phrase} {tokens : List Token} (h : Derives phrase tokens) :
    ∃ front last, tokens = front ++ [last] ∧ last.kind ≠ .operator := by
  induction h with
  | operand _ ih => exact ih
  | @binary a b o _ _ _ _ ih =>
    obtain ⟨front, last, rfl, hlast⟩ := ih
    exact ⟨a ++ o :: front, last, by simp, hlast⟩
  | @number t hk => exact ⟨[], t, rfl, by simp [hk]⟩
  | @group opening a closing _ _ hc _ =>
    refine ⟨opening :: a, closing, rfl, ?_⟩
    simp only [Token.isClosing, Bool.and_eq_true, decide_eq_true_eq] at hc
    simp [hc.1]
  | @call f a _ _ ih =>
    obtain ⟨front, last, rfl, hlast⟩ := ih
    exact ⟨f :: front, last, rfl, hlast⟩

/-! ## Regrouping -/

namespace Tree

/-- Puts an operator and its right operand behind a tree: below the operators on the right edge that
have to be applied first, and above the others. -/
def attach (o : Token) (p : Operator) (x : Tree) : Tree → Tree
  | binary l q r => if (binary l q r).fitsLeft p then binary (binary l q r) o x else binary l q (attach o p x r)
  | t => binary t o x

theorem fitsRight_of_root? {t : Tree} (h : t.root? = none) (o : Operator) : t.fitsRight o = true := by
  unfold fitsRight
  rw [h]

section
variable {o : Token} {p : Operator} {x : Tree}

theorem flat_attach (t : Tree) : (attach o p x t).flat = t.flat ++ o :: x.flat := by
  induction t with
  | binary l q r _ ihr =>
    unfold attach
    split
    · rfl
    · simp [flat, ihr]
  | _ => rfl

theorem root?_attach (ho : Operator.ofText? o.text = some p) (t : Tree) :
    (attach o p x t).root? = some p ∨ (attach o p x t).root? = t.root? := by
  cases t with
  | binary l q r =>
    unfold attach
    split
    · exact Or.inl ho
    · exact Or.inr rfl
  | _ => exact Or.inl ho

theorem formed_attach (hk : o.kind = .operator) (ho : Operator.ofText? o.text = some p) (hx : x.Formed)
    (harg : x.isArgument = true) {t : Tree} (ht : t.Formed) : (attach o p x t).Formed := by
  have hright := fitsRight_of_root? (root?_of_isArgument harg) p
  induction ht with
  | @binary l q r s hq hs hfl hfr hl hr ihl ihr =>
    have ht : (binary l q r).Formed := .binary hq hs hfl hfr hl hr
    unfold attach
    by_cases hfit : (binary l q r).fitsLeft p = true
    · rw [if_pos hfit]
      exact .binary hk ho hfit hright ht hx
    · rw [if_neg hfit]
      refine .binary hq hs hfl ?_ hl ihr
      rcases root?_attach (x := x) ho r with hroot | hroot
      · rw [fitsLeft_iff (t := binary l q r) hs] at hfit
        rwa [fitsRight_iff hroot]
      · unfold fitsRight at hfr ⊢
        rwa [hroot]
  | number h => exact .binary hk ho (fitsLeft_of_root? rfl p) hright (.number h) hx
  | call hname hopens hargument hinner =>
    exact .binary hk ho (fitsLeft_of_root? rfl p) hright (.call hname hopens hargument hinner) hx
  | group hopening hopens hclosing hcloses hinner =>
    exact .binary hk ho (fitsLeft_of_root? rfl p) hright (.group hopening hopens hclosing hcloses hinner) hx

end

/-- What a derived list is: an argument, or a tree that can be put behind any other. -/
def Regroups : Phrase → List Token → Prop
  | .operand, tokens => ∃ x : Tree, x.Formed ∧ x.isArgument = true ∧ x.flat = tokens
  | .expression, tokens => (∃ t : Tree, t.Formed ∧ t.flat = tokens) ∧
      ∀ (t : Tree) (o : Token), t.Formed → o.kind = .operator → o.Lexical →
        ∃ t' : Tree, t'.Formed ∧ t'.flat = t.flat ++ o :: tokens

theorem regroups_of_derives {phrase : Phrase} {tokens : List Token} (h : Derives phrase tokens) :
    (∀ t ∈ tokens, t.Lexical) → Regroups phrase tokens := by
  induction h with
  | operand _ ih =>
    intro hlex
    obtain ⟨x, hx, harg, rfl⟩ := ih hlex
    refine ⟨⟨x, hx, rfl⟩, ?_⟩
    intro t o ht hk hl
    unfold Token.Lexical at hl
    rw [hk] at hl
    obtain ⟨p, hp⟩ := hl
    have ho : Operator.ofText? o.text = some p := by rw [hp, Operator.ofText?_symbol]
    exact ⟨attach o p x t, formed_attach hk ho hx harg ht, flat_attach t⟩
  | @binary a b o _ hk _ iha ihb =>
    intro hlex
    obtain ⟨hlexa, hlexb⟩ := List.forall_mem_append.mp hlex
    obtain ⟨hlexo, hlexb⟩ := List.forall_mem_cons.mp hlexb
    obtain ⟨⟨l, hl, rfl⟩, hbehind⟩ := iha hlexa
    obtain ⟨-, hjoin⟩ := ihb hlexb
    refine ⟨hjoin l o hl hk hlexo, ?_⟩
    intro t q ht hq hlexq
    obtain ⟨t₁, ht₁, hflat⟩ := hbehind t q ht hq hlexq
    obtain ⟨t₂, ht₂, hflat₂⟩ := hjoin t₁ o ht₁ hk hlexo
    exact ⟨t₂, ht₂, by rw [hflat₂, hflat]; simp⟩
  | @number t hk =>
    intro _
    exact ⟨.number t, .number hk, rfl, rfl⟩
  | @group opening a closing hopen _ hclose ih =>
    intro hlex
    obtain ⟨hlex, -⟩ := List.forall_mem_append.mp hlex
    obtain ⟨⟨t, ht, rfl⟩, -⟩ := ih (List.forall_mem_cons.mp hlex).2
    simp only [Token.isOpening, Token.isClosing, Bool.and_eq_true, decide_eq_true_eq, beq_iff_eq] at hopen hclose
    exact ⟨.group opening t closing, .group hopen.1 (by simp [Token.opens, hopen.2]) hclose.1 hclose.2 ht, rfl, rfl⟩
  | @call f a hk _ ih =>
    intro hlex
    obtain ⟨hlexf, hlexa⟩ := List.forall_mem_cons.mp hlex
    obtain ⟨x, hx, harg, rfl⟩ := ih hlexa
    have hopens : f.opens = false := by
      rw [opens_eq_isOpening (by simp [hk]) hlexf.proper]
      simp [Token.isOpening, hk]
    exact ⟨.call f x, .call hk hopens harg hx, rfl, rfl⟩

/-- Whatever the grammar derives are the tokens of a tree in which every operator stands where its precedence allows. -/
theorem exists_formed_of_derives {tokens : List Token} (hlex : ∀ t ∈ tokens, t.Lexical)
    (h : Derives .expression tokens) : ∃ t : Tree, t.Formed ∧ t.flat = tokens :=
  (regroups_of_derives h hlex).1

end Tree

/-! ## Acceptance -/

/-- The tokens convert to the post-order of a tree. -/
structure Converts (tokens : List Token) (t : Tree) : Prop where
  bare : t.Bare
  order : Rpn.ofTokens tokens = .ok t.rpn

theorem converts_of_derives {tokens : List Token} (hlex : ∀ t ∈ tokens, t.Lexical)
    (h : Derives .expression tokens) : ∃ t, Converts tokens t := by
  obtain ⟨t, ht, rfl⟩ := Tree.exists_formed_of_derives hlex h
  exact ⟨t.bare, Tree.bare_bare ht, by rw [Tree.rpn_bare, Tree.ofTokens_flat ht]⟩

namespace Rules

variable (rules : Rules)

theorem evaluateTwoPass_of_converts {e : Text} {tokens : List Token} {t : Tree}
    (h : scan .infixed e = .ok tokens) (ht : Converts tokens t) : rules.evaluateTwoPass e = t.value rules := by
  have hout : rpnTokens e = .ok t.rpn := by
    unfold rpnTokens
    rw [h, ok_bind, ht.order]
  rw [evaluateTwoPass, hout, ok_bind, Tree.evaluateRpn_of_bare rules ht.bare]

theorem converts_of_evaluateTwoPass {e : Text} {x : Float} (h : rules.evaluateTwoPass e = .ok x) :
    ∃ tokens t, scan .infixed e = .ok tokens ∧ Converts tokens t ∧ t.value rules = .ok x := by
  obtain ⟨out, hout, hx⟩ := bind_eq_ok_iff.mp h
  obtain ⟨tokens, hscan, hconvert⟩ := bind_eq_ok_iff.mp hout
  obtain ⟨t, ht, rfl, hvalue⟩ := exists_tree_of_evaluateRpn hx
  exact ⟨tokens, t, hscan, ⟨ht, hconvert⟩, hvalue⟩

/-- An expression has a value only where its tokens convert to the post-order of a tree. Where they do,
it evaluates as the tree does, and where they do not, it is rejected by a fault of the expression.
Whatever the infix grammar derives converts. -/
theorem evaluateTwoPass_accepts (e : Text) :
    (∀ x, rules.evaluateTwoPass e = .ok x →
      ∃ tokens t, scan .infixed e = .ok tokens ∧ Converts tokens t ∧ t.value rules = .ok x) ∧
    ∀ tokens, scan .infixed e = .ok tokens →
      ((¬ ∃ t, Converts tokens t) → ∃ fault, rules.evaluateTwoPass e = .error fault ∧ fault.isExpression = true) ∧
      (∀ t, Converts tokens t → rules.evaluateTwoPass e = t.value rules ∧ t.value rules ≠ .error .invalid) ∧
      (Derives .expression tokens → ∃ t, Converts tokens t) := by
  refine ⟨fun x => converts_of_evaluateTwoPass rules, fun tokens hscan => ⟨?_, ?_, ?_⟩⟩
  · intro hnone
    cases h : rules.evaluateTwoPass e with
    | error fault => exact ⟨fault, rfl, isExpression_of_evaluateTwoPass rules h⟩
    | ok x =>
      obtain ⟨tokens', t, hscan', ht, -⟩ := converts_of_evaluateTwoPass rules h
      rw [hscan] at hscan'
      cases hscan'
      exact absurd ⟨t, ht⟩ hnone
  · intro t ht
    exact ⟨evaluateTwoPass_of_converts rules hscan ht, Tree.value_ne_invalid rules ht.bare⟩
  · exact converts_of_derives (lexical_of_scan hscan)

/-- An operator behind both of its operands, which the grammar derives nowhere. -/
theorem evaluateTwoPass_underived :
    ∃ tokens, scan .infixed "2 3 +".toList = .ok tokens ∧
      standard.evaluateTwoPass "2 3 +".toList = .ok 5 ∧ ¬ Derives .expression tokens := by
  have hscan : scan .infixed "2 3 +".toList =
      .ok [⟨.number, "2".toList, 0⟩, ⟨.number, "3".toList, 2⟩, ⟨.operator, "+".toList, 4⟩] := by
    decide +kernel
  have hvalue : standard.evaluateTwoPass "2 3 +".toList = .ok 5 := by decide +kernel
  refine ⟨_, hscan, hvalue, fun h => ?_⟩
  obtain ⟨front, last, htokens, hlast⟩ := last_of_derives h
  have hplus : last = ⟨.operator, "+".toList, 4⟩ := by
    have := congrArg List.getLast? htokens
    simpa using this.symm
  exact hlast (by rw [hplus])

end Rules

end Reckoner
