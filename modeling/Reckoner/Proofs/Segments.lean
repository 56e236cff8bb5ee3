import Mathlib.Data.List.Chain
import Reckoner.Proofs.Conservation
import Reckoner.Proofs.TreeOrder

/-!
# The shape of the stack

What may stand on what is a matter of neighbours: an operator stands only on an opening parenthesis or on an
operator that does not make way for it. Every token that arrives keeps this. So between two opening
parentheses functions stand on operators, and the operators bind tighter towards the top.
-/

namespace Reckoner

def Operator.StandsOn (top below : Operator) : Prop :=
  below.precedence < top.precedence ∨
    below.precedence = top.precedence ∧ below.grouping = .right ∧ top.grouping = .right

theorem Operator.standsOn_of_not_yields {top below : Operator} (h : ¬ below.yields top) : top.StandsOn below := by
  unfold yields at h
  rcases Nat.lt_trichotomy below.precedence top.precedence with hlt | heq | hgt
  · exact Or.inl hlt
  · have hright : top.grouping = .right := by
      cases hg : top.grouping with
      | left => exact absurd (Or.inr ⟨heq.symm, hg⟩) h
      | right => rfl
    exact Or.inr ⟨heq, (grouping_eq heq).trans hright, hright⟩
  · exact absurd (Or.inl hgt) h

def Token.StandsOn (top below : Token) : Prop :=
  ∃ p q, Operator.ofText? top.text = some p ∧ Operator.ofText? below.text = some q ∧ p.StandsOn q

namespace Rpn

/-! ## Neighbours -/

inductive Sits : Token → Token → Prop
  | onOpening {top below} : below.opens = true → Sits top below
  | opening {top below} : top.opens = true → Sits top below
  | function {top below} : top.kind = .identifier → Sits top below
  | operator {top below} : top.kind = .operator → below.kind = .operator → top.StandsOn below → Sits top below

/-- What makes no way for an operator is an opening parenthesis or an operator below it. -/
theorem sits_of_stays {top incoming : Token} (ht : top.Waits) (hi : incoming.kind = .operator)
    (hp : incoming.Proper) (h : leavesBefore top incoming = .ok false) : Sits incoming top := by
  by_cases ho : top.opens = true
  · exact .onOpening ho
  · have ho' : top.opens = false := Bool.eq_false_iff.mpr ho
    have hlanguage := ht.proper ht.kind
    have hincoming := hp (by simp [hi])
    rw [hi] at hincoming
    obtain ⟨o, hotext⟩ := hincoming
    cases hk : top.kind with
    | number => exact absurd hk ht.kind
    | identifier =>
      rw [leavesBefore_identifier hk ho'] at h
      cases h
    | operator =>
      rw [hk] at hlanguage
      obtain ⟨q, hq⟩ := hlanguage
      have hqsymbol : Operator.ofText? top.text = some q := by rw [hq, Operator.ofText?_symbol]
      have hosymbol : Operator.ofText? incoming.text = some o := by rw [hotext, Operator.ofText?_symbol]
      refine .operator hi hk ⟨o, q, hosymbol, hqsymbol, Operator.standsOn_of_not_yields fun hy => ?_⟩
      rw [(leavesBefore_operator hk hqsymbol hosymbol).1 hy] at h
      cases h
    | parenthesis => exact absurd hk (ht.kind_ne_parenthesis ho')

theorem unwind_stops {incoming : Token} {stack out rest : List Token}
    (h : unwind incoming stack = ⟨out, .ok rest⟩) :
    ∀ top ∈ rest.head?, leavesBefore top incoming = .ok false := by
  induction stack generalizing out with
  | nil =>
    cases h
    intro top ht
    cases ht
  | cons first below ih =>
    unfold unwind at h
    cases hl : leavesBefore first incoming with
    | error fault =>
      rw [hl] at h
      cases h
    | ok leaves =>
      rw [hl] at h
      cases leaves with
      | false =>
        cases h
        intro top ht
        cases ht
        exact hl
      | true =>
        cases hu : unwind incoming below with
        | mk front rest' =>
          simp only [hu, Release.mk.injEq] at h
          exact ih (hu.trans (by rw [h.2]))

/-! ## Arrivals -/

/-- All entries wait, and each of them may stand on the next one. -/
structure Stacked (stack : List Token) : Prop where
  waits : ∀ t ∈ stack, t.Waits
  neighbours : stack.IsChain Sits

theorem stacked_nil : Stacked [] := ⟨by simp, .nil⟩

section
variable {token : Token} {stack out rest : List Token} (hs : Stacked stack)
include hs

theorem neighbours_operator (ht : token.Proper) (hk : token.kind = .operator)
    (h : release token stack = ⟨out, .ok rest⟩) : rest.IsChain Sits := by
  obtain ⟨above, below, hu, rfl, -⟩ := unwind_of_waits hk ht hs.waits
  have hbelow : below.IsChain Sits := hs.neighbours.suffix (List.suffix_append above below)
  rw [release_operator _ hk hu] at h
  cases h
  refine hbelow.cons fun top htop => ?_
  have hwaits := hs.waits top (List.mem_append_right _ (List.mem_of_head? htop))
  exact sits_of_stays hwaits hk ht (unwind_stops hu top htop)

theorem neighbours_close (h : close stack = ⟨out, .ok rest⟩) : rest.IsChain Sits := by
  have hneighbours := hs.neighbours
  rcases close_cases stack with ⟨-, he⟩ | ⟨above, opening, below, rfl, -, -, he⟩
  · rw [he] at h
    cases h
  · have hbelow : below.IsChain Sits := hneighbours.suffix ⟨above ++ [opening], by simp⟩
    rw [he, Release.mk_andThen] at h
    rcases called_cases below with hcall | ⟨f, last, rfl, -, hcall⟩
    · rw [hcall] at h
      cases h
      exact hbelow
    · rw [hcall] at h
      cases h
      exact hbelow.tail

/-- One case for each kind: what is put on the stack may stand there, and what is taken away stood on top. -/
theorem neighbours_release (ht : token.Proper) (h : release token stack = ⟨out, .ok rest⟩) :
    rest.IsChain Sits := by
  cases hk : token.kind with
  | number =>
    rw [release_number stack hk] at h
    cases h
    exact hs.neighbours
  | identifier =>
    rw [release_identifier stack hk] at h
    cases h
    exact hs.neighbours.cons fun _ _ => .function hk
  | operator => exact neighbours_operator hs ht hk h
  | parenthesis =>
    by_cases ho : token.opens = true
    · rw [release_opening stack hk ho] at h
      cases h
      exact hs.neighbours.cons fun _ _ => .opening ho
    · rw [release_closing stack hk (Bool.eq_false_iff.mpr ho)] at h
      exact neighbours_close hs h

theorem stacked_release (ht : token.Proper) (h : release token stack = ⟨out, .ok rest⟩) : Stacked rest :=
  ⟨(carries_release hs.waits ht h).waits, neighbours_release hs ht h⟩

end

theorem stacked_arrive {tokens stack out rest : List Token} (ht : ∀ t ∈ tokens, t.Proper) (hs : Stacked stack)
    (h : arrive tokens stack = ⟨out, .ok rest⟩) : Stacked rest :=
  arrive_keeps (fun token htoken _ _ _ hs h => stacked_release hs (ht token htoken) h) hs h

/-! ## Segments -/

/-- What stands between the opening parentheses of a stack, the segment on top first. -/
def segments (stack : List Token) : List (List Token) := stack.splitOnP Token.isOpening

/-- Functions on top of operators, and each operator may stand on the next one. -/
def Layered (segment : List Token) : Prop :=
  ∃ functions operators, segment = functions ++ operators ∧ (∀ t ∈ functions, t.kind = .identifier) ∧
    (∀ t ∈ operators, t.kind = .operator) ∧ operators.IsChain Token.StandsOn

theorem Layered.pairwise {segment : List Token} (h : Layered segment) :
    segment.Pairwise fun above below => above.kind = .operator → below.kind ≠ .identifier := by
  obtain ⟨functions, operators, rfl, hf, ho, -⟩ := h
  have hfunction : ∀ t ∈ functions, t.kind ≠ .operator := fun t ht => by simp [hf t ht]
  have hoperator : ∀ t ∈ operators, t.kind ≠ .identifier := fun t ht => by simp [ho t ht]
  refine List.pairwise_append.mpr ⟨?_, ?_, fun a ha _ _ hk => absurd hk (hfunction a ha)⟩
  · exact List.pairwise_of_forall_mem_list fun a ha _ _ hk => absurd hk (hfunction a ha)
  · exact List.pairwise_of_forall_mem_list fun _ _ b hb _ => hoperator b hb

/-- Where no parenthesis is, neighbours that may stand on each other make layers. -/
theorem layered_of_neighbours {segment : List Token} (hw : ∀ t ∈ segment, t.Waits)
    (ho : ∀ t ∈ segment, t.opens = false) (hc : segment.IsChain Sits) : Layered segment := by
  induction segment with
  | nil => exact ⟨[], [], rfl, by simp, by simp, .nil⟩
  | cons t segment ih =>
    obtain ⟨hwt, hwrest⟩ := List.forall_mem_cons.mp hw
    obtain ⟨hot, horest⟩ := List.forall_mem_cons.mp ho
    obtain ⟨hneighbour, hcrest⟩ := List.isChain_cons.mp hc
    obtain ⟨functions, operators, rfl, hf, hops, hchain⟩ := ih hwrest horest hcrest
    cases hk : t.kind with
    | number => exact absurd hk hwt.kind
    | identifier => exact ⟨t :: functions, operators, rfl, List.forall_mem_cons.mpr ⟨hk, hf⟩, hops, hchain⟩
    | operator =>
      -- No function stands below an operator, so the operators begin right there.
      have hstands : ∀ below ∈ (functions ++ operators).head?, below.kind = .operator ∧ t.StandsOn below := by
        intro below hbelow
        have hmem := List.mem_of_head? hbelow
        cases hneighbour below hbelow with
        | onOpening hopens => rw [horest below hmem] at hopens; cases hopens
        | opening hopens => rw [hot] at hopens; cases hopens
        | function hidentifier => rw [hk] at hidentifier; cases hidentifier
        | operator _ hoperator hstands => exact ⟨hoperator, hstands⟩
      cases functions with
      | nil =>
        refine ⟨[], t :: operators, rfl, by simp, List.forall_mem_cons.mpr ⟨hk, hops⟩, ?_⟩
        exact hchain.cons fun below hbelow => (hstands below hbelow).2
      | cons f functions =>
        have hfunction := hf f List.mem_cons_self
        rw [(hstands f rfl).1] at hfunction
        cases hfunction
    | parenthesis => exact absurd hk (hwt.kind_ne_parenthesis hot)

/-- The pieces of a list lie in it and hold nothing that it was cut at; the first starts it. -/
theorem splitOnP_pieces {α : Type} (p : α → Bool) (l : List α) :
    ∃ first more, l.splitOnP p = first :: more ∧ first <+: l ∧
      ∀ piece ∈ first :: more, piece <:+: l ∧ ∀ x ∈ piece, p x = false := by
  induction l with
  | nil => exact ⟨[], [], List.splitOnP_nil, List.prefix_rfl, by simp⟩
  | cons x l ih =>
    obtain ⟨first, more, hsplit, hprefix, hpieces⟩ := ih
    obtain ⟨hfirst, hmore⟩ := List.forall_mem_cons.mp hpieces
    rw [List.splitOnP_cons_eq_if_modifyHead, hsplit]
    by_cases hx : p x = true
    · rw [if_pos hx]
      refine ⟨[], first :: more, rfl, List.nil_prefix, List.forall_mem_cons.mpr ⟨by simp, fun piece hp => ?_⟩⟩
      exact ⟨List.infix_cons (hpieces piece hp).1, (hpieces piece hp).2⟩
    · rw [if_neg hx, List.modifyHead_cons]
      have hprefix' : x :: first <+: x :: l := List.cons_prefix_cons.mpr ⟨rfl, hprefix⟩
      refine ⟨x :: first, more, rfl, hprefix', List.forall_mem_cons.mpr ⟨⟨hprefix'.isInfix, ?_⟩, fun piece hp => ?_⟩⟩
      · exact List.forall_mem_cons.mpr ⟨Bool.eq_false_iff.mpr hx, hfirst.2⟩
      · exact ⟨List.infix_cons (hmore piece hp).1, (hmore piece hp).2⟩

theorem Stacked.layered {stack : List Token} (hs : Stacked stack) :
    ∀ segment ∈ segments stack, Layered segment := by
  intro segment hsegment
  obtain ⟨first, more, hsplit, -, hpieces⟩ := splitOnP_pieces Token.isOpening stack
  rw [segments, hsplit] at hsegment
  obtain ⟨hpiece, hopening⟩ := hpieces segment hsegment
  have hwaits : ∀ t ∈ segment, t.Waits := fun t ht => hs.waits t (hpiece.subset ht)
  have hneighbours : segment.IsChain Sits := List.IsChain.infix hs.neighbours hpiece
  refine layered_of_neighbours hwaits (fun t ht => ?_) hneighbours
  rw [opens_eq_isOpening (hwaits t ht).kind (hwaits t ht).proper]
  exact hopening t ht

/-! ## The stack of a conversion -/

/-- The stack on which some tokens have arrived. -/
structure Shaped (arrived stack : List Token) : Prop where
  waiting : ∀ t ∈ stack, t.kind ≠ .number ∧ t.isClosing = false
  layered : ∀ segment ∈ segments stack, Layered segment
  functionsOnTop : ∀ segment ∈ segments stack,
    segment.Pairwise fun above below => above.kind = .operator → below.kind ≠ .identifier
  depth : openings stack + closings arrived = openings arrived

section
variable {front : List Token} (ht : ∀ t ∈ front, t.Proper)
include ht

theorem exists_arrive_iff :
    (∃ out stack, arrive front [] = ⟨out, .ok stack⟩) ↔ ∀ part, part <+: front → closings part ≤ openings part := by
  have hzero : openings [] = 0 := rfl
  rcases arrive_of_waits ht stacked_nil.waits with ⟨rest, hr, -, -, hordered⟩ | ⟨hr, part, hpart, hlt⟩
  · refine iff_of_true ⟨_, rest, by rw [← hr]⟩ fun part hpart => ?_
    have := hordered part hpart
    omega
  · refine iff_of_false (fun ⟨out, stack, h⟩ => ?_) fun hall => ?_
    · rw [h] at hr
      cases hr
    · have := hall part hpart
      omega

theorem shaped_of_arrive {out stack : List Token} (h : arrive front [] = ⟨out, .ok stack⟩) : Shaped front stack := by
  have hstacked := stacked_arrive ht stacked_nil h
  have hdepth : openings stack + closings front = openings front := by
    have hzero : openings [] = 0 := rfl
    rcases arrive_of_waits ht stacked_nil.waits with ⟨rest, hr, -, hdepth, -⟩ | ⟨hr, -⟩
    · rw [h] at hr
      cases hr
      omega
    · rw [h] at hr
      cases hr
  refine ⟨fun t hmem => ?_, hstacked.layered, fun segment hsegment => ?_, hdepth⟩
  · exact ⟨(hstacked.waits t hmem).kind, (hstacked.waits t hmem).opening⟩
  · exact (hstacked.layered segment hsegment).pairwise

/-- Whatever has arrived, in an order that some grammar derives or not, the stack keeps its shape, and the
conversion of all that follows goes on from it. Arrivals go on unless a closing parenthesis is one too many. -/
theorem arrive_shaped :
    ((∃ out stack, arrive front [] = ⟨out, .ok stack⟩) ↔ ∀ part, part <+: front → closings part ≤ openings part) ∧
    ∀ out stack, arrive front [] = ⟨out, .ok stack⟩ →
      Shaped front stack ∧
      ∀ (back : List Token) {σ : Type} (take : σ → Token → Except Fault σ) (acc : σ),
        convertFrom take (front ++ back) [] acc = out.foldlM take acc >>= convertFrom take back stack := by
  refine ⟨exists_arrive_iff ht, fun out stack h => ⟨shaped_of_arrive ht h, fun back σ take acc => ?_⟩⟩
  exact convertFrom_append take h back acc

end

/-- A group is closed, two more are open, operators stand without operands, and two functions wait. -/
def halfway : List Token :=
  [⟨.number, "2".toList, 0⟩, ⟨.operator, "*".toList, 1⟩, ⟨.parenthesis, "(".toList, 2⟩, ⟨.number, "3".toList, 3⟩,
    ⟨.operator, "+".toList, 4⟩, ⟨.number, "4".toList, 5⟩, ⟨.parenthesis, ")".toList, 6⟩,
    ⟨.operator, "^".toList, 7⟩, ⟨.parenthesis, "(".toList, 8⟩, ⟨.operator, "+".toList, 9⟩,
    ⟨.operator, "*".toList, 10⟩, ⟨.parenthesis, "(".toList, 11⟩, ⟨.number, "5".toList, 12⟩,
    ⟨.operator, "^".toList, 13⟩, ⟨.operator, "^".toList, 14⟩, ⟨.identifier, "neg".toList, 15⟩,
    ⟨.identifier, "sin".toList, 19⟩]

theorem arrive_shaped_halfway :
    (∀ t ∈ halfway, t.Proper) ∧ ∃ out stack, arrive halfway [] = ⟨out, .ok stack⟩ ∧
      (segments stack).map (·.map Token.text) = [["sin".toList, "neg".toList, "^".toList, "^".toList],
        ["*".toList, "+".toList], ["^".toList, "*".toList]] ∧
      Shaped halfway stack := by
  have hscan : scan .infixed "2*(3+4)^(+*(5^^neg sin".toList = .ok halfway := by decide +kernel
  have hproper := proper_of_scan hscan
  have hordered : ∀ part ∈ halfway.inits, closings part ≤ openings part := by decide
  have hsegments : (arrive halfway []).rest.map (fun stack => (segments stack).map (·.map Token.text)) =
      .ok [["sin".toList, "neg".toList, "^".toList, "^".toList], ["*".toList, "+".toList],
        ["^".toList, "*".toList]] := by decide +kernel
  obtain ⟨out, stack, h⟩ := (arrive_shaped hproper).1.mpr fun part hpart =>
    hordered part ((List.mem_inits part halfway).mpr hpart)
  rw [h, map_ok] at hsegments
  exact ⟨hproper, out, stack, h, Except.ok.inj hsegments, ((arrive_shaped hproper).2 out stack h).1⟩

end Rpn

end Reckoner
