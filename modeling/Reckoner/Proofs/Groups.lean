import Reckoner.Proofs.Brackets

/-!
# Groups are apart from what surrounds them

No operator makes what stands below an opening parenthesis leave, and no closing parenthesis of a group
reaches below it. So a group is converted as if it stood alone, and what its closing parenthesis takes
along does not depend on what is in it.
-/

namespace Reckoner

/-! ## Balance around a group -/

theorem prefix_append_iff {α : Type} {front a b : List α} :
    front <+: a ++ b ↔ front <+: a ∨ ∃ back, back <+: b ∧ front = a ++ back := by
  constructor
  · intro h
    rcases List.prefix_or_prefix_of_prefix h (List.prefix_append a b) with ha | ⟨back, rfl⟩
    · exact Or.inl ha
    · exact Or.inr ⟨back, (List.prefix_append_right_inj a).mp h, rfl⟩
  · rintro (h | ⟨back, h, rfl⟩)
    · exact h.trans (List.prefix_append a b)
    · exact (List.prefix_append_right_inj a).mpr h

theorem balanced_insert {pre mid post : List Token} (hmid : Balanced mid) :
    Balanced (pre ++ mid ++ post) ↔ Balanced (pre ++ post) := by
  have heven := hmid.paired
  constructor
  · rintro ⟨hordered, hpaired⟩
    simp only [openings_append, closings_append] at hpaired
    refine ⟨fun front hf => ?_, by rw [openings_append, closings_append]; omega⟩
    rcases prefix_append_iff.mp hf with h | ⟨back, h, rfl⟩
    · exact hordered front (h.trans (by simp))
    · have := hordered (pre ++ mid ++ back) ((List.prefix_append_right_inj _).mpr h)
      simp only [openings_append, closings_append] at this ⊢
      omega
  · rintro ⟨hordered, hpaired⟩
    simp only [openings_append, closings_append] at hpaired
    refine ⟨fun front hf => ?_, by simp only [openings_append, closings_append]; omega⟩
    rcases prefix_append_iff.mp hf with h | ⟨back, h, rfl⟩
    · rcases prefix_append_iff.mp h with h | ⟨back, hback, rfl⟩
      · exact hordered front (h.trans (List.prefix_append _ _))
      · have hpre := hordered pre (List.prefix_append _ _)
        have hmiddle := hmid.ordered back hback
        rw [openings_append, closings_append]
        omega
    · have := hordered (pre ++ back) ((List.prefix_append_right_inj _).mpr h)
      simp only [openings_append, closings_append] at this ⊢
      omega

namespace Rpn

/-! ## Above an opening parenthesis -/

section
variable {marker : Token} (below : List Token)

theorem unwind_above (ho : marker.opens = true) {incoming : Token} {stack out rest : List Token}
    (h : unwind incoming stack = ⟨out, .ok rest⟩) :
    unwind incoming (stack ++ marker :: below) = ⟨out, .ok (rest ++ marker :: below)⟩ := by
  induction stack generalizing out with
  | nil =>
    cases h
    simp [unwind, leavesBefore, ho]
  | cons top stack ih =>
    rw [List.cons_append]
    unfold unwind at h ⊢
    cases hl : leavesBefore top incoming with
    | error fault => simp [hl] at h
    | ok leaves =>
      cases leaves with
      | false =>
        simp only [hl] at h ⊢
        cases h
        rfl
      | true =>
        simp only [hl] at h ⊢
        cases hu : unwind incoming stack with
        | mk front rest' =>
          rw [hu] at h
          cases h
          rw [ih hu]

variable (hk : marker.kind ≠ .identifier)
include hk

theorem called_above {stack out rest : List Token} (h : called stack = ⟨out, .ok rest⟩) :
    called (stack ++ marker :: below) = ⟨out, .ok (rest ++ marker :: below)⟩ := by
  cases stack with
  | nil =>
    cases h
    exact if_neg hk
  | cons top stack =>
    by_cases ht : top.kind = .identifier
    · simp only [called, ht, if_true, List.cons_append] at h ⊢
      cases h
      rfl
    · simp only [called, ht, if_false, List.cons_append] at h ⊢
      cases h
      rfl

theorem close_above {stack out rest : List Token} (h : close stack = ⟨out, .ok rest⟩) :
    close (stack ++ marker :: below) = ⟨out, .ok (rest ++ marker :: below)⟩ := by
  rcases close_cases stack with ⟨-, hc⟩ | ⟨above, opening, inner, rfl, habove, hopen, hc⟩
  · rw [hc] at h
    cases h
  · rw [hc] at h
    obtain ⟨front, stack', back, hfirst, hcalled, rfl⟩ := Release.andThen_eq_ok h
    cases hfirst
    rw [List.append_assoc, List.cons_append, close_append habove hopen, Release.mk_andThen,
      called_above below hk hcalled]

variable (ho : marker.opens = true)
include ho

theorem release_above {token : Token} {stack out rest : List Token}
    (h : release token stack = ⟨out, .ok rest⟩) :
    release token (stack ++ marker :: below) = ⟨out, .ok (rest ++ marker :: below)⟩ := by
  cases htoken : token.kind with
  | number =>
    rw [release_number _ htoken] at h ⊢
    cases h
    rfl
  | identifier =>
    rw [release_identifier _ htoken] at h ⊢
    cases h
    rfl
  | operator =>
    cases hu : unwind token stack with
    | mk front last =>
      cases last with
      | error fault => simp [release, htoken, hu] at h
      | ok last =>
        rw [release_operator _ htoken hu] at h
        cases h
        exact release_operator _ htoken (unwind_above below ho hu)
  | parenthesis =>
    by_cases hopens : token.opens = true
    · rw [release_opening _ htoken hopens] at h ⊢
      cases h
      rfl
    · rw [release_closing _ htoken (Bool.eq_false_iff.mpr hopens)] at h ⊢
      exact close_above below hk h

/-- Whatever arrives on a stack without a fault arrives the same above an opening parenthesis. -/
theorem arrive_above {tokens : List Token} :
    ∀ {stack out rest : List Token}, arrive tokens stack = ⟨out, .ok rest⟩ →
      arrive tokens (stack ++ marker :: below) = ⟨out, .ok (rest ++ marker :: below)⟩ := by
  induction tokens with
  | nil =>
    intro stack out rest h
    cases h
    rfl
  | cons token tokens ih =>
    intro stack out rest h
    obtain ⟨front, middle, back, hr, hn, rfl⟩ := Release.andThen_eq_ok h
    rw [arrive_cons, release_above below hk ho hr, Release.mk_andThen, ih hn]

end

/-! ## Groups -/

def Encloses (mid group : List Token) : Prop :=
  ∃ opening closing : Token, opening.isOpening = true ∧ closing.isClosing = true ∧
    group = opening :: (mid ++ [closing])

/-- A group leaves whole, and the function below it with it. -/
theorem arrive_encloses {mid group out : List Token} (hg : Encloses mid group) (h : ofTokens mid = .ok out)
    (stack : List Token) : arrive group stack = Release.andThen ⟨out, .ok stack⟩ called := by
  obtain ⟨opening, closing, ho, hc, rfl⟩ := hg
  simp only [Token.isOpening, Token.isClosing, Bool.and_eq_true, decide_eq_true_eq, beq_iff_eq] at ho hc
  have hopens : opening.opens = true := by simp [Token.opens, ho.2]
  have hcloses : closing.opens = false := by simp [Token.opens, hc.2]
  obtain ⟨front, waiting, ha, hwaiting, rfl, -⟩ := passage_eq_ok (ofTokens_eq_ok_iff.mp h)
  have habove := arrive_above stack (by simp [ho.1]) hopens ha
  exact arrive_group ⟨ho.1, hopens⟩ ⟨hc.1, hcloses⟩ hwaiting habove

theorem passage_encloses {mid group out : List Token} (hg : Encloses mid group) (h : ofTokens mid = .ok out)
    (pre post stack : List Token) :
    passage (pre ++ group ++ post) stack = (arrive pre stack).andThen fun stack =>
      Release.andThen ⟨out, .ok stack⟩ fun stack => (called stack).andThen (passage post) := by
  have hgroup : arrive group = fun stack => Release.andThen ⟨out, .ok stack⟩ called := funext (arrive_encloses hg h)
  simp only [passage, arrive_append, hgroup, Release.andThen_assoc]
  rfl

/-- What surrounds a group either fails whatever the group is, or puts the same around all of them. -/
theorem ofTokens_surrounded (pre post : List Token) :
    (∃ fault, ∀ mid group out, Encloses mid group → ofTokens mid = .ok out →
      ofTokens (pre ++ group ++ post) = .error fault) ∨
    ∃ front back, ∀ mid group out, Encloses mid group → ofTokens mid = .ok out →
      ofTokens (pre ++ group ++ post) = .ok (front ++ out ++ back) := by
  cases hpre : arrive pre [] with
  | mk front rest =>
    cases rest with
    | error fault =>
      refine Or.inl ⟨fault, fun mid group out hg h => ofTokens_eq_error ?_⟩
      rw [passage_encloses hg h, hpre, Release.andThen_error rfl]
    | ok stack =>
      cases hpost : (called stack).andThen (passage post) with
      | mk back rest =>
        have hpass : ∀ mid group out, Encloses mid group → ofTokens mid = .ok out →
            passage (pre ++ group ++ post) [] = ⟨front ++ out ++ back, rest⟩ := by
          intro mid group out hg h
          rw [passage_encloses hg h, hpre, Release.mk_andThen, Release.mk_andThen, hpost, List.append_assoc]
        cases rest with
        | error fault =>
          refine Or.inl ⟨fault, fun mid group out hg h => ofTokens_eq_error ?_⟩
          rw [hpass mid group out hg h]
        | ok last =>
          refine Or.inr ⟨front, back, fun mid group out hg h => ?_⟩
          rw [ofTokens_eq, hpass mid group out hg h, map_ok]

/-- The group that every context can be asked about. -/
def emptyGroup : List Token := [⟨.parenthesis, ['('], 0⟩, ⟨.parenthesis, [')'], 0⟩]

theorem encloses_emptyGroup : Encloses [] emptyGroup := ⟨_, _, by decide, by decide, rfl⟩

theorem proper_emptyGroup : ∀ t ∈ emptyGroup, t.Proper := by
  intro t ht
  simp only [emptyGroup, List.mem_cons, List.not_mem_nil, or_false] at ht
  rcases ht with rfl | rfl
  · exact fun _ => Or.inl rfl
  · exact fun _ => Or.inr rfl

theorem ofTokens_emptyGroup_eq_error {pre post : List Token} (hpre : ∀ t ∈ pre, t.Proper)
    (hpost : ∀ t ∈ post, t.Proper) (fault : Fault) :
    ofTokens (pre ++ emptyGroup ++ post) = .error fault ↔ fault = .mismatched ∧ ¬ Balanced (pre ++ post) := by
  have hproper : ∀ t ∈ pre ++ emptyGroup ++ post, t.Proper :=
    List.forall_mem_append.mpr ⟨List.forall_mem_append.mpr ⟨hpre, proper_emptyGroup⟩, hpost⟩
  rw [ofTokens_eq_error_iff hproper, balanced_insert (by decide)]

/-- A group is converted as if it stood alone. What surrounds it decides whether there is a conversion at all,
and what comes before the group and behind it. The parentheses themselves leave no trace. -/
theorem ofTokens_enclosed {pre post : List Token} (hpre : ∀ t ∈ pre, t.Proper) (hpost : ∀ t ∈ post, t.Proper) :
    (¬ Balanced (pre ++ post) → ∀ mid group out, Encloses mid group → ofTokens mid = .ok out →
      ofTokens (pre ++ group ++ post) = .error .mismatched) ∧
    (Balanced (pre ++ post) → ∃ front back, ∀ mid group out, Encloses mid group → ofTokens mid = .ok out →
      ofTokens (pre ++ group ++ post) = .ok (front ++ out ++ back)) ∧
    ∀ mid group out, Encloses mid group → ofTokens mid = .ok out → ofTokens group = .ok out := by
  have hempty := ofTokens_emptyGroup_eq_error hpre hpost
  refine ⟨fun hb => ?_, fun hb => ?_, fun mid group out hg h => ?_⟩
  · rcases ofTokens_surrounded pre post with ⟨fault, hfault⟩ | ⟨front, back, hok⟩
    · obtain ⟨rfl, -⟩ := (hempty fault).mp (hfault [] emptyGroup [] encloses_emptyGroup rfl)
      exact hfault
    · have herror := (hempty .mismatched).mpr ⟨rfl, hb⟩
      rw [hok [] emptyGroup [] encloses_emptyGroup rfl] at herror
      cases herror
  · rcases ofTokens_surrounded pre post with ⟨fault, hfault⟩ | hok
    · exact absurd hb ((hempty fault).mp (hfault [] emptyGroup [] encloses_emptyGroup rfl)).2
    · exact hok
  · have hgroup := passage_encloses hg h [] [] []
    rw [List.nil_append, List.append_nil, arrive_nil, Release.mk_andThen, Release.mk_andThen] at hgroup
    rw [ofTokens_eq, hgroup]
    simp [called, passage, arrive_nil, Release.mk_andThen, flush]

/-- Two functions wait before the group, inside another group. -/
def waitingFunctions : List Token :=
  [⟨.number, "1".toList, 0⟩, ⟨.operator, "-".toList, 1⟩, ⟨.parenthesis, "(".toList, 2⟩,
    ⟨.identifier, "neg".toList, 3⟩, ⟨.identifier, "sin".toList, 7⟩]

def powerBehind : List Token :=
  [⟨.operator, "^".toList, 0⟩, ⟨.number, "2".toList, 1⟩, ⟨.parenthesis, ")".toList, 2⟩]

theorem ofTokens_enclosed_functions :
    (∀ t ∈ waitingFunctions, t.Proper) ∧ (∀ t ∈ powerBehind, t.Proper) ∧
      Balanced (waitingFunctions ++ powerBehind) ∧
      ∃ front back, (front ++ back).map Token.text =
          ["1".toList, "sin".toList, "neg".toList, "2".toList, "^".toList, "-".toList] ∧
        ∀ mid group out, Encloses mid group → ofTokens mid = .ok out →
          ofTokens (waitingFunctions ++ group ++ powerBehind) = .ok (front ++ out ++ back) := by
  have hscan : scan .infixed "1-(neg sin".toList = .ok waitingFunctions := by decide +kernel
  have hscan' : scan .infixed "^2)".toList = .ok powerBehind := by decide +kernel
  have hpre := proper_of_scan hscan
  have hpost := proper_of_scan hscan'
  have hb : Balanced (waitingFunctions ++ powerBehind) := by decide
  obtain ⟨front, back, hok⟩ := (ofTokens_enclosed hpre hpost).2.1 hb
  refine ⟨hpre, hpost, hb, front, back, ?_, hok⟩
  have hempty : (ofTokens (waitingFunctions ++ emptyGroup ++ powerBehind)).map (·.map Token.text) =
      .ok ["1".toList, "sin".toList, "neg".toList, "2".toList, "^".toList, "-".toList] := by decide +kernel
  rw [hok [] emptyGroup [] encloses_emptyGroup rfl, List.append_nil, map_ok] at hempty
  exact Except.ok.inj hempty

end Rpn

end Reckoner
