import Reckoner.Proofs.Faults
import Reckoner.Tree

/-!
# Trees on the stack

Tokens that can be applied spell trees in post-order, one for each value on the stack: a number is a
tree, a function takes the tree on top, an operator the two on top. So the tokens of a single value are
the post-order of one tree, and the value is that of the tree.
-/

namespace Reckoner

namespace Rules

section
variable {rules : Rules} {t : Token}

/-! ## One token -/

theorem apply_number (hk : t.kind = .number) (values : List Float) :
    rules.apply t values = t.value.map (· :: values) := by
  unfold apply
  rw [hk]

theorem apply_identifier (hk : t.kind = .identifier) (x : Float) (below : List Float) :
    rules.apply t (x :: below) = (rules.call t.text x).map (· :: below) := by
  unfold apply
  rw [hk]
  dsimp only
  by_cases hn : (Function.ofText? t.text).isNone
  · rw [if_pos hn, call, Option.isNone_iff_eq_none.mp hn]
    rfl
  · rw [if_neg hn]

theorem apply_operator (hk : t.kind = .operator) (a b : Float) (below : List Float) :
    rules.apply t (b :: a :: below) = (rules.combine t.text a b).map (· :: below) := by
  unfold apply
  rw [hk]

theorem apply_eq_ok {values values' : List Float} (h : rules.apply t values = .ok values') :
    (t.kind = .number ∧ ∃ x, t.value = .ok x ∧ values' = x :: values) ∨
    (t.kind = .identifier ∧ ∃ x below y, values = x :: below ∧ rules.call t.text x = .ok y ∧
      values' = y :: below) ∨
    (t.kind = .operator ∧ ∃ a b below x, values = b :: a :: below ∧ rules.combine t.text a b = .ok x ∧
      values' = x :: below) := by
  cases hk : t.kind with
  | number =>
    rw [apply_number hk] at h
    obtain ⟨x, hx, rfl⟩ := map_eq_ok_iff.mp h
    exact Or.inl ⟨rfl, x, hx, rfl⟩
  | identifier =>
    cases values with
    | nil =>
      unfold apply at h
      rw [hk] at h
      dsimp only at h
      split at h <;> cases h
    | cons x below =>
      rw [apply_identifier hk] at h
      obtain ⟨y, hy, rfl⟩ := map_eq_ok_iff.mp h
      exact Or.inr (Or.inl ⟨rfl, x, below, y, rfl, hy, rfl⟩)
  | operator =>
    match values, h with
    | [], h => simp [apply, hk] at h
    | [_], h => simp [apply, hk] at h
    | b :: a :: below, h =>
      rw [apply_operator hk] at h
      obtain ⟨x, hx, rfl⟩ := map_eq_ok_iff.mp h
      exact Or.inr (Or.inr ⟨rfl, a, b, below, x, rfl, hx, rfl⟩)
  | parenthesis => simp [apply, hk] at h

end

end Rules

/-! ## Bare trees -/

namespace Tree

/-- Every token is of the kind of its place, and there are no groups. -/
inductive Bare : Tree → Prop
  | number {t} : t.kind = .number → Bare (number t)
  | call {f x} : f.kind = .identifier → Bare x → Bare (call f x)
  | binary {l o r} : o.kind = .operator → Bare l → Bare r → Bare (binary l o r)

theorem bare_bare {t : Tree} (h : t.Formed) : t.bare.Bare := by
  induction h with
  | number hk => exact .number hk
  | call hk _ _ _ ih => exact .call hk ih
  | binary hk _ _ _ _ _ ihl ihr => exact .binary hk ihl ihr
  | group _ _ _ _ _ ih => exact ih

/-! ## One tree for a post-order -/

def root : Tree → Token
  | number t => t
  | call f _ => f
  | binary _ o _ => o
  | group _ t _ => root t

def operands : Tree → List Token
  | number _ => []
  | call _ x => rpn x
  | binary l _ r => rpn l ++ rpn r
  | group _ t _ => operands t

theorem operands_append_root (t : Tree) : t.operands ++ [t.root] = t.rpn := by
  induction t with
  | group a t b ih => exact ih
  | _ => rfl

theorem append_operands_inj {t u : Tree} {front front' : List Token} (h : front ++ t.rpn = front' ++ u.rpn) :
    front ++ t.operands = front' ++ u.operands ∧ t.root = u.root := by
  rw [← operands_append_root t, ← operands_append_root u, ← List.append_assoc, ← List.append_assoc] at h
  exact List.append_singleton_inj.mp h

/-- A list that ends in the post-order of a tree ends in that of no other: the last token is the root, and
the subtrees end right before it, the last of them first. -/
theorem append_rpn_inj {t : Tree} (ht : t.Bare) :
    ∀ {u : Tree} {front front' : List Token}, u.Bare → front ++ t.rpn = front' ++ u.rpn → front = front' ∧ t = u := by
  induction ht with
  | @number t hk =>
    intro u front front' hu h
    obtain ⟨h, rfl : t = u.root⟩ := append_operands_inj h
    cases hu with
    | number _ => exact ⟨List.append_cancel_right h, rfl⟩
    | call hk' _ => cases hk.symm.trans hk'
    | binary hk' _ _ => cases hk.symm.trans hk'
  | @call f x hk _ ih =>
    intro u front front' hu h
    obtain ⟨h, rfl : f = u.root⟩ := append_operands_inj h
    cases hu with
    | number hk' => cases hk.symm.trans hk'
    | call _ hy =>
      obtain ⟨rfl, rfl⟩ := ih hy h
      exact ⟨rfl, rfl⟩
    | binary hk' _ _ => cases hk.symm.trans hk'
  | @binary l o r hk _ _ ihl ihr =>
    intro u front front' hu h
    obtain ⟨h, rfl : o = u.root⟩ := append_operands_inj h
    cases hu with
    | number hk' => cases hk.symm.trans hk'
    | call hk' _ => cases hk.symm.trans hk'
    | binary _ hl hr =>
      rw [operands, operands, ← List.append_assoc, ← List.append_assoc] at h
      obtain ⟨hfront, rfl⟩ := ihr hr h
      obtain ⟨rfl, rfl⟩ := ihl hl hfront
      exact ⟨rfl, rfl⟩

theorem rpn_inj {t u : Tree} (ht : t.Bare) (hu : u.Bare) (h : t.rpn = u.rpn) : t = u := by
  have hboth : [] ++ t.rpn = [] ++ u.rpn := h
  exact (append_rpn_inj ht hu hboth).2

/-! ## The value of a post-order -/

variable (rules : Rules)

/-- Applying a tree's tokens puts its value on the values below, or ends with its fault. -/
theorem foldlM_rpn {t : Tree} (h : t.Bare) :
    ∀ (rest : List Token) (values : List Float),
      (t.rpn ++ rest).foldlM (fun values t => rules.apply t values) values =
        t.value rules >>= fun x => rest.foldlM (fun values t => rules.apply t values) (x :: values) := by
  induction h with
  | number hk =>
    intro rest values
    rw [rpn, List.singleton_append, List.foldlM_cons, Rules.apply_number hk, bind_map]
    rfl
  | call hk _ ih =>
    intro rest values
    rw [rpn, List.append_assoc, ih, value, bind_assoc]
    congr 1
    funext y
    rw [List.singleton_append, List.foldlM_cons, Rules.apply_identifier hk, bind_map]
  | binary hk _ _ ihl ihr =>
    intro rest values
    rw [rpn, List.append_assoc, List.append_assoc, ihl, value, bind_assoc]
    congr 1
    funext a
    rw [ihr, bind_assoc]
    congr 1
    funext b
    rw [List.singleton_append, List.foldlM_cons, Rules.apply_operator hk, bind_map]

theorem evaluateRpn_of_bare {t : Tree} (h : t.Bare) : rules.evaluateRpn t.rpn = t.value rules := by
  have hfold := foldlM_rpn rules h [] []
  rw [List.append_nil] at hfold
  unfold Rules.evaluateRpn
  rw [hfold, bind_assoc]
  cases t.value rules <;> rfl

theorem value_ne_invalid {t : Tree} (ht : t.Bare) : t.value rules ≠ .error .invalid := by
  induction ht with
  | number hk =>
    intro h
    rcases value_eq_error hk h with h | ⟨h, -⟩ <;> cases h
  | call _ _ ih =>
    intro h
    rcases bind_eq_error_iff.mp h with h | ⟨y, -, h⟩
    · exact ih h
    · rcases Rules.call_eq_error h with h | ⟨reason, h⟩ <;> cases h
  | binary _ _ _ ihl ihr =>
    intro h
    rcases bind_eq_error_iff.mp h with h | ⟨a, -, h⟩
    · exact ihl h
    · rcases bind_eq_error_iff.mp h with h | ⟨b, -, h⟩
      · exact ihr h
      · rcases Rules.combine_eq_error h with ⟨h, -⟩ | ⟨reason, h⟩ <;> cases h

end Tree

/-! ## Stacks of trees -/

namespace Rules

/-- The tokens spell a bare tree for each value, that of the value at the bottom first. -/
inductive Spells (rules : Rules) : List Token → List Float → Prop
  | nil : Spells rules [] []
  | push {tokens : List Token} {values : List Float} {t : Tree} {x : Float} : Spells rules tokens values →
      t.Bare → t.value rules = .ok x → Spells rules (tokens ++ t.rpn) (x :: values)

section
variable {rules : Rules}

theorem spells_cons {tokens : List Token} {x : Float} {values : List Float}
    (h : Spells rules tokens (x :: values)) :
    ∃ (front : List Token) (t : Tree), tokens = front ++ t.rpn ∧ Spells rules front values ∧ t.Bare ∧ t.value rules = .ok x := by
  cases h with
  | push hs ht hx => exact ⟨_, _, rfl, hs, ht, hx⟩

/-- One token more: a tree of its own, or the root of one over the trees on top. -/
theorem spells_apply {tokens : List Token} {t : Token} {values values' : List Float}
    (hs : Spells rules tokens values) (h : rules.apply t values = .ok values') :
    Spells rules (tokens ++ [t]) values' := by
  rcases apply_eq_ok h with ⟨hk, x, hx, rfl⟩ | ⟨hk, x, below, y, rfl, hy, rfl⟩ | ⟨hk, a, b, below, x, rfl, hx, rfl⟩
  · exact .push (t := .number t) hs (.number hk) hx
  · obtain ⟨front, s, rfl, hfront, hs, hvalue⟩ := spells_cons hs
    rw [List.append_assoc]
    refine .push (t := .call t s) hfront (.call hk hs) ?_
    rw [Tree.value, hvalue]
    exact hy
  · obtain ⟨middle, r, rfl, hmiddle, hr, hvalue⟩ := spells_cons hs
    obtain ⟨front, l, rfl, hfront, hl, hvalue'⟩ := spells_cons hmiddle
    rw [List.append_assoc, List.append_assoc]
    have hrpn : (Tree.binary l t r).rpn = l.rpn ++ (r.rpn ++ [t]) := List.append_assoc ..
    rw [← hrpn]
    refine .push hfront (.binary hk hl hr) ?_
    rw [Tree.value, hvalue', hvalue]
    exact hx

theorem spells_foldlM {tokens more : List Token} {values values' : List Float} (hs : Spells rules tokens values)
    (h : more.foldlM (fun values t => rules.apply t values) values = .ok values') :
    Spells rules (tokens ++ more) values' := by
  induction more generalizing tokens values with
  | nil =>
    cases h
    rw [List.append_nil]
    exact hs
  | cons t more ih =>
    rw [List.foldlM_cons] at h
    obtain ⟨next, hnext, hrest⟩ := bind_eq_ok_iff.mp h
    rw [← List.singleton_append, ← List.append_assoc]
    exact ih (spells_apply hs hnext) hrest

/-- Tokens with a value are the post-order of a tree with that value. -/
theorem exists_tree_of_evaluateRpn {tokens : List Token} {x : Float} (h : rules.evaluateRpn tokens = .ok x) :
    ∃ t : Tree, t.Bare ∧ t.rpn = tokens ∧ t.value rules = .ok x := by
  obtain ⟨values, hfold, hsingle⟩ := bind_eq_ok_iff.mp h
  have hs := spells_foldlM .nil hfold
  rw [single_eq_ok_iff.mp hsingle] at hs
  obtain ⟨front, t, htokens, hfront, ht, hx⟩ := spells_cons hs
  cases hfront
  exact ⟨t, ht, htokens.symm, hx⟩

end

end Rules

end Reckoner
