import Reckoner.Proofs.RoundTrip
import Reckoner.Proofs.TreeOrder

/-!
# The tree behind a reverse Polish text

A text in reverse Polish order has no parentheses, and needs none: a scan gives its tokens back, and these
are the post-order of one tree. So two expressions have the same text exactly when they are the same tree
apart from their groups.
-/

namespace Reckoner

/-! ## Texts -/

theorem map_text_of_content {tokens more : List Token} (h : tokens.map Token.content = more.map Token.content) :
    tokens.map Token.text = more.map Token.text := by
  have htext : Token.text = Prod.snd ∘ Token.content := rfl
  rw [htext, ← List.map_map, ← List.map_map, h]

theorem render_eq_iff {tokens more : List Token} (h : ∀ t ∈ tokens, t.Lexical) (h' : ∀ t ∈ more, t.Lexical) :
    Token.render tokens = Token.render more ↔ tokens.map Token.content = more.map Token.content := by
  constructor
  · intro hsame
    have hscan := scanFrom_render h none 0
    rw [hsame, scanFrom_render h' none 0] at hscan
    rw [← map_content_placed 0 tokens, ← map_content_placed 0 more, Except.ok.inj hscan]
  · intro hcontent
    rw [Token.render, Token.render, map_text_of_content hcontent]

namespace Tree

/-! ## Trees without positions -/

def unplaced : Tree → Tree
  | number t => number t.unplaced
  | call f x => call f.unplaced (unplaced x)
  | binary l o r => binary (unplaced l) o.unplaced (unplaced r)
  | group a t b => group a.unplaced (unplaced t) b.unplaced

theorem rpn_unplaced (t : Tree) : t.unplaced.rpn = t.rpn.map Token.unplaced := by
  induction t with
  | number t => rfl
  | call f x ih => simp [unplaced, rpn, ih]
  | binary l o r ihl ihr => simp [unplaced, rpn, ihl, ihr]
  | group a t b ih => exact ih

theorem bare_unplaced {t : Tree} (h : t.Bare) : t.unplaced.Bare := by
  induction h with
  | number hk => exact .number hk
  | call hk _ ih => exact .call hk ih
  | binary hk _ _ ihl ihr => exact .binary hk ihl ihr

/-- The post-order of a tree tells the tree, groups apart, and the positions of its tokens tell nothing else. -/
theorem rpn_content_iff {t u : Tree} (ht : t.Formed) (hu : u.Formed) :
    t.rpn.map Token.content = u.rpn.map Token.content ↔ t.bare.unplaced = u.bare.unplaced := by
  rw [← map_unplaced_eq_iff, ← rpn_bare t, ← rpn_bare u, ← rpn_unplaced, ← rpn_unplaced]
  constructor
  · exact rpn_inj (bare_unplaced (bare_bare ht)) (bare_unplaced (bare_bare hu))
  · intro h
    rw [h]

theorem lexical_rpn {t : Tree} (ht : t.Formed) (hl : ∀ k ∈ t.flat, k.Lexical) : ∀ k ∈ t.rpn, k.Lexical :=
  fun k hk => hl k (Rpn.mem_of_ofTokens (ofTokens_flat ht) k hk)

/-! ## The text of a tree -/

/-- Formed trees have a reverse Polish text each, which is the same exactly for the trees that differ in
groups and positions only. -/
theorem render_ofTokens_iff {t u : Tree} (ht : t.Formed) (hu : u.Formed) (htl : ∀ k ∈ t.flat, k.Lexical)
    (hul : ∀ k ∈ u.flat, k.Lexical) :
    ∃ p q, Rpn.ofTokens t.flat = .ok p ∧ Rpn.ofTokens u.flat = .ok q ∧
      (Token.render p = Token.render q ↔ t.bare.unplaced = u.bare.unplaced) := by
  refine ⟨t.rpn, u.rpn, ofTokens_flat ht, ofTokens_flat hu, ?_⟩
  rw [render_eq_iff (lexical_rpn ht htl) (lexical_rpn hu hul)]
  exact rpn_content_iff ht hu

/-- `8--2-1` -/
def leftToRight : Tree :=
  .binary
    (.binary (.number ⟨.number, "8".toList, 0⟩) ⟨.operator, "-".toList, 1⟩ (.number ⟨.number, "-2".toList, 2⟩))
    ⟨.operator, "-".toList, 4⟩ (.number ⟨.number, "1".toList, 5⟩)

/-- `((8)--2)-1` -/
def leftGrouped : Tree :=
  .binary
    (.group ⟨.parenthesis, "(".toList, 0⟩
      (.binary
        (.group ⟨.parenthesis, "(".toList, 1⟩ (.number ⟨.number, "8".toList, 2⟩) ⟨.parenthesis, ")".toList, 3⟩)
        ⟨.operator, "-".toList, 4⟩ (.number ⟨.number, "-2".toList, 5⟩))
      ⟨.parenthesis, ")".toList, 7⟩)
    ⟨.operator, "-".toList, 8⟩ (.number ⟨.number, "1".toList, 9⟩)

/-- `8-(-2-1)` -/
def rightGrouped : Tree :=
  .binary (.number ⟨.number, "8".toList, 0⟩) ⟨.operator, "-".toList, 1⟩
    (.group ⟨.parenthesis, "(".toList, 2⟩
      (.binary (.number ⟨.number, "-2".toList, 3⟩) ⟨.operator, "-".toList, 5⟩ (.number ⟨.number, "1".toList, 6⟩))
      ⟨.parenthesis, ")".toList, 7⟩)

theorem render_ofTokens_iff_minus :
    (∃ p q, Rpn.ofTokens leftToRight.flat = .ok p ∧ Rpn.ofTokens leftGrouped.flat = .ok q ∧
      Token.render p = Token.render q) ∧
    ∃ p q, Rpn.ofTokens leftToRight.flat = .ok p ∧ Rpn.ofTokens rightGrouped.flat = .ok q ∧
      Token.render p ≠ Token.render q := by
  have hplain : leftToRight.Formed := by
    refine .binary (p := .minus) rfl rfl rfl rfl ?_ (.number rfl)
    exact .binary (p := .minus) rfl rfl rfl rfl (.number rfl) (.number rfl)
  have hleft : leftGrouped.Formed := by
    refine .binary (p := .minus) rfl rfl rfl rfl (.group rfl rfl rfl rfl ?_) (.number rfl)
    exact .binary (p := .minus) rfl rfl rfl rfl (.group rfl rfl rfl rfl (.number rfl)) (.number rfl)
  have hright : rightGrouped.Formed := by
    refine .binary (p := .minus) rfl rfl rfl rfl (.number rfl) (.group rfl rfl rfl rfl ?_)
    exact .binary (p := .minus) rfl rfl rfl rfl (.number rfl) (.number rfl)
  have hplain' : scan .infixed "8--2-1".toList = .ok leftToRight.flat := by decide +kernel
  have hleft' : scan .infixed "((8)--2)-1".toList = .ok leftGrouped.flat := by decide +kernel
  have hright' : scan .infixed "8-(-2-1)".toList = .ok rightGrouped.flat := by decide +kernel
  obtain ⟨p, q, hp, hq, hsame⟩ :=
    render_ofTokens_iff hplain hleft (lexical_of_scan hplain') (lexical_of_scan hleft')
  obtain ⟨p', q', hp', hq', hother⟩ :=
    render_ofTokens_iff hplain hright (lexical_of_scan hplain') (lexical_of_scan hright')
  refine ⟨⟨p, q, hp, hq, hsame.mpr ?_⟩, p', q', hp', hq', fun h => absurd (hother.mp h) ?_⟩
  · decide
  · decide

end Tree

end Reckoner
