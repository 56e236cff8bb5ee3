import Reckoner.Proofs.Lexical

/-!
# Longest numerals

The leading numeral of a text is the longest of all numerals that the text starts
with, and it is empty where the text starts with none.
-/

namespace Reckoner

def StartsNumeral (t : Text) : Prop := ∃ u, IsNumeral u ∧ u <+: t

/-- A numeral at the start of a text that no longer one starts. -/
structure IsLongestNumeral (u t : Text) : Prop where
  numeral : IsNumeral u
  starts : u <+: t
  longest : ∀ v, IsNumeral v → v <+: t → v.length ≤ u.length

theorem IsLongestNumeral.unique {u v t : Text} (hu : IsLongestNumeral u t) (hv : IsLongestNumeral v t) : u = v :=
  (List.prefix_of_prefix_length_le hu.starts hv.starts (hv.longest u hu.numeral hu.starts)).eq_of_length_le
    (hu.longest v hv.numeral hv.starts)

theorem getLast?_ne_point {u : Text} (h : IsNumeral u) : u.getLast? ≠ some '.' := by
  obtain ⟨whole, point, places, rfl, -, -, hne, hp⟩ := h
  intro hlast
  rw [← List.append_assoc, List.getLast?_append, List.getLast?_eq_some_getLast hne, Option.some_or] at hlast
  have hdigit := hp _ (List.getLast_mem hne)
  rw [Option.some.inj hlast] at hdigit
  exact absurd hdigit (by decide)

theorem IsNumeral.snoc {u : Text} (h : IsNumeral u) {c : Char} (hc : isDigit c = true) : IsNumeral (u ++ [c]) := by
  obtain ⟨whole, point, places, rfl, hw, hpoint, -, hp⟩ := h
  refine ⟨whole, point, places ++ [c], by simp, hw, hpoint, by simp, ?_⟩
  exact List.forall_mem_append.mpr ⟨hp, List.forall_mem_singleton.mpr hc⟩

/-- A digit behind the longest numeral would make a longer one. -/
theorem IsLongestNumeral.not_isDigit {u t : Text} (h : IsLongestNumeral u t) {c : Char}
    (hc : t[u.length]? = some c) : isDigit c = false := by
  refine Bool.eq_false_iff.mpr fun hd => ?_
  obtain ⟨rest, rfl⟩ := h.starts
  rw [List.getElem?_append_right (Nat.le_refl _), Nat.sub_self] at hc
  cases rest with
  | nil => cases hc
  | cons d rest =>
    cases hc
    have hlonger := h.longest (u ++ [c]) (h.numeral.snoc hd) ⟨rest, by simp⟩
    rw [List.length_append] at hlonger
    exact absurd hlonger (by simp)

theorem takeWhile_prefix_leadingNumeral (t : Text) : t.takeWhile isDigit <+: leadingNumeral t := by
  rcases leadingNumeral_cases t with ⟨rest, -, -, he⟩ | ⟨-, he⟩
  · exact ⟨_, he.symm⟩
  · exact he ▸ List.prefix_rfl

theorem length_le_leadingNumeral {u t : Text} (hu : IsNumeral u) (ht : u <+: t) :
    u.length ≤ (leadingNumeral t).length := by
  obtain ⟨whole, point, places, rfl, hw, rfl | rfl, hne, hp⟩ := hu
  · -- Digits alone are among the leading digits.
    obtain ⟨rest, rfl⟩ := ht
    have hall : ∀ c ∈ whole ++ ([] ++ places), isDigit c = true := by
      intro c hc
      rcases List.mem_append.mp hc with hc | hc
      · exact hw c hc
      · exact hp c hc
    refine Nat.le_trans ?_ (takeWhile_prefix_leadingNumeral _).length_le
    rw [List.takeWhile_append_of_pos hall]
    exact (List.prefix_append _ _).length_le
  · obtain ⟨rest, rfl⟩ := ht
    have hsplit : whole ++ (['.'] ++ places) ++ rest = whole ++ '.' :: (places ++ rest) := by simp
    obtain ⟨htake, hdrop⟩ := takeWhile_append_stop (r := '.' :: (places ++ rest)) hw
      (by intro c hc; cases hc; decide)
    have hplaces : (places ++ rest).takeWhile isDigit = places ++ rest.takeWhile isDigit :=
      List.takeWhile_append_of_pos hp
    rw [hsplit]
    rcases leadingNumeral_cases (whole ++ '.' :: (places ++ rest)) with ⟨rest', hr, -, he⟩ | ⟨hnone, -⟩
    · cases hdrop.symm.trans hr
      rw [he, htake, hplaces]
      simp
    · have hnil := hnone _ hdrop
      rw [hplaces] at hnil
      exact absurd (List.append_eq_nil_iff.mp hnil).1 hne

theorem isLongestNumeral_leadingNumeral {t : Text} (h : leadingNumeral t ≠ []) :
    IsLongestNumeral (leadingNumeral t) t :=
  ⟨isNumeral_leadingNumeral h, isPrefix_leadingNumeral t, fun _ => length_le_leadingNumeral⟩

theorem leadingNumeral_ne_nil_iff {t : Text} : leadingNumeral t ≠ [] ↔ StartsNumeral t := by
  constructor
  · intro h
    exact ⟨_, isNumeral_leadingNumeral h, isPrefix_leadingNumeral t⟩
  · rintro ⟨u, hu, ht⟩ hnil
    have hlength := length_le_leadingNumeral hu ht
    rw [hnil] at hlength
    exact ne_nil_of_isNumeral hu (List.eq_nil_of_length_eq_zero (Nat.le_zero.mp hlength))

theorem IsLongestNumeral.eq_leadingNumeral {u t : Text} (h : IsLongestNumeral u t) : u = leadingNumeral t :=
  h.unique (isLongestNumeral_leadingNumeral (leadingNumeral_ne_nil_iff.mpr ⟨u, h.numeral, h.starts⟩))

end Reckoner
