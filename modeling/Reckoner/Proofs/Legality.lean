import Reckoner.Proofs.Numerals
import Reckoner.Proofs.RoundTrip

/-!
# Legal texts

Whether a text can be scanned is a matter of its single characters and of what stands
behind its points, in either order: no token, no sign and no choice between rules
matters. A scan that fails names the first place that is bad.
-/

namespace Reckoner

/-! ## Bad places -/

/-- The characters that tokens are made of. -/
def isLegal (c : Char) : Bool := isDigit c || isLetter c || "+-*/^().".toList.contains c

/-- A character that is in no token and not blank, or a point with no digit behind it. -/
def Unreadable (c : Char) (next : Option Char) : Prop :=
  isBlank c = false ∧ isLegal c = false ∨ c = '.' ∧ ∀ d ∈ next, isDigit d = false

def BadAt (e : Text) (i : Nat) : Prop := ∃ c, e[i]? = some c ∧ Unreadable c e[i + 1]?

/-- A bad place with its character, and no bad place before it. -/
structure FirstBad (e : Text) (i : Nat) (c : Char) : Prop where
  here : e[i]? = some c
  bad : BadAt e i
  first : ∀ j < i, ¬ BadAt e j

theorem badAt_zero_iff {c : Char} {rest : Text} : BadAt (c :: rest) 0 ↔ Unreadable c rest.head? := by
  simp [BadAt, List.head?_eq_getElem?]

theorem badAt_append_iff {u t : Text} {i : Nat} : BadAt (u ++ t) (u.length + i) ↔ BadAt t i := by
  have hnext : (u ++ t)[u.length + i + 1]? = t[i + 1]? := by
    rw [Nat.add_assoc, List.getElem?_append_right (by omega), Nat.add_sub_cancel_left]
  have hhere : (u ++ t)[u.length + i]? = t[i]? := by
    rw [List.getElem?_append_right (by omega), Nat.add_sub_cancel_left]
  unfold BadAt
  rw [hnext, hhere]

theorem exists_firstBad {e : Text} {i : Nat} (h : BadAt e i) : ∃ j c, FirstBad e j c := by
  classical
  have hex : ∃ j, BadAt e j := ⟨i, h⟩
  obtain ⟨c, hc, -⟩ := Nat.find_spec hex
  exact ⟨Nat.find hex, c, hc, Nat.find_spec hex, fun j hj => Nat.find_min hex hj⟩

theorem FirstBad.unique {e : Text} {i j : Nat} {c d : Char} (hi : FirstBad e i c) (hj : FirstBad e j d) :
    i = j ∧ c = d := by
  have hij : i = j := by
    rcases Nat.lt_trichotomy i j with h | h | h
    · exact absurd hi.bad (hj.first i h)
    · exact h
    · exact absurd hj.bad (hi.first j h)
  subst hij
  exact ⟨rfl, Option.some.inj (hi.here.symm.trans hj.here)⟩

/-- Where no place of a first part is bad, the first bad place is that of the rest. -/
theorem firstBad_of_append {u t : Text} {i : Nat} {c : Char} (hu : ∀ j < u.length, ¬ BadAt (u ++ t) j)
    (h : FirstBad (u ++ t) i c) : ∃ k, i = u.length + k ∧ FirstBad t k c := by
  have hle : u.length ≤ i := by
    by_contra hlt
    exact hu i (by omega) h.bad
  obtain ⟨k, rfl⟩ := Nat.exists_eq_add_of_le hle
  refine ⟨k, rfl, ?_, badAt_append_iff.mp h.bad, ?_⟩
  · have hhere := h.here
    rw [List.getElem?_append_right hle, Nat.add_sub_cancel_left] at hhere
    exact hhere
  · intro j hj hbad
    exact h.first (u.length + j) (by omega) (badAt_append_iff.mpr hbad)

/-! ## Inside a token -/

theorem isLegal_of_language {k : Kind} {t : Text} (h : k.Language t) : ∀ c ∈ t, isLegal c = true := by
  cases k with
  | number =>
    have hlegal : ∀ c ∈ numeralCharacters, isLegal c = true := List.all_eq_true.mp (by decide)
    exact fun c hc => hlegal c (mem_numeralCharacters h c hc)
  | identifier =>
    intro c hc
    simp [isLegal, h.2 c hc]
  | operator =>
    obtain ⟨o, rfl⟩ := h
    exact List.forall_mem_singleton.mpr (by cases o <;> decide)
  | parenthesis => rcases h with rfl | rfl <;> exact List.forall_mem_singleton.mpr (by decide)

/-- A point in a numeral has its places behind it. -/
theorem digit_behind_point {t before after : Text} (h : IsNumeral t) (ht : t = before ++ '.' :: after) :
    ∃ d rest, after = d :: rest ∧ isDigit d = true := by
  obtain ⟨whole, point, places, rfl, hw, hpoint, hne, hp⟩ := h
  have hwhole : '.' ∉ whole := fun hc => absurd (hw '.' hc) (by decide)
  have hplaces : '.' ∉ places := fun hc => absurd (hp '.' hc) (by decide)
  rcases hpoint with rfl | rfl
  · have hmem : '.' ∈ whole ++ ([] ++ places) := by rw [ht]; simp
    simp [hwhole, hplaces] at hmem
  · obtain ⟨-, -, rfl⟩ := (List.append_cons_inj_of_notMem hwhole hplaces).mp ht
    cases places with
    | nil => exact absurd rfl hne
    | cons d rest => exact ⟨d, rest, rfl, hp d List.mem_cons_self⟩

theorem digit_behind_point_of_language {k : Kind} {t before after : Text} (h : k.Language t)
    (ht : t = before ++ '.' :: after) : ∃ d rest, after = d :: rest ∧ isDigit d = true := by
  have hmem : '.' ∈ t := by rw [ht]; simp
  cases k with
  | number =>
    obtain ⟨body, hb, rfl | rfl⟩ := h
    · exact digit_behind_point hb ht
    · cases before with
      | nil => cases ht
      | cons c before => exact digit_behind_point hb (List.cons.inj ht).2
  | identifier => exact absurd (h.2 '.' hmem) (by decide)
  | operator =>
    obtain ⟨o, rfl⟩ := h
    cases o <;> exact absurd hmem (by decide)
  | parenthesis => rcases h with rfl | rfl <;> exact absurd hmem (by decide)

/-- No place in a token is bad, whatever follows the token. -/
theorem not_badAt_of_language {k : Kind} {t : Text} (h : k.Language t) (rest : Text) :
    ∀ j < t.length, ¬ BadAt (t ++ rest) j := by
  rintro j hj ⟨c, hc, hbad⟩
  rw [List.getElem?_append_left hj, List.getElem?_eq_getElem hj] at hc
  cases hc
  have hsplit : t = t.take j ++ t[j] :: t.drop (j + 1) := by simp
  rcases hbad with ⟨-, hillegal⟩ | ⟨hpoint, hnext⟩
  · rw [isLegal_of_language h _ (List.getElem_mem hj)] at hillegal
    cases hillegal
  · rw [hpoint] at hsplit
    obtain ⟨d, more, hafter, hd⟩ := digit_behind_point_of_language h hsplit
    have hget : t[j + 1]? = some d := by rw [← List.head?_drop, hafter]; rfl
    have hlt : j + 1 < t.length := (List.getElem?_eq_some_iff.mp hget).1
    rw [List.getElem?_append_left hlt, hget] at hnext
    rw [hnext d rfl] at hd
    cases hd

/-! ## Where no token starts -/

theorem leadingNumeral_ne_nil_of_digit {c : Char} (h : isDigit c = true) (rest : Text) :
    leadingNumeral (c :: rest) ≠ [] :=
  leadingNumeral_ne_nil_iff.mpr ⟨[c], isNumeral_of_digits (by simp) (by simp [h]), rest, rfl⟩

theorem leadingNumeral_ne_nil_of_point {d : Char} (h : isDigit d = true) (rest : Text) :
    leadingNumeral ('.' :: d :: rest) ≠ [] :=
  leadingNumeral_ne_nil_iff.mpr
    ⟨['.', d], ⟨[], ['.'], [d], rfl, by simp, Or.inr rfl, by simp, by simp [h]⟩, rest, rfl⟩

theorem isLegal_cases {c : Char} (h : isLegal c = true) :
    isDigit c = true ∨ isLetter c = true ∨ isSymbol c = true ∨ isParenthesis c = true ∨ c = '.' := by
  simp only [isLegal, Bool.or_eq_true] at h
  rcases h with (hd | hl) | hm
  · exact Or.inl hd
  · exact Or.inr (Or.inl hl)
  · have hmarks : ∀ m ∈ "+-*/^().".toList, isSymbol m = true ∨ isParenthesis m = true ∨ m = '.' :=
      List.all_iff_forall_prop.mp (by decide)
    exact Or.inr (Or.inr (hmarks c (List.contains_iff_mem.mp hm)))

theorem lexeme?_eq_none {sign : Bool} {c : Char} {rest : Text} (h : lexeme? sign (c :: rest) = none) :
    leadingNumeral (c :: rest) = [] ∧ isLetter c = false ∧ isSymbol c = false ∧ isParenthesis c = false := by
  unfold lexeme? at h
  by_cases hn : leadingNumeral (c :: rest) = []
  · rw [if_neg (by simp [hn])] at h
    by_cases hletter : isLetter c = true
    · simp [hletter] at h
    by_cases hminus : c = '-' ∧ sign = true ∧ leadingNumeral rest ≠ []
    · simp [hminus, isLetter] at h
    by_cases hsymbol : isSymbol c = true
    · simp [hletter, hminus, hsymbol] at h
    by_cases hparenthesis : isParenthesis c = true
    · simp [hletter, hminus, hsymbol, hparenthesis] at h
    exact ⟨hn, by simp [hletter], by simp [hsymbol], by simp [hparenthesis]⟩
  · simp [hn] at h

theorem unreadable_of_lexeme? {sign : Bool} {c : Char} {rest : Text} (hc : isBlank c = false)
    (h : lexeme? sign (c :: rest) = none) : Unreadable c rest.head? := by
  obtain ⟨hnumeral, hletter, hsymbol, hparenthesis⟩ := lexeme?_eq_none h
  by_cases hlegal : isLegal c = true
  · rcases isLegal_cases hlegal with hd | hl | hs | hp | rfl
    · exact absurd hnumeral (leadingNumeral_ne_nil_of_digit hd rest)
    · simp [hletter] at hl
    · simp [hsymbol] at hs
    · simp [hparenthesis] at hp
    · -- A point is left alone only where no digit stands behind it.
      refine Or.inr ⟨rfl, fun d hd => ?_⟩
      cases rest with
      | nil => cases hd
      | cons d' rest =>
        cases hd
        by_contra hdigit
        exact leadingNumeral_ne_nil_of_point (by simpa using hdigit) rest hnumeral
  · exact Or.inl ⟨hc, by simpa using hlegal⟩

theorem not_badAt_blank {c : Char} (h : isBlank c = true) (rest : Text) :
    ∀ j < [c].length, ¬ BadAt ([c] ++ rest) j := by
  intro j hj hbad
  obtain rfl : j = 0 := by simpa using hj
  rcases badAt_zero_iff.mp hbad with ⟨hblank, -⟩ | ⟨rfl, -⟩
  · rw [h] at hblank
    cases hblank
  · exact absurd h (by decide)

/-! ## Scans -/

theorem exists_scanFrom {order : Order} {previous : Option Token} {position : Nat} {t : Text}
    (h : ∀ i, ¬ BadAt t i) : ∃ tokens, scanFrom order previous position 0 t = .ok tokens := by
  induction previous, position, t using scanFrom_induction order with
  | nil previous position => exact ⟨[], rfl⟩
  | blank previous position c rest hc ih =>
    rw [scanFrom_blank hc]
    exact ih fun i hbad => h (1 + i) (badAt_append_iff (u := [c]).mpr hbad)
  | unexpected previous position c rest hc hl =>
    exact absurd (badAt_zero_iff.mpr (unreadable_of_lexeme? hc hl)) (h 0)
  | lexeme previous position c rest kind text hc hl ih =>
    obtain ⟨behind, hbehind⟩ := isPrefix_of_lexeme? hl
    obtain ⟨more, hmore⟩ := ih fun i hbad => by
      rw [← hbehind, List.drop_left] at hbad
      exact h (text.length + i) (by rw [← hbehind]; exact badAt_append_iff.mpr hbad)
    exact ⟨_, by rw [scanFrom_lexeme hc hl, hmore]; rfl⟩

theorem scanFrom_of_firstBad {order : Order} {previous : Option Token} {position : Nat} {t : Text} {i : Nat}
    {bad : Char} (h : FirstBad t i bad) :
    scanFrom order previous position 0 t = .error (.unexpected bad (position + i)) := by
  induction previous, position, t using scanFrom_induction order generalizing i with
  | nil previous position => cases h.here
  | blank previous position c rest hc ih =>
    obtain ⟨k, rfl, hk⟩ := firstBad_of_append (u := [c]) (not_badAt_blank hc rest) h
    rw [scanFrom_blank hc, ih hk, Nat.add_assoc]
    rfl
  | unexpected previous position c rest hc hl =>
    have hzero : FirstBad (c :: rest) 0 c :=
      ⟨rfl, badAt_zero_iff.mpr (unreadable_of_lexeme? hc hl), fun j hj => absurd hj (Nat.not_lt_zero j)⟩
    obtain ⟨rfl, rfl⟩ := h.unique hzero
    rw [scanFrom_unexpected hc hl]
    rfl
  | lexeme previous position c rest kind text hc hl ih =>
    obtain ⟨behind, hbehind⟩ := isPrefix_of_lexeme? hl
    rw [← hbehind] at h
    obtain ⟨k, rfl, hk⟩ := firstBad_of_append (not_badAt_of_language (language_of_lexeme? hl) behind) h
    rw [scanFrom_lexeme hc hl, ih (by rw [← hbehind, List.drop_left]; exact hk), Nat.add_assoc]
    rfl

theorem scan_of_firstBad {e : Text} {i : Nat} {c : Char} (h : FirstBad e i c) (order : Order) :
    scan order e = .error (.unexpected c i) := by
  rw [scan, scanFrom_of_firstBad h, Nat.zero_add]

theorem exists_scan_iff {order : Order} {e : Text} : (∃ tokens, scan order e = .ok tokens) ↔ ∀ i, ¬ BadAt e i := by
  refine ⟨?_, exists_scanFrom⟩
  rintro ⟨tokens, htokens⟩ i hbad
  obtain ⟨j, c, hj⟩ := exists_firstBad hbad
  rw [scan_of_firstBad hj order] at htokens
  cases htokens

theorem scan_eq_error_iff {order : Order} {e : Text} {fault : Fault} :
    scan order e = .error fault ↔ ∃ i c, FirstBad e i c ∧ fault = .unexpected c i := by
  constructor
  · intro h
    have hbad : ∃ i, BadAt e i := by
      by_contra hnone
      obtain ⟨tokens, htokens⟩ := exists_scan_iff.mpr (not_exists.mp hnone)
      rw [htokens] at h
      cases h
    obtain ⟨i, hi⟩ := hbad
    obtain ⟨j, c, hj⟩ := exists_firstBad hi
    rw [scan_of_firstBad hj order] at h
    cases h
    exact ⟨j, c, hj, rfl⟩
  · rintro ⟨i, c, hi, rfl⟩
    exact scan_of_firstBad hi order

/-- A scan gives tokens exactly where no place is bad, and otherwise fails at the first bad place: in
either order, so both orders fail together and alike. -/
theorem scan_eq_error_iff_firstBad (e : Text) :
    (∀ order, (∃ tokens, scan order e = .ok tokens) ↔ ∀ i, ¬ BadAt e i) ∧
    (∀ order fault, scan order e = .error fault ↔ ∃ i c, FirstBad e i c ∧ fault = .unexpected c i) ∧
    ∀ fault, scan .infixed e = .error fault ↔ scan .reversed e = .error fault := by
  refine ⟨fun order => exists_scan_iff, fun order fault => scan_eq_error_iff, fun fault => ?_⟩
  rw [scan_eq_error_iff, scan_eq_error_iff]

end Reckoner
