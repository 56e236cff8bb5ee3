import Reckoner.Proofs.Numerals
import Reckoner.Proofs.RoundTrip

/-!
# Numerals as the first match of a pattern

A search tries the longest run of every class first, and goes back where the rest of the
pattern finds nothing behind it. For the pattern of numerals the first match is the longest
one, and the scanner reads it without going back.
-/

namespace Reckoner

/-! ## Patterns -/

/-- What a text has to start with: characters of a class, or one pattern and behind it another. -/
inductive Pattern
  | one (p : Char → Bool)
  | optional (p : Char → Bool)
  | many (p : Char → Bool)
  | andThen (first second : Pattern)

namespace Pattern

def behindOne (p : Char → Bool) : Text → List Text
  | [] => []
  | c :: rest => if p c then [rest] else []

/-- What stands behind the runs of a class at the start of a text, the longest run first. -/
def behindRun (p : Char → Bool) : Text → List Text
  | [] => [[]]
  | c :: rest => if p c then behindRun p rest ++ [c :: rest] else [c :: rest]

/-- What stands behind the matches at the start of a text, in the order in which a search finds them. -/
def rests : Pattern → Text → List Text
  | one p, t => behindOne p t
  | optional p, t => behindOne p t ++ [t]
  | many p, t => behindRun p t
  | andThen first second, t => (rests first t).flatMap (rests second)

def match? (r : Pattern) (t : Text) : Option Text :=
  (r.rests t).head?.map fun rest => t.take (t.length - rest.length)

def Language : Pattern → Text → Prop
  | one p, u => ∃ c, u = [c] ∧ p c = true
  | optional p, u => u = [] ∨ ∃ c, u = [c] ∧ p c = true
  | many p, u => ∀ c ∈ u, p c = true
  | andThen first second, u => ∃ v w, u = v ++ w ∧ Language first v ∧ Language second w

/-! ## What a search finds -/

theorem mem_behindOne {p : Char → Bool} {t rest : Text} :
    rest ∈ behindOne p t ↔ ∃ c, t = c :: rest ∧ p c = true := by
  cases t with
  | nil => simp [behindOne]
  | cons c t =>
    by_cases hc : p c = true
    · simpa [behindOne, hc] using eq_comm
    · simp [behindOne, hc]

theorem mem_behindRun {p : Char → Bool} {t rest : Text} :
    rest ∈ behindRun p t ↔ ∃ u, (∀ c ∈ u, p c = true) ∧ t = u ++ rest := by
  induction t with
  | nil =>
    simp only [behindRun, List.mem_singleton]
    constructor
    · rintro rfl
      exact ⟨[], by simp, rfl⟩
    · rintro ⟨u, -, hu⟩
      exact (List.append_eq_nil_iff.mp hu.symm).2
  | cons c t ih =>
    by_cases hc : p c = true
    · simp only [behindRun, hc, if_true, List.mem_append, ih, List.mem_singleton]
      constructor
      · rintro (⟨u, hu, rfl⟩ | rfl)
        · exact ⟨c :: u, List.forall_mem_cons.mpr ⟨hc, hu⟩, rfl⟩
        · exact ⟨[], by simp, rfl⟩
      · rintro ⟨u, hu, ht⟩
        cases u with
        | nil => exact Or.inr ht.symm
        | cons d u =>
          cases ht
          exact Or.inl ⟨u, (List.forall_mem_cons.mp hu).2, rfl⟩
    · simp only [behindRun, hc, Bool.false_eq_true, if_false, List.mem_singleton]
      constructor
      · rintro rfl
        exact ⟨[], by simp, rfl⟩
      · rintro ⟨u, hu, ht⟩
        cases u with
        | nil => exact ht.symm
        | cons d u =>
          cases ht
          exact absurd (hu c List.mem_cons_self) hc

/-- A search finds all matches, and nothing else. -/
theorem mem_rests_iff {r : Pattern} {t rest : Text} : rest ∈ r.rests t ↔ ∃ u, r.Language u ∧ t = u ++ rest := by
  induction r generalizing t rest with
  | one p =>
    rw [rests, mem_behindOne]
    constructor
    · rintro ⟨c, rfl, hc⟩
      exact ⟨[c], ⟨c, rfl, hc⟩, rfl⟩
    · rintro ⟨_, ⟨c, rfl, hc⟩, rfl⟩
      exact ⟨c, rfl, hc⟩
  | optional p =>
    rw [rests, List.mem_append, mem_behindOne, List.mem_singleton]
    constructor
    · rintro (⟨c, rfl, hc⟩ | rfl)
      · exact ⟨[c], Or.inr ⟨c, rfl, hc⟩, rfl⟩
      · exact ⟨[], Or.inl rfl, rfl⟩
    · rintro ⟨_, rfl | ⟨c, rfl, hc⟩, rfl⟩
      · exact Or.inr rfl
      · exact Or.inl ⟨c, rfl, hc⟩
  | many p => exact mem_behindRun
  | andThen first second ihf ihs =>
    simp only [rests, List.mem_flatMap, ihf, ihs]
    constructor
    · rintro ⟨_, ⟨v, hv, rfl⟩, w, hw, rfl⟩
      exact ⟨v ++ w, ⟨v, w, rfl, hv, hw⟩, (List.append_assoc ..).symm⟩
    · rintro ⟨_, ⟨v, w, rfl, hv, hw⟩, rfl⟩
      exact ⟨w ++ rest, ⟨v, hv, List.append_assoc ..⟩, w, hw, rfl⟩

theorem match?_eq_none_iff {r : Pattern} {t : Text} : r.match? t = none ↔ ∀ u, r.Language u → ¬ u <+: t := by
  rw [match?, Option.map_eq_none_iff, List.head?_eq_none_iff, List.eq_nil_iff_forall_not_mem]
  constructor
  · rintro h u hu ⟨rest, rfl⟩
    exact h rest (mem_rests_iff.mpr ⟨u, hu, rfl⟩)
  · intro h rest hrest
    obtain ⟨u, hu, rfl⟩ := mem_rests_iff.mp hrest
    exact h u hu (List.prefix_append u rest)

/-! ## The pattern of numerals -/

def digits : Pattern := .andThen (.one isDigit) (.many isDigit)

def places : Pattern := .andThen (.optional (· == '.')) digits

def numeral : Pattern := .andThen (.many isDigit) places

theorem language_digits {u : Text} : digits.Language u ↔ u ≠ [] ∧ ∀ c ∈ u, isDigit c = true := by
  constructor
  · rintro ⟨_, w, rfl, ⟨c, rfl, hc⟩, hw⟩
    exact ⟨List.cons_ne_nil c w, List.forall_mem_cons.mpr ⟨hc, hw⟩⟩
  · rintro ⟨hne, hu⟩
    cases u with
    | nil => exact absurd rfl hne
    | cons c w =>
      obtain ⟨hc, hw⟩ := List.forall_mem_cons.mp hu
      exact ⟨[c], w, rfl, ⟨c, rfl, hc⟩, hw⟩

theorem language_numeral {u : Text} : numeral.Language u ↔ IsNumeral u := by
  constructor
  · rintro ⟨whole, _, rfl, hw, point, places, rfl, hpoint, hplaces⟩
    obtain ⟨hne, hp⟩ := language_digits.mp hplaces
    refine ⟨whole, point, places, rfl, hw, ?_, hne, hp⟩
    rcases hpoint with rfl | ⟨c, rfl, hc⟩
    · exact Or.inl rfl
    · exact Or.inr (by rw [eq_of_beq hc])
  · rintro ⟨whole, point, places, rfl, hw, hpoint, hne, hp⟩
    refine ⟨whole, _, rfl, hw, point, places, rfl, ?_, language_digits.mpr ⟨hne, hp⟩⟩
    rcases hpoint with rfl | rfl
    · exact Or.inl rfl
    · exact Or.inr ⟨'.', rfl, by decide⟩

/-! ## The first match -/

theorem drop_takeWhile (p : Char → Bool) (t : Text) : t.drop (t.takeWhile p).length = t.dropWhile p := by
  induction t with
  | nil => rfl
  | cons c t ih => by_cases hc : p c = true <;> simp [hc, ih]

theorem head?_behindRun (p : Char → Bool) (t : Text) : (behindRun p t).head? = some (t.dropWhile p) := by
  induction t with
  | nil => rfl
  | cons c t ih =>
    by_cases hc : p c = true
    · simp [behindRun, hc, ih]
    · simp [behindRun, hc]

theorem head?_digits (t : Text) :
    (digits.rests t).head? = if t.takeWhile isDigit = [] then none else some (t.dropWhile isDigit) := by
  cases t with
  | nil => rfl
  | cons c t =>
    by_cases hc : isDigit c = true
    · simp [digits, rests, behindOne, hc, head?_behindRun]
    · simp [digits, rests, behindOne, hc]

theorem rests_places_point (t : Text) : places.rests ('.' :: t) = digits.rests t := by
  have hpoint : digits.rests ('.' :: t) = [] := by simp [digits, rests, behindOne, show isDigit '.' = false by decide]
  simp [places, rests, behindOne, hpoint]

theorem rests_places_other {c : Char} (hc : c ≠ '.') (t : Text) : places.rests (c :: t) = digits.rests (c :: t) := by
  simp [places, rests, behindOne, hc]

/-- Before the search goes on without the first digit it has gone on with it. -/
theorem rests_numeral_digit {c : Char} (hc : isDigit c = true) (t : Text) :
    numeral.rests (c :: t) = numeral.rests t ++ places.rests (c :: t) := by
  simp [numeral, rests, behindRun, hc]

theorem rests_numeral_other {c : Char} (hc : isDigit c = false) (t : Text) :
    numeral.rests (c :: t) = places.rests (c :: t) := by
  simp [numeral, rests, behindRun, hc]

theorem head?_numeral (t : Text) :
    (numeral.rests t).head? =
      if leadingNumeral t = [] then none else some (t.drop (leadingNumeral t).length) := by
  induction t with
  | nil => rfl
  | cons c t ih =>
    by_cases hc : isDigit c = true
    · have hpoint : c ≠ '.' := by rintro rfl; exact absurd hc (by decide)
      rw [rests_numeral_digit hc, List.head?_append, ih, rests_places_other hpoint, head?_digits,
        leadingNumeral_digit hc]
      by_cases hn : leadingNumeral t = []
      · -- Behind the digit no numeral starts, so no digit stands there either.
        have hrun : t.takeWhile isDigit = [] := by
          have hprefix := takeWhile_prefix_leadingNumeral t
          rwa [hn, List.prefix_nil] at hprefix
        have hstop : t.dropWhile isDigit = t := by
          rw [← drop_takeWhile, hrun]
          rfl
        simp [hn, hc, hstop]
      · simp [hn]
    · have hc' : isDigit c = false := Bool.eq_false_iff.mpr hc
      rw [rests_numeral_other hc']
      by_cases hpoint : c = '.'
      · subst hpoint
        rw [rests_places_point, head?_digits, leadingNumeral_point]
        by_cases hrun : t.takeWhile isDigit = []
        · simp [hrun]
        · simp [hrun, drop_takeWhile]
      · rw [rests_places_other hpoint, head?_digits, leadingNumeral_eq_nil (by simp [hc', hpoint])]
        simp [hc']

theorem match?_numeral (t : Text) :
    numeral.match? t = if leadingNumeral t = [] then none else some (leadingNumeral t) := by
  rw [match?, head?_numeral]
  by_cases hn : leadingNumeral t = []
  · simp [hn]
  · have hprefix := isPrefix_leadingNumeral t
    rw [if_neg hn, if_neg hn, Option.map_some, List.length_drop, Nat.sub_sub_self hprefix.length_le,
      ← List.prefix_iff_eq_take.mp hprefix]

/-- Behind the digits the search takes the point, finds no digit and goes back. -/
example : numeral.match? "12.".toList = some "12".toList := by decide

theorem match?_numeral_eq_some_iff {u t : Text} : numeral.match? t = some u ↔ IsLongestNumeral u t := by
  rw [match?_numeral]
  constructor
  · intro h
    by_cases hn : leadingNumeral t = []
    · rw [if_pos hn] at h
      cases h
    · rw [if_neg hn] at h
      cases h
      exact isLongestNumeral_leadingNumeral hn
  · intro h
    rw [← h.eq_leadingNumeral, if_neg (ne_nil_of_isNumeral h.numeral)]

theorem match?_numeral_eq_none_iff {t : Text} : numeral.match? t = none ↔ ¬ StartsNumeral t := by
  simp [match?_eq_none_iff, language_numeral, StartsNumeral]

/-- At every place a search for a numeral finds the longest one that starts there, and nothing where none
starts, and the scanner reads what the search finds. That is never empty, no point ends it, and no digit follows. -/
theorem match?_numeral_longest (e : Text) (p : Nat) :
    (∀ u, numeral.match? (e.drop p) = some u ↔ IsLongestNumeral u (e.drop p)) ∧
    (numeral.match? (e.drop p) = none ↔ ¬ StartsNumeral (e.drop p)) ∧
    (∀ u, numeral.match? (e.drop p) = some u →
      u ≠ [] ∧ u.getLast? ≠ some '.' ∧ ∀ c, e[p + u.length]? = some c → isDigit c = false) ∧
    leadingNumeral (e.drop p) = (numeral.match? (e.drop p)).getD [] := by
  refine ⟨fun _ => match?_numeral_eq_some_iff, match?_numeral_eq_none_iff, fun u hu => ?_, ?_⟩
  · have hlongest := match?_numeral_eq_some_iff.mp hu
    refine ⟨ne_nil_of_isNumeral hlongest.numeral, getLast?_ne_point hlongest.numeral, fun c hc => ?_⟩
    rw [← List.getElem?_drop] at hc
    exact hlongest.not_isDigit hc
  · rw [match?_numeral]
    by_cases hn : leadingNumeral (e.drop p) = []
    · rw [if_pos hn, hn, Option.getD_none]
    · rw [if_neg hn, Option.getD_some]

end Pattern

end Reckoner
