import Reckoner.Proofs.Lines
import Reckoner.Proofs.Messages

/-!
# Rows

A row of results says what became of an expression, behind a mark that parts the two. No
row holds a line break, so the lines of the results are the rows that were written.
What an expression is and what became of it can be told from its row, whatever the
expression holds.
-/

namespace Reckoner

/-! ## Line breaks -/

def Unbroken (t : Text) : Prop := ∀ c ∈ t, isLineBreak c = false

instance (t : Text) : Decidable (Unbroken t) := List.decidableBAll _ t

theorem unbroken_append {s t : Text} : Unbroken (s ++ t) ↔ Unbroken s ∧ Unbroken t := List.forall_mem_append

theorem isPrintable_of_isLineBreak {c : Char} (h : isLineBreak c = true) : isPrintable c = false := by
  have hall : lineBreaks.all (!isPrintable ·) = true := by decide +kernel
  rw [List.all_eq_true] at hall
  simpa using hall c (mem_lineBreaks h)

theorem Visible.unbroken {t : Text} (h : Visible t) : Unbroken t := by
  intro c hc
  cases hbreak : isLineBreak c with
  | false => rfl
  | true =>
    have hvisible := h c hc
    rw [isPrintable_of_isLineBreak hbreak] at hvisible
    cases hvisible

namespace Text

theorem lines_cons {c : Char} (hc : isLineBreak c = false) (t : Text) :
    lines (c :: t) = (c :: (lines t).headD []) :: (lines t).tail := by
  have hreturn : c ≠ '\r' := by
    rintro rfl
    cases hc
  rw [lines.eq_3 c t fun _ hr _ => hreturn hr, if_neg (by simp [hc])]
  cases lines t <;> rfl

theorem lines_break {c : Char} {t : Text} (hc : isLineBreak c = true) (h : ∀ rest, c = '\r' → t ≠ '\n' :: rest) :
    lines (c :: t) = [] :: lines t := by
  rw [lines.eq_3 c t fun rest hr ht => h rest hr ht, if_pos hc]

theorem unbroken_of_mem_lines (t : Text) : ∀ line ∈ t.lines, Unbroken line := by
  have hnil : Unbroken [] := fun c hc => absurd hc List.not_mem_nil
  fun_induction lines t with
  | case1 => simp
  | case2 rest ih => exact List.forall_mem_cons.mpr ⟨hnil, ih⟩
  | case3 c rest _ _ ih => exact List.forall_mem_cons.mpr ⟨hnil, ih⟩
  | case4 c rest _ hc _ _ =>
    rw [List.forall_mem_singleton]
    exact List.forall_mem_singleton.mpr (by simpa using hc)
  | case5 c rest _ hc line more h ih =>
    rw [h] at ih
    obtain ⟨hline, hmore⟩ := List.forall_mem_cons.mp ih
    exact List.forall_mem_cons.mpr ⟨List.forall_mem_cons.mpr ⟨by simpa using hc, hline⟩, hmore⟩

theorem unbroken_strip {t : Text} (h : Unbroken t) : Unbroken t.strip := by
  intro c hc
  unfold strip trim at hc
  rw [List.mem_reverse] at hc
  have hleft := List.mem_reverse.mp ((List.dropWhile_suffix _).subset hc)
  exact h c ((List.dropWhile_suffix _).subset hleft)

/-- A text with no line break stands in the first line of what it is put before. -/
theorem lines_append {row t : Text} (h : Unbroken row) {more : List Text} (ht : lines t = [] :: more) :
    lines (row ++ t) = row :: more := by
  induction row with
  | nil => exact ht
  | cons c row ih =>
    obtain ⟨hc, hrow⟩ := List.forall_mem_cons.mp h
    rw [List.cons_append, lines_cons hc, ih hrow]
    rfl

/-- Rows without line breaks, each ended by one, are the lines of the text that they make. -/
theorem lines_flatMap {rows : List Text} (h : ∀ row ∈ rows, Unbroken row) :
    lines (rows.flatMap fun row => row ++ ['\n']) = rows := by
  induction rows with
  | nil => rfl
  | cons row rows ih =>
    obtain ⟨hrow, hrows⟩ := List.forall_mem_cons.mp h
    rw [List.flatMap_cons, List.append_assoc, List.singleton_append,
      lines_append hrow (lines_break (by decide) (by simp)), ih hrows]

/-- However its lines end, a text has the same lines. -/
theorem lines_unifyNewlines (t : Text) : lines t.unifyNewlines = lines t := by
  fun_induction unifyNewlines t with
  | case1 => rfl
  | case2 rest ih =>
    show [] :: lines (unifyNewlines rest) = [] :: lines rest
    rw [ih]
  | case3 c rest h ih =>
    by_cases hc : c = '\r'
    · subst hc
      rw [if_pos rfl, lines_break (by decide) (by simp), lines_break (by decide) h, ih]
    · rw [if_neg hc]
      cases hbreak : isLineBreak c with
      | true => rw [lines_break hbreak fun _ hr => absurd hr hc, lines_break hbreak fun _ hr => absurd hr hc, ih]
      | false => rw [lines_cons hbreak, lines_cons hbreak, ih]

end Text

theorem expressions_unifyNewlines (t : Text) : expressions t.unifyNewlines = expressions t := by
  unfold expressions
  rw [Text.lines_unifyNewlines]

theorem Source.read_textFile {lib : Library} {p : Path} (hp : p.suffix = ".txt".toList) (content : Content) :
    Source.read lib p content = (Source.decode content.data).map expressions := by
  unfold Source.read Source.load
  rw [if_pos hp]
  cases Source.decode content.data with
  | error fault => rfl
  | ok t => rw [map_ok, map_ok, map_ok, expressions_unifyNewlines]

theorem Line.Of.unbroken {t : Text} {l : Line} (h : l.Of t) : Unbroken l.text := by
  obtain ⟨k, raw, hraw, -, rfl⟩ := h
  exact Text.unbroken_strip (Text.unbroken_of_mem_lines t raw (List.mem_of_getElem? hraw))

/-! ## Parts of a row -/

section
variable {α : Type} {c d : α}

/-- A pair that both rests are without stands where they start. -/
theorem append_inj_of_last (hcd : c ≠ d) {x y s t : List α} (hs : ¬ [c, d] <:+: s) (ht : ¬ [c, d] <:+: t)
    (h : x ++ c :: d :: s = y ++ c :: d :: t) : x = y ∧ s = t := by
  have hlast : ∀ {between s t : List α}, ¬ [c, d] <:+: s → c :: d :: s = between ++ c :: d :: t → between = [] := by
    intro between s t hs hbetween
    match between with
    | [] => rfl
    | [a] => exact absurd (List.cons.inj (List.cons.inj hbetween).2).1 hcd.symm
    | a :: b :: between =>
      have hsplit : s = between ++ c :: d :: t := (List.cons.inj (List.cons.inj hbetween).2).2
      exact absurd ⟨between, t, by rw [hsplit]; simp⟩ hs
  rcases List.append_eq_append_iff.mp h with ⟨between, hy, hbetween⟩ | ⟨between, hx, hbetween⟩
  · obtain rfl := hlast hs hbetween
    rw [List.append_nil] at hy
    exact ⟨hy.symm, by simpa using hbetween⟩
  · obtain rfl := hlast ht hbetween
    rw [List.append_nil] at hx
    exact ⟨hx, by simpa using hbetween.symm⟩

theorem apart_append {s t : List α} (hs : c ∉ s) (ht : ¬ [c, d] <:+: t) : ¬ [c, d] <:+: s ++ t := by
  induction s with
  | nil => exact ht
  | cons a s ih =>
    rw [List.mem_cons, not_or] at hs
    obtain ⟨hne, hs⟩ := hs
    rw [List.cons_append, List.infix_cons_iff]
    rintro (hstart | hpair)
    · exact hne (List.cons_prefix_cons.mp hstart).1
    · exact ih hs hpair

end

/-- What can stand behind the mark of a failure: words with a space among them, and with
none behind a parting sign. -/
structure Wording (words : Text) : Prop where
  visible : Visible words
  spaced : ' ' ∈ words
  apart : ∀ d ∈ partingSigns, ¬ [d, ' '] <:+: words

theorem wording_message {fault : Fault} (h : fault.Legal) : Wording fault.message :=
  ⟨visible_message fault, space_mem_message h, fun _ hd => apart_message hd h⟩

/-- The row of a value. -/
def valueRow (x v : Text) : Text := x ++ " = ".toList ++ v

/-- The row of a failure. -/
def failureRow (x words : Text) : Text := x ++ " -> ERROR: ".toList ++ words

section
variable {x y v w words more : Text}

theorem unbroken_valueRow (hx : Unbroken x) (hv : Unbroken v) : Unbroken (valueRow x v) :=
  unbroken_append.mpr ⟨unbroken_append.mpr ⟨hx, by decide⟩, hv⟩

theorem unbroken_failureRow (hx : Unbroken x) (hwords : Unbroken words) : Unbroken (failureRow x words) :=
  unbroken_append.mpr ⟨unbroken_append.mpr ⟨hx, by decide⟩, hwords⟩

theorem not_mem_float (a : Float) : '=' ∉ Text.float a ∧ ' ' ∉ Text.float a := by
  have hsubset := Layout.float_subset Layout.values a
  have hequals : '=' ∉ floatCharacters := by decide
  have hspace : ' ' ∉ floatCharacters := by decide
  exact ⟨fun h => hequals (hsubset h), fun h => hspace (hsubset h)⟩

theorem valueRow_inj (hv : '=' ∉ v) (hw : '=' ∉ w) (h : valueRow x v = valueRow y w) : x = y ∧ v = w := by
  have hapart : ∀ {u : Text}, '=' ∉ u → ¬ ['=', ' '] <:+: u := fun hu hpair => hu (hpair.subset List.mem_cons_self)
  have hrows : (x ++ [' ']) ++ '=' :: ' ' :: v = (y ++ [' ']) ++ '=' :: ' ' :: w := by
    simpa [valueRow] using h
  obtain ⟨hxy, hvw⟩ := append_inj_of_last (by decide) (hapart hv) (hapart hw) hrows
  exact ⟨List.append_cancel_right hxy, hvw⟩

theorem failureRow_inj (hwords : ¬ ['>', ' '] <:+: words) (hmore : ¬ ['>', ' '] <:+: more)
    (h : failureRow x words = failureRow y more) : x = y ∧ words = more := by
  have hapart : ∀ {u : Text}, ¬ ['>', ' '] <:+: u → ¬ ['>', ' '] <:+: "ERROR: ".toList ++ u := fun hu =>
    apart_append (by decide) hu
  have hrows : (x ++ [' ', '-']) ++ '>' :: ' ' :: ("ERROR: ".toList ++ words) =
      (y ++ [' ', '-']) ++ '>' :: ' ' :: ("ERROR: ".toList ++ more) := by
    simpa [failureRow] using h
  obtain ⟨hxy, hbehind⟩ := append_inj_of_last (by decide) (hapart hwords) (hapart hmore) hrows
  exact ⟨List.append_cancel_right hxy, List.append_cancel_left hbehind⟩

/-- A value holds no space, and a failure ends in words with a space that no equals sign precedes. -/
theorem valueRow_ne_failureRow (hv : ' ' ∉ v) (hwords : Wording words) : valueRow x v ≠ failureRow y words := by
  intro h
  rcases List.append_eq_append_iff.mp h with ⟨between, -, rfl⟩ | ⟨between, hx, rfl⟩
  · exact hv (List.mem_append_right between hwords.spaced)
  rcases List.eq_nil_or_concat between with rfl | ⟨front, a, rfl⟩
  · exact hv hwords.spaced
  have hspace : (x ++ [' ', '=']) ++ [' '] = (y ++ " -> ERROR: ".toList ++ front) ++ [a] := by
    simpa using hx
  obtain ⟨hfront, ha⟩ := List.append_inj' hspace rfl
  cases ha
  rcases List.eq_nil_or_concat front with rfl | ⟨front, b, rfl⟩
  · -- The mark of a failure ends in a space, that of a value has an equals sign before its space.
    have hsign : (x ++ [' ']) ++ ['='] = (y ++ " -> ERROR:".toList) ++ [' '] := by
      simpa using hfront
    cases (List.append_inj' hsign rfl).2
  · have hsign : (x ++ [' ']) ++ ['='] = (y ++ " -> ERROR: ".toList ++ front) ++ [b] := by
      simpa using hfront
    cases (List.append_inj' hsign rfl).2
    exact hwords.apart '=' (by decide) ⟨front, v, by simp⟩

end

end Reckoner
