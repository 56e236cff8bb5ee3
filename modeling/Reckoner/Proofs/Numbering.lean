import Reckoner.Proofs.Archives
import Reckoner.Proofs.Encoding
import Reckoner.Proofs.Payloads

/-!
# Numbers of lines

However its rows end, a text is read row by row: a row that is not blank is the line of
its place, from one on, and blank rows count on the way. What is read is fit for a
worker: nothing blank is left at its ends, and no line break in it.
-/

namespace Reckoner

/-! ## Layouts -/

/-- All that ends a row. -/
def terminators : List Text :=
  [['\n'], ['\r'], ['\r', '\n'], ['\u000b'], ['\u000c'], ['\u001c'], ['\u001d'], ['\u001e'], ['\u0085'],
    ['\u2028'], ['\u2029']]

/-- Rows that make a text, each with an end of its own, which the last may lack. A carriage return
that a line feed follows is no end by itself. -/
inductive LaidOut : List Text → Text → Prop
  | nil : LaidOut [] []
  | last {row : Text} (h : Unbroken row) : LaidOut [row] row
  | row {row ending rest : Text} {rows : List Text} (h : Unbroken row) (hending : ending ∈ terminators)
      (hreturn : ending = ['\r'] → rest.head? ≠ some '\n') (hrest : LaidOut rows rest) :
      LaidOut (row :: rows) (row ++ (ending ++ rest))

theorem terminators_cases {ending : Text} (h : ending ∈ terminators) :
    ending = ['\r', '\n'] ∨ ∃ c, isLineBreak c = true ∧ ending = [c] := by
  have hall : ∀ e ∈ terminators, e = ['\r', '\n'] ∨ e.all isLineBreak = true ∧ e.length = 1 := by decide
  apply (hall ending h).imp_right
  rintro ⟨hbreak, hlength⟩
  obtain ⟨c, rfl⟩ := List.length_eq_one_iff.mp hlength
  exact ⟨c, List.all_eq_true.mp hbreak c List.mem_cons_self, rfl⟩

theorem lines_terminator {ending rest : Text} (h : ending ∈ terminators)
    (hreturn : ending = ['\r'] → rest.head? ≠ some '\n') : Text.lines (ending ++ rest) = [] :: Text.lines rest := by
  rcases terminators_cases h with rfl | ⟨c, hc, rfl⟩
  · rfl
  · apply Text.lines_break hc
    intro more hr hmore
    exact hreturn (by rw [hr]) (congrArg List.head? hmore)

theorem lines_of_unbroken {row : Text} (h : Unbroken row) (hne : row ≠ []) : Text.lines row = [row] := by
  induction row with
  | nil => exact absurd rfl hne
  | cons c row ih =>
    obtain ⟨hc, hrow⟩ := List.forall_mem_cons.mp h
    rw [Text.lines_cons hc]
    by_cases hempty : row = []
    · rw [hempty]
      rfl
    · rw [ih hrow hempty]
      rfl

/-- The lines of a text are its rows, without a last one that has neither content nor end. -/
theorem LaidOut.lines_eq {rows : List Text} {t : Text} (h : LaidOut rows t) :
    ∃ tail, rows = t.lines ++ tail ∧ ∀ row ∈ tail, row = [] := by
  induction h with
  | nil => exact ⟨[], rfl, by simp⟩
  | @last row h =>
    by_cases hrow : row = []
    · subst hrow
      exact ⟨[[]], rfl, by simp⟩
    · exact ⟨[], by rw [lines_of_unbroken h hrow]; rfl, by simp⟩
  | @row row ending rest rows h hending hreturn _ ih =>
    obtain ⟨tail, hrows, htail⟩ := ih
    refine ⟨tail, ?_, htail⟩
    rw [Text.lines_append h (lines_terminator hending hreturn), hrows]
    rfl

theorem mem_terminators {c : Char} (h : isLineBreak c = true) : [c] ∈ terminators := by
  have hall : lineBreaks.all ([·] ∈ terminators) = true := by decide
  exact of_decide_eq_true (List.all_eq_true.mp hall c (mem_lineBreaks h))

theorem LaidOut.cons {c : Char} (hc : isLineBreak c = false) {row t : Text} {rows : List Text}
    (h : LaidOut (row :: rows) t) : LaidOut ((c :: row) :: rows) (c :: t) := by
  cases h with
  | last h => exact .last (List.forall_mem_cons.mpr ⟨hc, h⟩)
  | row h hending hreturn hrest => exact .row (List.forall_mem_cons.mpr ⟨hc, h⟩) hending hreturn hrest

theorem laidOut_lines (t : Text) : LaidOut t.lines t := by
  have hnil : Unbroken [] := fun c hc => absurd hc List.not_mem_nil
  fun_induction Text.lines t with
  | case1 => exact .nil
  | case2 rest ih => exact @LaidOut.row [] ['\r', '\n'] rest _ hnil (by decide) (by simp) ih
  | case3 c rest hpair hc ih =>
    have hreturn : [c] = ['\r'] → rest.head? ≠ some '\n' := by
      intro hr hfirst
      obtain ⟨more, hmore⟩ := List.head?_eq_some_iff.mp hfirst
      exact hpair more (List.singleton_inj.mp hr) hmore
    exact @LaidOut.row [] [c] rest _ hnil (mem_terminators hc) hreturn ih
  | case4 c rest _ hc hrest ih =>
    rw [hrest] at ih
    cases ih
    exact .last (List.forall_mem_singleton.mpr (by simpa using hc))
  | case5 c rest _ hc line more hrest ih =>
    rw [hrest] at ih
    exact ih.cons (by simpa using hc)

/-! ## Lines -/

/-- The lines of the rows that are not blank: each has its row's place as its number, from one on, and
its row's text without the blanks at its ends. -/
structure Numbered (rows : List Text) (lines : List Line) : Prop where
  mem_iff : ∀ l : Line, l ∈ lines ↔
    ∃ i row, rows[i]? = some row ∧ row.allBlank = false ∧ l = ⟨i + 1, row.strip⟩
  increasing : lines.Pairwise fun a b => a.number < b.number

theorem LaidOut.numbered {rows : List Text} {t : Text} (h : LaidOut rows t) : Numbered rows (expressions t) := by
  obtain ⟨tail, rfl, htail⟩ := h.lines_eq
  refine ⟨fun l => ?_, pairwise_expressions t⟩
  rw [mem_expressions_iff]
  constructor
  · rintro ⟨i, row, hrow, hne, hl⟩
    obtain ⟨hlt, -⟩ := List.getElem?_eq_some_iff.mp hrow
    rw [Ne, strip_eq_nil_iff, Bool.not_eq_true] at hne
    exact ⟨i, row, (List.getElem?_append_left hlt).trans hrow, hne, hl⟩
  · rintro ⟨i, row, hrow, hblank, hl⟩
    have hne : row.strip ≠ [] := by
      rw [Ne, strip_eq_nil_iff, hblank]
      exact Bool.false_ne_true
    rw [List.getElem?_append] at hrow
    split at hrow
    · exact ⟨i, row, hrow, hne, hl⟩
    · rw [htail row (List.mem_of_getElem? hrow)] at hblank
      cases hblank

theorem Text.head_strip {t : Text} {c : Char} (h : t.strip.head? = some c) : isBlank c = false := by
  have hprefix : t.strip <+: t.dropWhile isBlank := by
    have hsuffix := List.dropWhile_suffix isBlank (l := (t.dropWhile isBlank).reverse)
    rw [← List.reverse_prefix, List.reverse_reverse] at hsuffix
    exact hsuffix
  obtain ⟨more, hmore⟩ := hprefix
  have hnot := List.head?_dropWhile_not isBlank t
  rw [← hmore, List.head?_append, h] at hnot
  exact hnot

theorem Text.last_strip {t : Text} {c : Char} (h : t.strip.getLast? = some c) : isBlank c = false := by
  have hnot := List.head?_dropWhile_not isBlank (t.dropWhile isBlank).reverse
  unfold Text.strip Text.trim at h
  rw [List.getLast?_reverse] at h
  rw [h] at hnot
  exact hnot

/-- A line that every worker takes as it is. -/
structure Ready (l : Line) : Prop where
  blank : l.text.allBlank = false
  first : ∀ c, l.text.head? = some c → isBlank c = false
  last : ∀ c, l.text.getLast? = some c → isBlank c = false
  unbroken : Unbroken l.text
  taken : ∀ mode, Worker.ofRecord (Worker.toRecord ⟨l.text, l.number, mode⟩) = .good ⟨l.text, l.number, mode⟩

theorem Line.Of.ready {t : Text} {l : Line} (h : l.Of t) : Ready l := by
  have hunbroken := h.unbroken
  obtain ⟨k, raw, -, hne, rfl⟩ := h
  have hblank := allBlank_strip hne
  exact ⟨hblank, fun c hc => Text.head_strip hc, fun c hc => Text.last_strip hc, hunbroken,
    fun mode => Worker.ofRecord_toRecord hblank (Nat.le_add_left 1 k)⟩

/-! ## Files -/

namespace Source

/-- A text file of a text's bytes, or an archive that such a file is read from. -/
def Holds (lib : Library) (p : Path) (content : Content) (t : Text) : Prop :=
  if p.suffix = ".txt".toList then content.data = Utf8.encode t
  else ∃ kind, archiveKind? p = some kind ∧ archiveText lib kind content = .ok (Utf8.encode t)

theorem Holds.read {lib : Library} {p : Path} {content : Content} {t : Text} (h : Holds lib p content t) :
    Source.read lib p content = .ok (expressions t) := by
  unfold Holds at h
  split at h
  · rename_i hsuffix
    rw [read_textFile hsuffix, h, decode, Utf8.decode_encode]
    rfl
  · obtain ⟨kind, hkind, htext⟩ := h
    rw [read_archive hkind, htext, ok_bind, decode, Utf8.decode_encode]
    rfl

/-- Whatever ends each of a text's rows, a file that holds the text is read row by row. -/
theorem read_laidOut {rows : List Text} {t : Text} (h : LaidOut rows t) :
    ∃ lines, Numbered rows lines ∧ (∀ l ∈ lines, Ready l) ∧
      ∀ lib p content, Holds lib p content t → Source.read lib p content = .ok lines :=
  ⟨expressions t, h.numbered, fun _ hl => (mem_expressions_iff.mp hl).ready, fun _ _ _ hholds => hholds.read⟩

/-- Five rows with four ends. The second is empty, and the fourth holds a unit separator, which is
blank but no line break. -/
def mixedRows : List Text := ["1+2".toList, [], " 3\t".toList, ['\u001f'], "4*5".toList]

def mixedText : Text := "1+2\r\n\r 3\t\u0085\u001f\u20284*5".toList

def mixedLines : List Line := [⟨1, "1+2".toList⟩, ⟨3, "3".toList⟩, ⟨5, "4*5".toList⟩]

theorem read_laidOut_mixed :
    LaidOut mixedRows mixedText ∧ Numbered mixedRows mixedLines ∧ (∀ l ∈ mixedLines, Ready l) ∧
      Source.read .standard (.ofText "in.txt".toList) (.bytes (Utf8.encode mixedText)) = .ok mixedLines := by
  have hrows : LaidOut mixedRows mixedText :=
    @LaidOut.row _ ['\r', '\n'] _ _ (by decide) (by decide) (by decide)
      (@LaidOut.row _ ['\r'] _ _ (by decide) (by decide) (by decide)
        (@LaidOut.row _ ['\u0085'] _ _ (by decide) (by decide) (by decide)
          (@LaidOut.row _ ['\u2028'] _ _ (by decide) (by decide) (by decide) (.last (by decide)))))
  have hholds : Holds .standard (.ofText "in.txt".toList) (.bytes (Utf8.encode mixedText)) mixedText := by
    unfold Holds
    rw [if_pos (by decide)]
    rfl
  have hmixed : Source.read .standard (.ofText "in.txt".toList) (.bytes (Utf8.encode mixedText)) =
      .ok mixedLines := by decide +kernel
  obtain ⟨lines, hnumbered, hready, hread⟩ := read_laidOut hrows
  obtain rfl : lines = mixedLines := Except.ok.inj ((hread _ _ _ hholds).symm.trans hmixed)
  exact ⟨hrows, hnumbered, hready, hmixed⟩

end Source

end Reckoner
