import Mathlib.Data.List.TakeWhile
import Reckoner.File.Source

/-!
# Points in a name

A name that does not end in a point falls into the points at its start, what stands before the
next point, and the suffixes from there on. A name that a source can have ends in a suffix, and the
last of a chain of suffixes is the suffix of the name.
-/

namespace Reckoner

theorem Text.flatMap_pieces (mark : Char) (t : Text) : (pieces mark t).flatMap (mark :: ·) = mark :: t := by
  fun_induction pieces mark t with
  | case1 => rfl
  | case2 rest ih => rw [List.flatMap_cons, ih]; rfl
  | case3 c rest _ hrest ih => rw [hrest] at ih; cases ih
  | case4 c rest _ piece more hrest ih =>
    rw [hrest, List.flatMap_cons, List.cons_append, List.cons.injEq] at ih
    rw [List.flatMap_cons, List.cons_append, List.cons_append, ih.2]

theorem Text.head?_pieces (mark : Char) (t : Text) : (pieces mark t).head? = some (t.takeWhile (· != mark)) := by
  fun_induction pieces mark t with
  | case1 => rfl
  | case2 rest ih => rw [List.takeWhile_cons_of_neg (by simp)]; rfl
  | case3 c rest hc hrest ih => rw [hrest] at ih; cases ih
  | case4 c rest hc piece more hrest ih =>
    rw [hrest, List.head?_cons, Option.some.injEq] at ih
    rw [List.head?_cons, List.takeWhile_cons_of_pos (by simpa using hc), ih]

/-- What stands behind the first piece, with its marks. -/
theorem Text.flatMap_drop_pieces (mark : Char) (t : Text) :
    ((pieces mark t).drop 1).flatMap (mark :: ·) = t.dropWhile (· != mark) := by
  have hall := flatMap_pieces mark t
  have hhead := head?_pieces mark t
  cases hpieces : pieces mark t with
  | nil => rw [hpieces] at hhead; cases hhead
  | cons piece more =>
    rw [hpieces, List.head?_cons, Option.some.injEq] at hhead
    rw [hpieces, List.flatMap_cons, List.cons_append, List.cons.injEq, hhead] at hall
    have hsplit := hall.2.trans (List.takeWhile_append_dropWhile (p := (· != mark)) (l := t)).symm
    exact List.append_cancel_left hsplit

namespace Path

variable {p : Path}

/-! ## Suffixes -/

/-- The name without the points at its start. -/
def undotted (p : Path) : Text := p.name.dropWhile (· = '.')

theorem name_eq (p : Path) : p.name = p.name.takeWhile (· = '.') ++ p.undotted :=
  List.takeWhile_append_dropWhile.symm

theorem head_undotted {c : Char} (h : p.undotted.head? = some c) : c ≠ '.' := by
  have hnot := List.head?_dropWhile_not (· = '.') p.name
  unfold undotted at h
  rw [h] at hnot
  exact of_decide_eq_false hnot

theorem flatten_suffixes (h : p.name.getLast? ≠ some '.') : p.suffixes.flatten = p.undotted.dropWhile (· != '.') := by
  unfold suffixes
  rw [if_neg h, ← List.flatMap_def]
  exact Text.flatMap_drop_pieces '.' p.undotted

theorem stem_eq (h : p.name.getLast? ≠ some '.') :
    p.stem = p.name.takeWhile (· = '.') ++ p.undotted.takeWhile (· != '.') := by
  have hname : p.name = (p.name.takeWhile (· = '.') ++ p.undotted.takeWhile (· != '.')) ++ p.suffixes.flatten := by
    rw [flatten_suffixes h, List.append_assoc, List.takeWhile_append_dropWhile]
    exact p.name_eq
  have hlength := congrArg List.length hname
  rw [List.length_append] at hlength
  have hkeep : p.name.length - p.suffixes.flatten.length =
      (p.name.takeWhile (· = '.') ++ p.undotted.takeWhile (· != '.')).length := by omega
  have htake := congrArg (List.take (p.name.length - p.suffixes.flatten.length)) hname
  rw [hkeep, List.take_left] at htake
  unfold stem
  rw [hkeep]
  exact htake

/-- A point inside a name, with none behind it. -/
theorem suffix_eq {front tail : Text} (hname : p.name = front ++ '.' :: tail) (hfront : front ≠ []) (htail : tail ≠ [])
    (hpoint : '.' ∉ tail) : p.suffix = '.' :: tail := by
  have hplain : ∀ c ∈ tail.reverse, (c != '.') = true := by
    intro c hc
    rw [bne_iff_ne]
    rintro rfl
    exact hpoint (List.mem_reverse.mp hc)
  have hreverse : p.name.reverse = tail.reverse ++ '.' :: front.reverse := by
    rw [hname, List.reverse_append, List.reverse_cons, List.append_assoc, List.singleton_append]
  obtain ⟨c, rest, hrest⟩ := List.exists_cons_of_ne_nil (mt List.reverse_eq_nil_iff.mp hfront)
  unfold suffix
  rw [hreverse, List.takeWhile_append_of_pos hplain, List.dropWhile_append_of_pos hplain, hrest]
  simp [htail]

end Path

/-! ## Names that a source can have -/

namespace Source

/-- The name says how the file is to be read. -/
def Supports (p : Path) : Prop := p.suffix = ".txt".toList ∨ ∃ kind, archiveKind? p = some kind

variable {p : Path} {kind : ArchiveKind}

theorem chain_suffix_of_archiveKind? (h : archiveKind? p = some kind) : chain kind <:+ p.suffixes := by
  have hchain := List.find?_some h
  rwa [List.isSuffixOf_iff_suffix] at hchain

theorem getLast?_of_archiveKind? (h : archiveKind? p = some kind) : p.name.getLast? ≠ some '.' := by
  intro hpoint
  have hchain := chain_suffix_of_archiveKind? h
  have hnone : p.suffixes = [] := by
    unfold Path.suffixes
    rw [if_pos hpoint]
  rw [hnone, List.suffix_nil] at hchain
  cases kind <;> cases hchain

/-- An archive's name ends in the suffixes of its kind, with something before them. -/
theorem name_of_archiveKind? (h : archiveKind? p = some kind) :
    ∃ front, front ≠ [] ∧ p.name = front ++ (chain kind).flatten := by
  have hpoint := getLast?_of_archiveKind? h
  obtain ⟨before, hbefore⟩ := chain_suffix_of_archiveKind? h
  have hflatten := Path.flatten_suffixes hpoint
  rw [← hbefore, List.flatten_append] at hflatten
  refine ⟨p.name.takeWhile (· = '.') ++ (p.undotted.takeWhile (· != '.') ++ before.flatten), ?_, ?_⟩
  · -- The name without its first points starts with something else, which is no part of a suffix.
    intro hnil
    have htake := (List.append_eq_nil_iff.mp (List.append_eq_nil_iff.mp hnil).2).1
    cases hundotted : p.undotted with
    | nil =>
      rw [hundotted, List.dropWhile_nil, List.append_eq_nil_iff] at hflatten
      cases kind <;> cases hflatten.2
    | cons c rest =>
      have hfirst : c ≠ '.' := Path.head_undotted (p := p) (by rw [hundotted, List.head?_cons])
      rw [hundotted, List.takeWhile_cons_of_pos (by simpa using hfirst)] at htake
      cases htake
  · rw [List.append_assoc, List.append_assoc, hflatten, List.takeWhile_append_dropWhile]
    exact p.name_eq

theorem suffix_of_archiveKind? (h : archiveKind? p = some kind) : p.suffix ≠ ".txt".toList := by
  obtain ⟨front, hfront, hname⟩ := name_of_archiveKind? h
  cases kind with
  | zip =>
    have hzip : p.name = front ++ '.' :: "zip".toList := hname
    rw [Path.suffix_eq hzip hfront (by decide) (by decide)]
    decide
  | tarXz =>
    have hmore : p.name = (front ++ ".tar".toList) ++ '.' :: "xz".toList := by simpa [chain] using hname
    rw [Path.suffix_eq hmore (by simp) (by decide) (by decide)]
    decide
  | sevenZip =>
    have hseven : p.name = front ++ '.' :: "7z".toList := hname
    rw [Path.suffix_eq hseven hfront (by decide) (by decide)]
    decide

theorem Supports.getLast? (h : Supports p) : p.name.getLast? ≠ some '.' := by
  rcases h with htext | ⟨kind, hkind⟩
  · intro hpoint
    obtain ⟨rest, hrest⟩ := List.head?_eq_some_iff.mp (List.head?_reverse.trans hpoint)
    have hnone : p.suffix = [] := by
      unfold Path.suffix
      rw [hrest, List.takeWhile_cons_of_neg (by simp), List.dropWhile_cons_of_neg (by simp)]
      cases rest <;> rfl
    rw [hnone] at htext
    cases htext
  · exact getLast?_of_archiveKind? hkind

theorem Supports.name_ne_nil (h : Supports p) : p.name ≠ [] := by
  intro hnil
  rcases h with htext | ⟨kind, hkind⟩
  · simp [Path.suffix, hnil] at htext
  · obtain ⟨front, hfront, hname⟩ := name_of_archiveKind? hkind
    exact hfront (List.append_eq_nil_iff.mp (hname.symm.trans hnil)).1

end Source

end Reckoner
