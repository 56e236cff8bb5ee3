import Mathlib.Data.List.Forall2
import Reckoner.Proofs.Suffixes

/-!
# Where results go

The results of a file go into the folder of the file, under its name with underscores for points.
Two files of one folder share their results' place where their names are told apart by such a point
and an underscore alone, and nowhere else.
-/

namespace Reckoner

/-! ## Points and underscores -/

/-- Both characters are written alike where points become underscores. -/
def Blurred (c d : Char) : Prop := c = d ∨ c ∈ ['.', '_'] ∧ d ∈ ['.', '_']

instance : DecidableRel Blurred := fun c d => inferInstanceAs (Decidable (c = d ∨ c ∈ ['.', '_'] ∧ d ∈ ['.', '_']))

def underscore (c : Char) : Char := if c = '.' then '_' else c

theorem underscore_eq_iff {c d : Char} : underscore c = underscore d ↔ Blurred c d := by
  unfold underscore Blurred
  by_cases hc : c = '.' <;> by_cases hd : d = '.'
  · simp [hc, hd]
  · simp [hc, hd, eq_comm]
  · simp [hc, hd]
  · rw [if_neg hc, if_neg hd]
    simp only [List.mem_cons, hc, hd, false_or, List.not_mem_nil, or_false]
    constructor
    · exact Or.inl
    · rintro (h | ⟨rfl, rfl⟩)
      · exact h
      · rfl

theorem map_underscore_eq_iff {s t : Text} : s.map underscore = t.map underscore ↔ List.Forall₂ Blurred s t := by
  have hrel : (fun c d => underscore c = underscore d) = Blurred := by
    funext c d
    exact propext underscore_eq_iff
  rw [← hrel, ← List.forall₂_eq_eq_eq, List.forall₂_map_left_iff, List.forall₂_map_right_iff]

theorem underscore_ne (c : Char) : underscore c ≠ '.' := by
  unfold underscore
  split
  · decide
  · assumption

theorem takeWhile_map_underscore (t : Text) : (t.map underscore).takeWhile (· = '.') = [] := by
  cases t with
  | nil => rfl
  | cons c t => rw [List.map_cons, List.takeWhile_cons_of_neg (by simpa using underscore_ne c)]

namespace Path

variable {p q : Path}

/-- Names that are told apart by points and underscores alone. A point at the start of a name stays. -/
def Similar (p q : Path) : Prop :=
  p.name.takeWhile (· = '.') = q.name.takeWhile (· = '.') ∧ List.Forall₂ Blurred p.undotted q.undotted

def folder (p : Path) : Path := { p with parts := p.parts.dropLast }

theorem folder_withName (p : Path) (name : Text) : (p.withName name).folder = p.folder := by
  unfold folder withName
  simp

theorem withName_eq_iff {name other : Text} :
    p.withName name = q.withName other ↔ p.folder = q.folder ∧ name = other := by
  constructor
  · intro h
    have hparts := congrArg Path.parts h
    obtain ⟨hfront, hlast⟩ := List.append_inj' hparts rfl
    refine ⟨?_, List.singleton_inj.mp hlast⟩
    rw [← folder_withName p name, h, folder_withName]
  · rintro ⟨hfolder, rfl⟩
    unfold folder at hfolder
    rw [Path.mk.injEq] at hfolder
    obtain ⟨hroot, hparts⟩ := hfolder
    unfold withName
    rw [hroot, hparts]

/-! ## Results -/

/-- The name of the results: that of the file with its inner points as underscores, and an ending. -/
def resultsName (p : Path) : Text :=
  p.name.takeWhile (· = '.') ++ p.undotted.map underscore ++ resultsEnding

theorem results_eq (hname : p.name ≠ []) (hpoint : p.name.getLast? ≠ some '.') :
    p.results = .ok (p.withName p.resultsName) := by
  have hkept : (p.undotted.takeWhile (· != '.')).map underscore = p.undotted.takeWhile (· != '.') := by
    have hsame : ∀ c ∈ p.undotted.takeWhile (· != '.'), underscore c = id c := by
      intro c hc
      have hne := List.mem_takeWhile_imp hc
      exact if_neg (bne_iff_ne.mp hne)
    rw [List.map_congr_left hsame, List.map_id]
  have hundotted : p.undotted.takeWhile (· != '.') ++ (p.undotted.dropWhile (· != '.')).map underscore =
      p.undotted.map underscore := by
    rw [← hkept, ← List.map_append, List.takeWhile_append_dropWhile]
  unfold results resultsName
  rw [if_neg (by simpa using hname), stem_eq hpoint, flatten_suffixes hpoint, ← hundotted, ← List.append_assoc]
  rfl

theorem resultsName_eq_iff : p.resultsName = q.resultsName ↔ Similar p q := by
  -- No point is left behind the first ones, so these can be told from the rest.
  have hpoints : ∀ p : Path, (p.name.takeWhile (· = '.') ++ p.undotted.map underscore).takeWhile (· = '.') =
      p.name.takeWhile (· = '.') := by
    intro p
    rw [List.takeWhile_append_of_pos fun c => List.mem_takeWhile_imp, takeWhile_map_underscore, List.append_nil]
  unfold resultsName Similar
  rw [List.append_left_inj, ← map_underscore_eq_iff]
  constructor
  · intro h
    have hfirst := congrArg (List.takeWhile (· = '.')) h
    rw [hpoints, hpoints] at hfirst
    rw [hfirst] at h
    exact ⟨hfirst, List.append_cancel_left h⟩
  · rintro ⟨hfirst, hrest⟩
    rw [hfirst, hrest]

/-- Each file that a source can be has a place for its results, in its own folder, and two of them have
one place where they lie in one folder and their names are similar, and only there. -/
theorem results_eq_iff_similar (hp : Source.Supports p) (hq : Source.Supports q) :
    ∃ out out', p.results = .ok out ∧ q.results = .ok out' ∧ out.folder = p.folder ∧ out'.folder = q.folder ∧
      (out = out' ↔ p.folder = q.folder ∧ Similar p q) := by
  refine ⟨_, _, results_eq hp.name_ne_nil hp.getLast?, results_eq hq.name_ne_nil hq.getLast?, folder_withName p _,
    folder_withName q _, ?_⟩
  rw [withName_eq_iff, resultsName_eq_iff]

/-- A text file and an archive of one folder, whose names differ behind the same stem. -/
theorem results_eq_iff_similar_stem :
    Source.Supports (.ofText "data/.a_b.txt".toList) ∧ Source.Supports (.ofText "data/.a_b.tar.xz".toList) ∧
      (ofText "data/.a_b.txt".toList).results = .ok (.ofText "data/.a_b_txt_results.txt".toList) ∧
      (ofText "data/.a_b.tar.xz".toList).results = .ok (.ofText "data/.a_b_tar_xz_results.txt".toList) ∧
      ofText "data/.a_b_txt_results.txt".toList ≠ .ofText "data/.a_b_tar_xz_results.txt".toList := by
  have htext : Source.Supports (.ofText "data/.a_b.txt".toList) := Or.inl (by decide)
  have harchive : Source.Supports (.ofText "data/.a_b.tar.xz".toList) := Or.inr ⟨.tarXz, by decide⟩
  have hfirst : (ofText "data/.a_b.txt".toList).results = .ok (.ofText "data/.a_b_txt_results.txt".toList) := by
    decide +kernel
  have hsecond : (ofText "data/.a_b.tar.xz".toList).results =
      .ok (.ofText "data/.a_b_tar_xz_results.txt".toList) := by decide +kernel
  obtain ⟨out, out', hout, hout', -, -, hiff⟩ := results_eq_iff_similar htext harchive
  cases hfirst.symm.trans hout
  cases hsecond.symm.trans hout'
  refine ⟨htext, harchive, hfirst, hsecond, fun h => ?_⟩
  have hlength := (hiff.mp h).2.2.length_eq
  revert hlength
  decide

theorem results_shared :
    Source.Supports (.ofText "a.b.txt".toList) ∧ Source.Supports (.ofText "a_b.txt".toList) ∧
      ofText "a.b.txt".toList ≠ .ofText "a_b.txt".toList ∧
      (ofText "a.b.txt".toList).results = .ok (.ofText "a_b_txt_results.txt".toList) ∧
      (ofText "a_b.txt".toList).results = .ok (.ofText "a_b_txt_results.txt".toList) := by
  exact ⟨Or.inl (by decide), Or.inl (by decide), by decide, by decide +kernel, by decide +kernel⟩

end Path

end Reckoner
