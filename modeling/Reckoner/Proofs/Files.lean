import Mathlib.Data.List.Basic
import Reckoner.File.Tree

/-!
# Files in their places

A file that is put where a path leads is what the path leads to from then on, and
nothing else changes.
-/

namespace Reckoner

/-! ## Keys -/

theorem lookup_replace (files : List (FileKey × Content)) (key k : FileKey) (content : Content) :
    (files.map fun (k, c) => if k == key then (k, content) else (k, c)).lookup k =
      if k = key then (files.lookup k).map fun _ => content else files.lookup k := by
  induction files with
  | nil => simp
  | cons entry files ih =>
    obtain ⟨k', c⟩ := entry
    rw [List.map_cons]
    by_cases hk : k = k'
    · subst hk
      by_cases hkey : k = key
      · simp [hkey]
      · simp [hkey]
    · have hne : (k == k') = false := beq_false_of_ne hk
      have hbehind : ∀ c' (rest : List (FileKey × Content)), ((k', c') :: rest).lookup k = rest.lookup k := by
        intro c' rest
        rw [List.lookup_cons, hne]
      rw [hbehind, ← ih]
      dsimp only
      split
      · exact hbehind content _
      · exact hbehind c _

/-- A file that is put in its place is there, and no other file changes. -/
theorem get?_put (tree : FileTree) (key k : FileKey) (content : Content) :
    (tree.put key content).get? k = if k = key then some content else tree.get? k := by
  unfold FileTree.put FileTree.get?
  split
  · rename_i h
    obtain ⟨entry, hmem, hentry⟩ := List.any_eq_true.mp h
    have hsome : (tree.files.lookup key).isSome = true :=
      List.lookup_isSome_iff.mpr ⟨entry, hmem, by rw [eq_of_beq hentry]; exact BEq.rfl⟩
    obtain ⟨old, hold⟩ := Option.isSome_iff_exists.mp hsome
    rw [lookup_replace]
    by_cases hk : k = key
    · simp [hk, hold]
    · simp [hk]
  · rename_i h
    rw [List.lookup_append]
    by_cases hk : k = key
    · have hnone : tree.files.lookup key = none := by
        rw [List.lookup_eq_none_iff]
        intro entry hmem
        simp only [bne_iff_ne]
        rintro rfl
        exact h (List.any_eq_true.mpr ⟨entry, hmem, BEq.rfl⟩)
      simp [hk, hnone]
    · have hne : (k == key) = false := beq_false_of_ne hk
      have hlast : [(key, content)].lookup k = none := by rw [List.lookup_cons, hne, List.lookup_nil]
      rw [hlast, Option.or_none, if_neg hk]

namespace FileTree

theorem any_put (tree : FileTree) (key : FileKey) (content : Content) (p : FileKey → Bool) :
    ((tree.put key content).files.any fun e => p e.1) = ((tree.files.any fun e => p e.1) || p key) := by
  unfold put
  split
  · rename_i h
    obtain ⟨entry, hmem, hentry⟩ := List.any_eq_true.mp h
    have hsame : ((tree.files.map fun (k, c) => if k == key then (k, content) else (k, c)).any fun e => p e.1) =
        tree.files.any fun e => p e.1 := by
      rw [List.any_map]
      congr 1
      funext e
      dsimp only [Function.comp_apply]
      split <;> rfl
    rw [hsame]
    cases hp : p key with
    | false => rw [Bool.or_false]
    | true =>
      rw [Bool.or_true, List.any_eq_true]
      exact ⟨entry, hmem, by rw [eq_of_beq hentry]; exact hp⟩
  · rw [List.any_append, List.any_cons, List.any_nil, Bool.or_false]

theorem isDirectory_put (tree : FileTree) (key d : FileKey) (content : Content) :
    (tree.put key content).isDirectory d = (tree.isDirectory d || (d.isPrefixOf key && d != key)) := by
  have hdirectories : (tree.put key content).directories = tree.directories := by
    unfold put
    split <;> rfl
  unfold isDirectory
  rw [hdirectories, Bool.or_assoc, Bool.or_assoc, Bool.or_assoc]
  congr 2
  exact any_put tree key content fun k => d.isPrefixOf k && d != k

/-! ## Paths -/

theorem follow_put {tree : FileTree} {key : FileKey} (content : Content) {parts : List Text} :
    ∀ {here : FileKey}, ((∃ old, tree.follow here parts = .file key old) ∨ tree.follow here parts = .vacant key) →
      (tree.put key content).follow here parts = .file key content := by
  induction parts with
  | nil =>
    rintro here (⟨old, h⟩ | h)
    · cases h
    · cases h
  | cons part rest ih =>
    intro here h
    unfold follow at h ⊢
    by_cases hup : part = ['.', '.']
    · rw [if_pos hup] at h ⊢
      exact ih h
    · rw [if_neg hup] at h ⊢
      dsimp only at h ⊢
      rw [isDirectory_put]
      cases hd : tree.isDirectory (here ++ [part]) with
      | true =>
        rw [hd, if_pos rfl] at h
        rw [Bool.true_or, if_pos rfl]
        exact ih h
      | false =>
        -- Only the last part leads to no directory, and the file is put there.
        rw [hd, if_neg Bool.false_ne_true] at h
        obtain ⟨hlast, hkey⟩ : rest.isEmpty = true ∧ here ++ [part] = key := by
          cases hl : rest.isEmpty <;> cases hg : tree.get? (here ++ [part]) <;> simp_all
        subst hkey
        rw [get?_put]
        simp [hlast]

theorem place_put {tree : FileTree} {p : Path} {key : FileKey} (h : tree.keyFor p = .ok key) (content : Content) :
    (tree.put key content).place p = .file key content := by
  refine follow_put content ?_
  unfold keyFor place at h
  split at h
  · rename_i key' old hplace
    cases h
    exact Or.inl ⟨old, hplace⟩
  · rename_i key' hplace
    cases h
    exact Or.inr hplace
  · cases h
  · cases h
  · cases h

/-- Beside a file a file can be put under any name, unless a directory has that name. -/
theorem follow_beside {tree : FileTree} {key : FileKey} {content : Content} {name : Text} (hname : name ≠ ['.', '.'])
    {parts : List Text} :
    ∀ {here : FileKey}, tree.follow here parts = .file key content →
      tree.follow here (parts.dropLast ++ [name]) ≠ .directory →
      ∃ k, (∃ old, tree.follow here (parts.dropLast ++ [name]) = .file k old) ∨
        tree.follow here (parts.dropLast ++ [name]) = .vacant k := by
  induction parts with
  | nil =>
    intro here h
    cases h
  | cons part rest ih =>
    intro here h hroom
    cases rest with
    | nil =>
      rw [List.dropLast_singleton, List.nil_append] at hroom ⊢
      unfold follow at hroom ⊢
      rw [if_neg hname] at hroom ⊢
      dsimp only at hroom ⊢
      cases hd : tree.isDirectory (here ++ [name]) with
      | true =>
        rw [hd, if_pos rfl] at hroom
        exact absurd rfl hroom
      | false =>
        rw [if_neg Bool.false_ne_true]
        cases tree.get? (here ++ [name]) with
        | some old => exact ⟨here ++ [name], Or.inl ⟨old, rfl⟩⟩
        | none => exact ⟨here ++ [name], Or.inr rfl⟩
    | cons next rest =>
      rw [List.dropLast_cons_cons, List.cons_append] at hroom ⊢
      unfold follow at h hroom ⊢
      by_cases hup : part = ['.', '.']
      · rw [if_pos hup] at h hroom ⊢
        exact ih h hroom
      · rw [if_neg hup] at h hroom ⊢
        dsimp only at h hroom ⊢
        cases hd : tree.isDirectory (here ++ [part]) with
        | true =>
          rw [hd, if_pos rfl] at h hroom
          rw [if_pos rfl]
          exact ih h hroom
        | false =>
          -- Only the last part of a file's path leads to no directory.
          rw [hd, if_neg Bool.false_ne_true] at h
          cases hg : tree.get? (here ++ [part]) <;> simp [hg] at h

theorem keyFor_withName {tree : FileTree} {p : Path} {key : FileKey} {content : Content} {name : Text}
    (hname : name ≠ ['.', '.']) (h : tree.place p = .file key content)
    (hroom : tree.place (p.withName name) ≠ .directory) : ∃ out, tree.keyFor (p.withName name) = .ok out := by
  obtain ⟨k, hk⟩ := follow_beside hname h hroom
  refine ⟨k, ?_⟩
  unfold keyFor
  rcases hk with ⟨old, hfile⟩ | hvacant
  · have hplace : tree.place (p.withName name) = .file k old := hfile
    rw [hplace]
  · have hplace : tree.place (p.withName name) = .vacant k := hvacant
    rw [hplace]

end FileTree

/-- A file with a suffix has a name, so there is a place for its results. -/
theorem results_of_suffix {p : Path} (h : p.suffix ≠ []) :
    ∃ name, name ≠ ['.', '.'] ∧ p.results = .ok (p.withName name) := by
  have hname : p.name ≠ [] := by
    intro hnil
    simp [Path.suffix, hnil] at h
  unfold Path.results
  rw [if_neg (by simpa using hname)]
  refine ⟨_, fun hdots => ?_, rfl⟩
  have hlength := congrArg List.length hdots
  have hending : Path.resultsEnding.length = 12 := rfl
  rw [List.length_append, hending] at hlength
  simp at hlength

end Reckoner
