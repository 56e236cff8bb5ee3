import Mathlib.Data.List.TakeWhile
import Reckoner.File.Source
import Reckoner.Proofs.Results

/-!
# Lines that count

The expressions of a text are its lines that are not blank, each once and in order,
with its number and without the blanks at its ends.
-/

namespace Reckoner

theorem allBlank_strip {t : Text} (h : t.strip ≠ []) : t.strip.allBlank = false := by
  unfold Text.strip Text.trim at h ⊢
  have hne : (t.dropWhile isBlank).reverse.dropWhile isBlank ≠ [] := fun hd => h (by rw [hd]; rfl)
  have hhead := List.head_dropWhile_not isBlank hne
  rw [Text.allBlank, List.all_reverse, List.all_eq_false]
  exact ⟨_, List.head_mem hne, by rw [hhead]; decide⟩

/-- What a line has to be to count. -/
def Line.Of (t : Text) (l : Line) : Prop :=
  ∃ k raw, t.lines[k]? = some raw ∧ raw.strip ≠ [] ∧ l = ⟨k + 1, raw.strip⟩

theorem mem_expressions_iff {t : Text} {l : Line} : l ∈ expressions t ↔ l.Of t := by
  unfold expressions Line.Of
  rw [List.mem_filterMap]
  constructor
  · rintro ⟨⟨raw, number⟩, hmem, hl⟩
    obtain ⟨hle, hget⟩ := List.mk_mem_zipIdx_iff_le_and_getElem?_sub.mp hmem
    dsimp only at hl
    split at hl
    · cases hl
    · rename_i hne
      cases hl
      refine ⟨number - 1, raw, hget, ?_, ?_⟩
      · simpa using hne
      · rw [Nat.sub_add_cancel hle]
  · rintro ⟨k, raw, hget, hne, rfl⟩
    refine ⟨(raw, k + 1), ?_, ?_⟩
    · rw [List.mk_mem_zipIdx_iff_le_and_getElem?_sub]
      exact ⟨Nat.le_add_left 1 k, hget⟩
    · simp [hne]

theorem Source.read_of_load {lib : Library} {p : Path} {content : Content} {t : Text}
    (h : load lib p content = .ok t) : Source.read lib p content = .ok (expressions t) := by
  unfold Source.read
  rw [h]
  rfl

theorem pairwise_expressions (t : Text) : (expressions t).Pairwise fun a b => a.number < b.number := by
  have hpairs : (t.lines.zipIdx 1).Pairwise fun a b => a.2 < b.2 := by
    rw [← List.pairwise_map, List.zipIdx_map_snd]
    exact List.pairwise_lt_range' 1
  refine List.Pairwise.filterMap _ ?_ hpairs
  rintro ⟨a, m⟩ ⟨b, n⟩ hlt l hl l' hl'
  dsimp only at hl hl'
  split at hl
  · cases hl
  · split at hl'
    · cases hl'
    · cases hl
      cases hl'
      exact hlt

theorem strip_eq_nil_iff {t : Text} : t.strip = [] ↔ t.allBlank = true := by
  unfold Text.strip Text.trim Text.allBlank
  rw [List.reverse_eq_nil_iff, List.dropWhile_eq_nil_iff, List.all_eq_true]
  constructor
  · intro h
    rw [← List.takeWhile_append_dropWhile (p := isBlank) (l := t), List.forall_mem_append]
    exact ⟨fun c hc => List.mem_takeWhile_imp hc, fun c hc => h c (List.mem_reverse.mpr hc)⟩
  · intro h c hc
    exact h c ((List.dropWhile_suffix _).subset (List.mem_reverse.mp hc))

theorem length_expressions (t : Text) : (expressions t).length = t.lines.countP fun line => !line.allBlank := by
  have hlines : t.lines = (t.lines.zipIdx 1).map Prod.fst := (List.zipIdx_map_fst 1 _).symm
  rw [hlines, List.countP_map]
  unfold expressions
  rw [List.length_filterMap_eq_countP]
  congr 1
  funext ⟨line, number⟩
  cases hblank : line.allBlank with
  | true => simp [strip_eq_nil_iff.mpr hblank, hblank]
  | false =>
    have hne : line.strip ≠ [] := fun h => by simp [strip_eq_nil_iff.mp h] at hblank
    simp [hne, hblank]

end Reckoner
