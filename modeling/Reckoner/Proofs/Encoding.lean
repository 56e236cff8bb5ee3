import Mathlib.Data.List.Basic
import Reckoner.Proofs.Results
import Reckoner.Text.Utf8

/-!
# Texts and their bytes

Every text can be read back from its bytes. A character's bytes are its own lead byte and
continuation bytes, and the range that the lead byte allows for the first of these holds it.
-/

namespace Reckoner.Utf8

/-! ## Bytes -/

/-- Six bits of a code point in a byte that continues a sequence. -/
def continuation (v : Nat) : UInt8 := UInt8.ofNat (v % 64 + 128)

theorem toNat_continuation (v : Nat) : (continuation v).toNat = v % 64 + 128 :=
  UInt8.toNat_ofNat_of_lt' (show v % 64 + 128 < 256 by omega)

section
variable {n : Nat}

theorem lead?_two (h : 194 ≤ n) (h' : n < 224) :
    lead? (UInt8.ofNat n) = some ⟨n - 0xc0, 1, 0x80, 0xbf⟩ := by
  have hn : (UInt8.ofNat n).toNat = n := UInt8.toNat_ofNat_of_lt' (show n < 256 by omega)
  simp [lead?, UInt8.lt_iff_toNat_lt, hn, h, h']

theorem ofNat_eq_iff (h : n < 256) {b : UInt8} : UInt8.ofNat n = b ↔ n = b.toNat := by
  rw [← UInt8.toNat_inj, UInt8.toNat_ofNat_of_lt' h]

theorem lead?_three (h : 224 ≤ n) (h' : n < 240) : lead? (UInt8.ofNat n) =
    some ⟨n - 0xe0, 2, if n = 224 then 0xa0 else 0x80, if n = 237 then 0x9f else 0xbf⟩ := by
  have hn : (UInt8.ofNat n).toNat = n := UInt8.toNat_ofNat_of_lt' (show n < 256 by omega)
  have hfirst : ¬ n < 194 := by omega
  simp [lead?, UInt8.lt_iff_toNat_lt, hn, hfirst, h, h', ofNat_eq_iff (show n < 256 by omega)]

theorem lead?_four (h : 240 ≤ n) (h' : n < 245) : lead? (UInt8.ofNat n) =
    some ⟨n - 0xf0, 3, if n = 240 then 0x90 else 0x80, if n = 244 then 0x8f else 0xbf⟩ := by
  have hn : (UInt8.ofNat n).toNat = n := UInt8.toNat_ofNat_of_lt' (show n < 256 by omega)
  have hfirst : ¬ n < 194 := by omega
  have hsecond : ¬ n < 224 := by omega
  simp [lead?, UInt8.lt_iff_toNat_lt, hn, hfirst, hsecond, h, h', ofNat_eq_iff (show n < 256 by omega)]

end

/-! ## Sequences -/

section
variable (position : Nat) (rest : Bytes)

theorem decodeFrom_single {n : Nat} (h : n < 128) :
    decodeFrom position none (UInt8.ofNat n :: rest) =
      (decodeFrom (position + 1) none rest).map (Char.ofNat n :: ·) := by
  have hn : (UInt8.ofNat n).toNat = n := UInt8.toNat_ofNat_of_lt' (show n < 256 by omega)
  rw [decodeFrom, if_pos (by rw [UInt8.lt_iff_toNat_lt, hn]; exact h), hn]

theorem decodeFrom_lead {n : Nat} {l : Lead} (h : 128 ≤ n) (h' : n < 256) (hl : lead? (UInt8.ofNat n) = some l) :
    decodeFrom position none (UInt8.ofNat n :: rest) =
      decodeFrom (position + 1) (some ⟨UInt8.ofNat n, position, 1, l.bits, l.more, l.low, l.high⟩) rest := by
  have hn : (UInt8.ofNat n).toNat = n := UInt8.toNat_ofNat_of_lt' h'
  rw [decodeFrom, if_neg (by rw [UInt8.lt_iff_toNat_lt, hn]; exact Nat.not_lt.mpr h), hl]

variable {p : Pending} {v : Nat} (hlow : p.low.toNat ≤ v % 64 + 128) (hhigh : v % 64 + 128 ≤ p.high.toNat)
include hlow hhigh

theorem decodeFrom_next (howed : 1 < p.owed) :
    decodeFrom position (some p) (continuation v :: rest) =
      decodeFrom (position + 1) (some ⟨p.lead, p.position, p.count + 1, p.bits * 64 + v % 64, p.owed - 1, 0x80, 0xbf⟩)
        rest := by
  rw [decodeFrom, if_neg (by simp [UInt8.lt_iff_toNat_lt, toNat_continuation]; omega), if_neg (by omega),
    toNat_continuation]
  simp

theorem decodeFrom_last (howed : p.owed = 1) :
    decodeFrom position (some p) (continuation v :: rest) =
      (decodeFrom (position + 1) none rest).map (Char.ofNat (p.bits * 64 + v % 64) :: ·) := by
  rw [decodeFrom, if_neg (by simp [UInt8.lt_iff_toNat_lt, toNat_continuation]; omega), if_pos (by omega),
    toNat_continuation]
  simp

end

/-! ## Characters -/

/-- The bytes of a character, by the size of its code point. -/
theorem encodeChar_cases (c : Char) :
    (c.toNat < 0x80 ∧ String.utf8EncodeChar c = [UInt8.ofNat c.toNat]) ∨
    (0x80 ≤ c.toNat ∧ c.toNat < 0x800 ∧
      String.utf8EncodeChar c = [UInt8.ofNat (c.toNat / 64 + 192), continuation c.toNat]) ∨
    (0x800 ≤ c.toNat ∧ c.toNat < 0x10000 ∧ String.utf8EncodeChar c =
      [UInt8.ofNat (c.toNat / 4096 + 224), continuation (c.toNat / 64), continuation c.toNat]) ∨
    (0x10000 ≤ c.toNat ∧ String.utf8EncodeChar c =
      [UInt8.ofNat (c.toNat / 262144 + 240), continuation (c.toNat / 4096), continuation (c.toNat / 64),
        continuation c.toNat]) := by
  have hvalid : c.toNat < 0xd800 ∨ 0xdfff < c.toNat ∧ c.toNat < 0x110000 := c.valid
  have hval : c.val.toNat = c.toNat := rfl
  unfold String.utf8EncodeChar continuation
  dsimp only
  rw [hval]
  by_cases h₁ : c.toNat ≤ 127
  · exact Or.inl ⟨by omega, if_pos h₁⟩
  by_cases h₂ : c.toNat ≤ 2047
  · refine Or.inr (Or.inl ⟨by omega, by omega, ?_⟩)
    rw [if_neg h₁, if_pos h₂, Nat.mod_eq_of_lt (show c.toNat / 64 < 32 by omega)]
  by_cases h₃ : c.toNat ≤ 65535
  · refine Or.inr (Or.inr (Or.inl ⟨by omega, by omega, ?_⟩))
    rw [if_neg h₁, if_neg h₂, if_pos h₃, Nat.mod_eq_of_lt (show c.toNat / 4096 < 16 by omega)]
  · refine Or.inr (Or.inr (Or.inr ⟨by omega, ?_⟩))
    rw [if_neg h₁, if_neg h₂, if_neg h₃, Nat.mod_eq_of_lt (show c.toNat / 262144 < 8 by omega)]

/-- A scan of a character's bytes gives the character, and goes on behind them. -/
theorem decodeFrom_encodeChar (c : Char) (position : Nat) (rest : Bytes) :
    decodeFrom position none (String.utf8EncodeChar c ++ rest) =
      (decodeFrom (position + (String.utf8EncodeChar c).length) none rest).map (c :: ·) := by
  have hvalid : c.toNat < 0xd800 ∨ 0xdfff < c.toNat ∧ c.toNat < 0x110000 := c.valid
  have hc : ∀ n, n = c.toNat → Char.ofNat n = c := fun n hn => by rw [hn, Char.ofNat_toNat]
  rcases encodeChar_cases c with ⟨hv, he⟩ | ⟨hv, hv', he⟩ | ⟨hv, hv', he⟩ | ⟨hv, he⟩
  · rw [he, List.singleton_append, decodeFrom_single _ _ hv, Char.ofNat_toNat]
    rfl
  · have hl := @lead?_two (c.toNat / 64 + 192) (by omega) (by omega)
    rw [he, List.cons_append, List.singleton_append, decodeFrom_lead _ _ (by omega) (by omega) hl,
      decodeFrom_last _ _ (by simp) (by simp; omega) rfl, hc _ (by simp; omega)]
    rfl
  · have hl := @lead?_three (c.toNat / 4096 + 224) (by omega) (by omega)
    rw [he, List.cons_append, List.cons_append, List.singleton_append, decodeFrom_lead _ _ (by omega) (by omega) hl,
      decodeFrom_next _ _ (by dsimp only; split <;> simp; omega) (by dsimp only; split <;> simp <;> omega) (by simp),
      decodeFrom_last _ _ (by simp) (by simp; omega) rfl, hc _ (by simp; omega)]
    rfl
  · have hl := @lead?_four (c.toNat / 262144 + 240) (by omega) (by omega)
    rw [he, List.cons_append, List.cons_append, List.cons_append, List.singleton_append,
      decodeFrom_lead _ _ (by omega) (by omega) hl,
      decodeFrom_next _ _ (by dsimp only; split <;> simp; omega) (by dsimp only; split <;> simp <;> omega) (by simp),
      decodeFrom_next _ _ (by simp) (by simp; omega) (by simp),
      decodeFrom_last _ _ (by simp) (by simp; omega) rfl, hc _ (by simp; omega)]
    rfl

/-! ## Texts -/

theorem decodeFrom_encode (t : Text) (position : Nat) : decodeFrom position none (encode t) = .ok t := by
  induction t generalizing position with
  | nil => rfl
  | cons c t ih =>
    show decodeFrom position none (String.utf8EncodeChar c ++ encode t) = _
    rw [decodeFrom_encodeChar, ih]
    rfl

theorem decode_encode (t : Text) : decode (encode t) = .ok t := decodeFrom_encode t 0

end Reckoner.Utf8
