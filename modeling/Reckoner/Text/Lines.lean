import Reckoner.Text.Blank

/-!
# Lines

Ten characters end a line, and a carriage return followed by a line feed ends one
line, not two. The last line needs no terminator.
-/

namespace Reckoner

def isLineBreak (c : Char) : Bool :=
  let n := c.toNat
  (10 ≤ n && n ≤ 13) || (28 ≤ n && n ≤ 30) || n == 0x85 || n == 0x2028 || n == 0x2029

/-- All line breaks. -/
def lineBreaks : List Char :=
  ['\n', '\u000b', '\u000c', '\r', '\u001c', '\u001d', '\u001e', '\u0085', '\u2028', '\u2029']

theorem mem_lineBreaks {c : Char} (h : isLineBreak c = true) : c ∈ lineBreaks := by
  have hall : ∀ n ∈ [10, 11, 12, 13, 28, 29, 30, 0x85, 0x2028, 0x2029], Char.ofNat n ∈ lineBreaks := by decide
  rw [← Char.ofNat_toNat c]
  refine hall c.toNat ?_
  simp only [isLineBreak, Bool.or_eq_true, Bool.and_eq_true, decide_eq_true_eq, beq_iff_eq] at h
  simp only [List.mem_cons, List.not_mem_nil, or_false]
  omega

namespace Text

def lines : Text → List Text
  | [] => []
  | '\r' :: '\n' :: rest => [] :: lines rest
  | c :: rest =>
    if isLineBreak c then [] :: lines rest
    else match lines rest with
      | [] => [[c]]
      | line :: more => (c :: line) :: more

/-- Writes every carriage return, alone or before a line feed, as one line feed. -/
def unifyNewlines : Text → Text
  | [] => []
  | '\r' :: '\n' :: rest => '\n' :: unifyNewlines rest
  | c :: rest => (if c = '\r' then '\n' else c) :: unifyNewlines rest

end Text

end Reckoner
