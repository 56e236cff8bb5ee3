import Reckoner.Text.Basic

/-!
# UTF-8

Bytes and the text they stand for. A sequence starts with a lead byte, which says
how many continuation bytes follow and how far the first of them may range: so
no character has two encodings, and no surrogate has one. A refusal says which
bytes are at fault and why.
-/

namespace Reckoner.Utf8

abbrev Bytes := List UInt8

inductive Reason
  /-- No sequence starts with this byte. -/
  | start
  /-- The byte after the faulty ones cannot continue them. -/
  | continuation
  /-- The data ends inside a sequence. -/
  | truncated
  deriving DecidableEq, Repr

/-- The faulty bytes: the first of them, its position, their number. -/
structure Malformed where
  lead : UInt8
  position : Nat
  count : Nat
  reason : Reason
  deriving DecidableEq, Repr

/-! ## Lead bytes -/

/-- What a lead byte fixes: its own bits of the code point, the number of
continuation bytes, and the range of the first of them. -/
structure Lead where
  bits : Nat
  more : Nat
  low : UInt8
  high : UInt8

def lead? (b : UInt8) : Option Lead :=
  if b < 0xc2 then none
  else if b < 0xe0 then some ⟨b.toNat - 0xc0, 1, 0x80, 0xbf⟩
  else if b < 0xf0 then
    some ⟨b.toNat - 0xe0, 2, if b = 0xe0 then 0xa0 else 0x80, if b = 0xed then 0x9f else 0xbf⟩
  else if b < 0xf5 then
    some ⟨b.toNat - 0xf0, 3, if b = 0xf0 then 0x90 else 0x80, if b = 0xf4 then 0x8f else 0xbf⟩
  else none

/-! ## Decoding -/

/-- A sequence that has begun: its lead byte and position, the bytes read and the
bits they gave, the bytes still owed, and the range of the next one. -/
structure Pending where
  lead : UInt8
  position : Nat
  count : Nat
  bits : Nat
  owed : Nat
  low : UInt8
  high : UInt8

/-- Reads bytes from `position` on, inside the sequence `pending` if there is one. -/
def decodeFrom (position : Nat) : Option Pending → Bytes → Except Malformed Text
  | none, [] => .ok []
  | some p, [] => .error ⟨p.lead, p.position, p.count, .truncated⟩
  | none, b :: rest =>
    if b < 0x80 then (decodeFrom (position + 1) none rest).map (Char.ofNat b.toNat :: ·)
    else match lead? b with
      | none => .error ⟨b, position, 1, .start⟩
      | some l => decodeFrom (position + 1) (some ⟨b, position, 1, l.bits, l.more, l.low, l.high⟩) rest
  | some p, b :: rest =>
    if b < p.low || p.high < b then .error ⟨p.lead, p.position, p.count, .continuation⟩
    else
      let bits := p.bits * 64 + (b.toNat - 0x80)
      if p.owed ≤ 1 then (decodeFrom (position + 1) none rest).map (Char.ofNat bits :: ·)
      else
        decodeFrom (position + 1)
          (some { p with count := p.count + 1, bits := bits, owed := p.owed - 1, low := 0x80, high := 0xbf }) rest

def decode (bytes : Bytes) : Except Malformed Text := decodeFrom 0 none bytes

def encode (t : Text) : Bytes := t.flatMap String.utf8EncodeChar

/-! ## What a refusal says -/

def Reason.message : Reason → Text
  | .start => "invalid start byte".toList
  | .continuation => "invalid continuation byte".toList
  | .truncated => "unexpected end of data".toList

/-- Names the faulty byte, or where the faulty bytes stand if there are several. -/
def Malformed.message (m : Malformed) : Text :=
  "'utf-8' codec can't decode ".toList ++
    (if m.count = 1 then
      "byte 0x".toList ++ Text.hexadecimal 2 m.lead.toNat ++ " in position ".toList ++
        Text.natural m.position
    else
      "bytes in position ".toList ++ Text.natural m.position ++ ['-'] ++
        Text.natural (m.position + m.count - 1)) ++
    ": ".toList ++ m.reason.message

end Reckoner.Utf8
