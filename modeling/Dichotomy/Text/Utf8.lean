/-!
# Strict UTF-8

Reading bytes as text.  A sequence starts with a byte below `0x80`, which stands for itself, or
with a lead byte that fixes how many bytes follow and which range the first of them lies in; all
others lie in `0x80..0xBF`.  A fault names the bytes that cannot be read: the lead byte with those
followers that were in range.
-/

namespace Dichotomy

namespace Utf8

/-- Why a sequence of bytes is no character. -/
inductive Cause where
  /-- No character starts with the byte. -/
  | badStart
  /-- A byte that had to continue the character does not. -/
  | badContinuation
  /-- The bytes end within a character. -/
  | cutShort

/-- A sequence of bytes that cannot be read. -/
structure Damage where
  /-- Why it cannot be read. -/
  cause : Cause
  /-- The position of its first byte. -/
  start : Nat
  /-- How many bytes it has, at least one. -/
  length : Nat
  /-- Its first byte. -/
  first : Nat

/-- The fault in words. -/
def Damage.message (d : Damage) : String :=
  let reason := match d.cause with
    | .badStart => "invalid start byte"
    | .badContinuation => "invalid continuation byte"
    | .cutShort => "unexpected end of data"
  if d.length = 1 then
    let digits := String.ofList (Nat.toDigits 16 d.first)
    s!"'utf-8' codec can't decode byte 0x{digits} in position {d.start}: {reason}"
  else
    let last := d.start + d.length - 1
    s!"'utf-8' codec can't decode bytes in position {d.start}-{last}: {reason}"

/-- For a lead byte above `0x7F`: how many bytes follow it, and the range of the first of them. -/
def followers? (lead : Nat) : Option (Nat × Nat × Nat) :=
  if 0xC2 ≤ lead && lead ≤ 0xDF then some (1, 0x80, 0xBF)
  else if lead = 0xE0 then some (2, 0xA0, 0xBF)
  else if lead = 0xED then some (2, 0x80, 0x9F)
  else if 0xE1 ≤ lead && lead ≤ 0xEF then some (2, 0x80, 0xBF)
  else if lead = 0xF0 then some (3, 0x90, 0xBF)
  else if 0xF1 ≤ lead && lead ≤ 0xF3 then some (3, 0x80, 0xBF)
  else if lead = 0xF4 then some (3, 0x80, 0x8F)
  else none

/-- The bits that a lead byte with the given number of followers contributes. -/
def leadBits (lead count : Nat) : Nat :=
  lead % Nat.pow 2 (6 - count)

/-- What has been read of a character: its first byte and position, the bits so far, how many
    bytes are still owed and the range of the next one. -/
structure Pending where
  /-- The lead byte. -/
  lead : Nat
  /-- The position of the lead byte. -/
  start : Nat
  /-- The bits read so far. -/
  bits : Nat
  /-- How many bytes are owed. -/
  owed : Nat
  /-- The least value of the next byte. -/
  least : Nat
  /-- The greatest value of the next byte. -/
  most : Nat

/-- What has been read of the bytes. -/
structure Progress where
  /-- How many bytes have been read. -/
  position : Nat
  /-- The character that has been begun, if any. -/
  pending : Option Pending
  /-- The text of the finished characters. -/
  text : String

/-- Reads one more byte. -/
def Progress.step (p : Progress) (byte : Nat) : Except Damage Progress :=
  match p.pending with
  | none =>
    if byte < 0x80 then .ok ⟨p.position + 1, none, p.text.push (Char.ofNat byte)⟩
    else
      match followers? byte with
      | none => .error ⟨.badStart, p.position, 1, byte⟩
      | some (count, least, most) =>
        let begun : Pending := ⟨byte, p.position, leadBits byte count, count, least, most⟩
        .ok ⟨p.position + 1, some begun, p.text⟩
  | some c =>
    if c.least ≤ byte && byte ≤ c.most then
      let bits := c.bits * 64 + byte % 64
      if c.owed ≤ 1 then .ok ⟨p.position + 1, none, p.text.push (Char.ofNat bits)⟩
      else
        .ok ⟨p.position + 1, some ⟨c.lead, c.start, bits, c.owed - 1, 0x80, 0xBF⟩, p.text⟩
    else .error ⟨.badContinuation, c.start, p.position - c.start, c.lead⟩

/-- The text of all bytes, provided that they do not end within a character. -/
def Progress.finish (p : Progress) : Except Damage String :=
  match p.pending with
  | none => .ok p.text
  | some c => .error ⟨.cutShort, c.start, p.position - c.start, c.lead⟩

/-- The text that bytes stand for. -/
def decode (bytes : List Nat) : Except Damage String := do
  (← bytes.foldlM Progress.step ⟨0, none, ""⟩).finish

end Utf8

end Dichotomy
