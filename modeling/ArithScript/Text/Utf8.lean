/-!
# Text from bytes

`Utf8.decode` reads the UTF-8 form of a text and refuses everything else:
overlong forms, surrogates, code points above U+10FFFF, stray continuation
bytes and a sequence cut short. A refusal says where the good part ends and how
many bytes the bad sequence has.
-/

namespace ArithScript.Text.Utf8

/-- Where a byte sequence stops being UTF-8. -/
structure Fault where
  /-- The number of bytes before the sequence at fault, all of them good. -/
  offset : Nat
  /-- The number of bytes of the sequence before the first that cannot continue
  it, at least 1; `none` when the input ends inside a sequence that was good so
  far. -/
  width : Option Nat
  deriving DecidableEq, Repr

/-- A character of which some bytes are read. -/
structure OpenCharacter where
  /-- The bits read so far, as a number. -/
  code : Nat
  seen : Nat
  missing : Nat
  /-- The least value the next byte may have. -/
  low : UInt8
  /-- The greatest value the next byte may have. -/
  high : UInt8

/-- The character that `byte` opens. The bounds on the second byte leave out the
overlong forms (after E0 and F0), the surrogates (after ED) and what lies above
U+10FFFF (after F4). -/
def OpenCharacter.ofLead? (byte : UInt8) : Option OpenCharacter :=
  let b := byte.toNat
  if b < 0x80 then some ⟨b, 1, 0, 0x80, 0xBF⟩
  else if 0xC2 ≤ b ∧ b ≤ 0xDF then some ⟨b - 0xC0, 1, 1, 0x80, 0xBF⟩
  else if b = 0xE0 then some ⟨0, 1, 2, 0xA0, 0xBF⟩
  else if b = 0xED then some ⟨0xD, 1, 2, 0x80, 0x9F⟩
  else if 0xE1 ≤ b ∧ b ≤ 0xEF then some ⟨b - 0xE0, 1, 2, 0x80, 0xBF⟩
  else if b = 0xF0 then some ⟨0, 1, 3, 0x90, 0xBF⟩
  else if 0xF1 ≤ b ∧ b ≤ 0xF3 then some ⟨b - 0xF0, 1, 3, 0x80, 0xBF⟩
  else if b = 0xF4 then some ⟨4, 1, 3, 0x80, 0x8F⟩
  else none

/-- The character with `byte` added to it, if `byte` may stand there. -/
def OpenCharacter.push? (char : OpenCharacter) (byte : UInt8) : Option OpenCharacter :=
  if char.low ≤ byte ∧ byte ≤ char.high then
    some ⟨char.code * 64 + (byte.toNat - 0x80), char.seen + 1, char.missing - 1, 0x80, 0xBF⟩
  else none

/-- Reads on at a byte offset that starts a character: `char` holds the bytes of
it read so far, and `text` the characters before it, last first. -/
def decodeFrom (offset : Nat) (text : List Char) :
    Option OpenCharacter → List UInt8 → Except Fault (List Char)
  | none, [] => .ok text.reverse
  | some _, [] => .error ⟨offset, none⟩
  | none, byte :: bytes =>
    match OpenCharacter.ofLead? byte with
    | none => .error ⟨offset, some 1⟩
    | some char =>
      if char.missing = 0 then decodeFrom (offset + 1) (Char.ofNat char.code :: text) none bytes
      else decodeFrom offset text (some char) bytes
  | some char, byte :: bytes =>
    match char.push? byte with
    | none => .error ⟨offset, some char.seen⟩
    | some char =>
      if char.missing = 0 then
        decodeFrom (offset + char.seen) (Char.ofNat char.code :: text) none bytes
      else decodeFrom offset text (some char) bytes

/-- The text whose UTF-8 form the bytes are. -/
def decode (bytes : List UInt8) : Except Fault String :=
  (decodeFrom 0 [] none bytes).map String.ofList

end ArithScript.Text.Utf8
