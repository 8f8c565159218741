import ScannerGen.Text.Ascii

/-!
# UTF-8

Texts are read as their UTF-8 bytes, and bytes are shown as text.

* `utf8 s` is the bytes of a text.
* `decode? bytes` is the text of valid bytes.
* `decodeLossy bytes` is a text for any bytes: each maximal part that cannot be completed to
  a character becomes one replacement character.

A character is read by a machine that takes one byte a step and knows how many
continuation bytes are still owed and within which bounds the next one lies.
-/

namespace ScannerGen

def utf8 (text : String) : List UInt8 := text.toList.flatMap String.utf8EncodeChar

namespace Utf8

/-- What is owed after the first bytes of a character: the number of continuation bytes, the
bounds of the next one, and the value of the bytes read. -/
structure Owed where
  count : Nat
  low : UInt8
  high : UInt8
  value : Nat
  deriving Repr

/-- What the first byte of a character of several bytes announces. -/
def Owed.ofFirst? (b : UInt8) : Option Owed :=
  if b < 0xc2 then none
  else if b ≤ 0xdf then some ⟨1, 0x80, 0xbf, b.toNat - 0xc0⟩
  else if b = 0xe0 then some ⟨2, 0xa0, 0xbf, 0⟩
  else if b = 0xed then some ⟨2, 0x80, 0x9f, 0xd⟩
  else if b ≤ 0xef then some ⟨2, 0x80, 0xbf, b.toNat - 0xe0⟩
  else if b = 0xf0 then some ⟨3, 0x90, 0xbf, 0⟩
  else if b ≤ 0xf3 then some ⟨3, 0x80, 0xbf, b.toNat - 0xf0⟩
  else if b = 0xf4 then some ⟨3, 0x80, 0x8f, 4⟩
  else none

/-- One continuation byte taken; the next one has the full bounds. -/
def Owed.take (owed : Owed) (b : UInt8) : Owed :=
  ⟨owed.count - 1, 0x80, 0xbf, owed.value * 64 + (b.toNat - 0x80)⟩

/-- A piece of decoded text: a character, or a part that is none. -/
inductive Piece where
  | char (c : Char)
  | invalid
  deriving DecidableEq, Repr

/-- Reads bytes into pieces, with the state inside a character, if any. -/
def pieces : Option Owed → List UInt8 → List Piece
  | none, [] => []
  | some _, [] => [.invalid]
  | none, b :: bs =>
    if b < 0x80 then .char (Char.ofNat b.toNat) :: pieces none bs
    else
      match Owed.ofFirst? b with
      | some owed => pieces (some owed) bs
      | none => .invalid :: pieces none bs
  | some owed, b :: bs =>
    if owed.low ≤ b && b ≤ owed.high then
      let next := owed.take b
      if next.count = 0 then .char (Char.ofNat next.value) :: pieces none bs
      else pieces (some next) bs
    else if b < 0x80 then .invalid :: .char (Char.ofNat b.toNat) :: pieces none bs
    else
      match Owed.ofFirst? b with
      | some other => .invalid :: pieces (some other) bs
      | none => .invalid :: .invalid :: pieces none bs

def Piece.toChar : Piece → Char
  | .char c => c
  | .invalid => '\ufffd'

def Piece.char? : Piece → Option Char
  | .char c => some c
  | .invalid => none

end Utf8

/-- The text of valid UTF-8 bytes. -/
def decode? (bytes : List UInt8) : Option String :=
  ((Utf8.pieces none bytes).mapM Utf8.Piece.char?).map String.ofList

/-- A text for any bytes, with replacement characters for what is not UTF-8. -/
def decodeLossy (bytes : List UInt8) : String :=
  String.ofList ((Utf8.pieces none bytes).map Utf8.Piece.toChar)

end ScannerGen
