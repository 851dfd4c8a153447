import SqlDialect.Text.Bytes

set_option autoImplicit false

/-! # Characters of a byte text

A byte text is read as a sequence of characters: each well-formed UTF-8 sequence is one
character, and every byte that starts none stands for the replacement character U+FFFD, one byte
wide. So every text has exactly one reading and the bytes of its characters, in order, are the
text itself. -/

namespace SqlDialect

/-- A character of a text: its code point and the bytes it was read from. -/
structure Glyph where
  code : Nat
  raw : Bytes
deriving Repr, DecidableEq

namespace Utf8

/-- The code point that stands for a byte which starts no well-formed sequence. -/
def replacement : Nat := 0xFFFD

/-- Whether the byte continues a sequence. -/
def isContinuation (b : UInt8) : Bool :=
  0x80 ≤ b && b ≤ 0xBF

/-- The payload of a continuation byte. -/
def payload (b : UInt8) : Nat :=
  b.toNat % 64

/-- The code point of the character that starts with the byte `b` followed by `s`, and how many
bytes of `s` belong to it. -/
@[inline]
def lead (b : UInt8) (s : Bytes) : Nat × Nat :=
  if b < 0x80 then (b.toNat, 0)
  else if 0xC2 ≤ b && b ≤ 0xDF then
    match s with
    | b₁ :: _ =>
      if isContinuation b₁ then (b.toNat % 32 * 64 + payload b₁, 1) else (replacement, 0)
    | [] => (replacement, 0)
  else if 0xE0 ≤ b && b ≤ 0xEF then
    match s with
    | b₁ :: b₂ :: _ =>
      let low : UInt8 := if b = 0xE0 then 0xA0 else 0x80
      let high : UInt8 := if b = 0xED then 0x9F else 0xBF
      if low ≤ b₁ && b₁ ≤ high && isContinuation b₂ then
        (b.toNat % 16 * 4096 + payload b₁ * 64 + payload b₂, 2)
      else (replacement, 0)
    | _ => (replacement, 0)
  else if 0xF0 ≤ b && b ≤ 0xF4 then
    match s with
    | b₁ :: b₂ :: b₃ :: _ =>
      let low : UInt8 := if b = 0xF0 then 0x90 else 0x80
      let high : UInt8 := if b = 0xF4 then 0x8F else 0xBF
      if low ≤ b₁ && b₁ ≤ high && isContinuation b₂ && isContinuation b₃ then
        (b.toNat % 8 * 262144 + payload b₁ * 4096 + payload b₂ * 64 + payload b₃, 3)
      else (replacement, 0)
    | _ => (replacement, 0)
  else (replacement, 0)

/-- The characters of a text after its first `skip` bytes. -/
def glyphsFrom : Nat → Bytes → List Glyph
  | _, [] => []
  | skip + 1, _ :: s => glyphsFrom skip s
  | 0, b :: s =>
    let (code, n) := lead b s
    ⟨code, b :: s.take n⟩ :: glyphsFrom n s

/-- The characters of a text. -/
def glyphs (s : Bytes) : List Glyph :=
  glyphsFrom 0 s

/-- The text that the characters were read from. -/
def ofGlyphs (gs : List Glyph) : Bytes :=
  gs.flatMap Glyph.raw

/-- The UTF-8 form of a code point; one that is no scalar value is written as U+FFFD. -/
def encode (code : Nat) : Bytes :=
  if code < 0x80 then [code.toUInt8]
  else if code < 0x800 then [(0xC0 + code / 64).toUInt8, (0x80 + code % 64).toUInt8]
  else if 0xD800 ≤ code && code ≤ 0xDFFF || 0x10FFFF < code then [0xEF, 0xBF, 0xBD]
  else if code < 0x10000 then
    [(0xE0 + code / 4096).toUInt8, (0x80 + code / 64 % 64).toUInt8, (0x80 + code % 64).toUInt8]
  else
    [(0xF0 + code / 262144).toUInt8, (0x80 + code / 4096 % 64).toUInt8,
      (0x80 + code / 64 % 64).toUInt8, (0x80 + code % 64).toUInt8]

/-- Whether every byte belongs to a well-formed sequence. -/
def isValid (s : Bytes) : Bool :=
  (glyphs s).all fun g => g.code != replacement || g.raw.length == 3

end Utf8

end SqlDialect
