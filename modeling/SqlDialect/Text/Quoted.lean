import SqlDialect.Text.PrintTable
import SqlDialect.Text.Utf8

set_option autoImplicit false

/-! # Quoted text

Messages show names and values between double quotes: a quote and a backslash get a backslash in
front, what cannot be shown is written as an escape, and a byte that is no character by its two
digits. -/

namespace SqlDialect

/-- A number in hexadecimal, with leading zeros up to the given width. -/
def Bytes.hex (width n : Nat) : Bytes :=
  let digits := (Nat.toDigits 16 n).map fun c => c.toNat.toUInt8
  List.replicate (width - digits.length) 48 ++ digits

/-- The letter that follows the backslash for a control character that has its own escape. -/
def escapeLetter? : Nat → Option UInt8
  | 7 => some 97
  | 8 => some 98
  | 9 => some 116
  | 10 => some 110
  | 11 => some 118
  | 12 => some 102
  | 13 => some 114
  | _ => none

namespace Glyph

/-- A character between quotes `q`. -/
def quoted (q : Nat) (g : Glyph) : Bytes :=
  if g.code = Utf8.replacement ∧ g.raw.length = 1 then
    g.raw.flatMap fun b => ascii "\\x" ++ Bytes.hex 2 b.toNat
  else if g.code = q ∨ g.code = 92 then 92 :: g.raw
  else if isPrintable g.code then g.raw
  else
    match escapeLetter? g.code with
    | some letter => [92, letter]
    | none =>
      if g.code < 32 ∨ g.code = 127 then ascii "\\x" ++ Bytes.hex 2 g.code
      else if g.code < 0x10000 then ascii "\\u" ++ Bytes.hex 4 g.code
      else ascii "\\U" ++ Bytes.hex 8 g.code

end Glyph

/-- The text between double quotes. -/
def Bytes.quoted (s : Bytes) : Bytes :=
  34 :: (Utf8.glyphs s).flatMap (Glyph.quoted 34) ++ [34]

/-- A single character between apostrophes. -/
def quotedCharacter (code : Nat) : Bytes :=
  39 :: Glyph.quoted 39 ⟨code, Utf8.encode code⟩ ++ [39]

end SqlDialect
