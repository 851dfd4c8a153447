import SqlDialect.Text.CaseTable
import SqlDialect.Text.Utf8

set_option autoImplicit false

/-! # Letter case

Changing case goes character by character with the simple mappings, so it never changes the number
of characters; a byte that is no character becomes U+FFFD. Two texts are equal up to case when
their characters have the same fold. -/

namespace SqlDialect

/-- The lower-case form of a code point. -/
def lowerCode (code : Nat) : Nat :=
  if code < 0x80 then if 65 ≤ code && code ≤ 90 then code + 32 else code
  else CaseRun.mapCode lowerRuns code

/-- The upper-case form of a code point. -/
def upperCode (code : Nat) : Nat :=
  if code < 0x80 then if 97 ≤ code && code ≤ 122 then code - 32 else code
  else CaseRun.mapCode upperRuns code

/-- Small letters without a capital of their own that count as another small letter. -/
def foldTwins : List (Nat × Nat) :=
  [(0x1FD3, 0x390), (0x1FE3, 0x3B0), (0xFB05, 0xFB06)]

/-- The representative of the code points that differ from `code` only in case. The dotted capital
and the dotless small I are each alone in their class. -/
def foldCode (code : Nat) : Nat :=
  if code == 0x130 || code == 0x131 then code
  else (foldTwins.lookup code).getD (lowerCode (upperCode code))

namespace Bytes

/-- The text in lower case. -/
def toLower (s : Bytes) : Bytes :=
  (Utf8.glyphs s).flatMap fun g => Utf8.encode (lowerCode g.code)

/-- The text in upper case. -/
def toUpper (s : Bytes) : Bytes :=
  (Utf8.glyphs s).flatMap fun g => Utf8.encode (upperCode g.code)

/-- Whether two texts differ at most in letter case. -/
def equalFold (s t : Bytes) : Bool :=
  (Utf8.glyphs s).map (fun g => foldCode g.code) == (Utf8.glyphs t).map fun g => foldCode g.code

end Bytes

end SqlDialect
