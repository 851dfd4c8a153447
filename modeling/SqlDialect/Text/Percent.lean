import SqlDialect.Text.Bytes

set_option autoImplicit false

/-! # Percent coding

Bytes that have a meaning of their own inside an address are written as a percent sign and two
hexadecimal digits. In a query part a space is written as a plus sign. -/

namespace SqlDialect

namespace Bytes

/-- The value of a hexadecimal digit. -/
def hexValue? (b : UInt8) : Option Nat :=
  if isDigit b then some (b.toNat - 48)
  else if 97 ≤ b && b ≤ 102 then some (b.toNat - 87)
  else if 65 ≤ b && b ≤ 70 then some (b.toNat - 55)
  else none

/-- The upper-case hexadecimal digit of a number below 16. -/
def hexDigit (n : Nat) : UInt8 :=
  if n < 10 then (48 + n).toUInt8 else (55 + n).toUInt8

/-- A byte as a percent sign and two digits. -/
def percentCode (b : UInt8) : Bytes :=
  [37, hexDigit (b.toNat / 16), hexDigit (b.toNat % 16)]

/-- Whether the byte stands for itself in every part of an address. -/
def isUnreserved (b : UInt8) : Bool :=
  isWord b || b == 45 || b == 46 || b == 126

/-- Writes a text as one segment of a path. -/
def escapeSegment (s : Bytes) : Bytes :=
  s.flatMap fun b =>
    if isUnreserved b || (ascii "$&+:=@").contains b then [b] else percentCode b

/-- Writes a text as a value of a query. -/
def escapeQuery (s : Bytes) : Bytes :=
  s.flatMap fun b => if b == 32 then [43] else if isUnreserved b then [b] else percentCode b

/-- Reads coded bytes, with a plus sign for a space if `plus` says so. The error is a percent sign that
is not followed by two digits, together with up to two bytes behind it. -/
def unescape (plus : Bool) : Bytes → Except Bytes Bytes
  | [] => .ok []
  | b :: s =>
    if b = 37 then
      match s with
      | c :: d :: rest =>
        match hexValue? c, hexValue? d with
        | some high, some low =>
          (unescape plus rest).map ((high * 16 + low).toUInt8 :: ·)
        | _, _ => .error [b, c, d]
      | _ => .error (b :: s)
    else (unescape plus s).map ((if plus && b == 43 then 32 else b) :: ·)

/-- Reads one segment of a path. -/
def unescapeSegment? (s : Bytes) : Option Bytes :=
  (unescape false s).toOption

/-- Reads a value of a query. -/
def unescapeQuery? (s : Bytes) : Option Bytes :=
  (unescape true s).toOption

end Bytes

end SqlDialect
