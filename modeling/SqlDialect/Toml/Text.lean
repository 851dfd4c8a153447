import SqlDialect.Text.Percent
import SqlDialect.Text.Utf8

set_option autoImplicit false

/-! # Texts of a settings file

A text stands between quotes. Between double quotes a backslash starts an escape; between apostrophes
every byte stands for itself. A text between three quotes may span lines and hold up to two quotes in
a row, even right before its end. -/

namespace SqlDialect

namespace Toml

/-! ## Finding the end -/

/-- The text up to the closing double quote, escapes included, and what follows. The text ends on its
line. -/
def upToQuote? : Bytes → Option (Bytes × Bytes)
  | [] => none
  | b :: s =>
    if b = 34 then some ([], s)
    else if b = 10 ∨ b = 13 then none
    else if b = 92 then
      match s with
      | [] => none
      | c :: s => (upToQuote? s).map fun (text, rest) => (b :: c :: text, rest)
    else (upToQuote? s).map fun (text, rest) => (b :: text, rest)

/-- The text up to the closing apostrophe and what follows. The text ends on its line. -/
def upToApostrophe? (s : Bytes) : Option (Bytes × Bytes) :=
  match Bytes.cut? [39] s with
  | some (text, rest) => if text.contains 10 then none else some (text, rest)
  | none => none

/-- The text up to the three closing quotes `q` and what follows; `before` is the text read so far,
its last byte first. Six quotes in a row end nothing and are refused, but a backslash before the
last five excuses them if the quote is a double one. -/
def upToTriple? (q : UInt8) (before : Bytes) : Bytes → Option (Bytes × Bytes)
  | [] => none
  | b :: s =>
    if b = q ∧ Bytes.startsWith s [q, q] then
      if Bytes.startsWith s [q, q, q] then
        if Bytes.startsWith before [q, q] ∧
            !(q = 34 ∧ Bytes.startsWith before [q, q, 92]) then none
        else upToTriple? q (b :: before) s
      else some (before.reverse, s.drop 2)
    else if q = 34 ∧ b = 92 then
      match s with
      | [] => none
      | c :: s => upToTriple? q (c :: b :: before) s
    else upToTriple? q (b :: before) s

/-! ## Escapes -/

/-- The value of hexadecimal digits. -/
def hexNumber? (digits : Bytes) : Option Nat :=
  digits.foldlM (fun n b => (Bytes.hexValue? b).map (n * 16 + ·)) 0

/-- The character of a code given by its digits; none if there is no such character. -/
def codeCharacter? (digits : Bytes) : Option Bytes :=
  match hexNumber? digits with
  | some code =>
    if code < 0xD800 || 0xDFFF < code && code < 0x110000 then some (Utf8.encode code) else none
  | none => none

/-- What a letter behind a backslash stands for. -/
def escapedByte? : UInt8 → Option UInt8
  | 98 => some 8
  | 116 => some 9
  | 110 => some 10
  | 102 => some 12
  | 114 => some 13
  | 101 => some 27
  | 34 => some 34
  | 92 => some 92
  | _ => none

/-- How many digits of a code follow a letter behind a backslash. -/
def codeLength? : UInt8 → Option Nat
  | 120 => some 2
  | 117 => some 4
  | 85 => some 8
  | _ => none

/-- Whether the byte is a blank or ends a line. -/
def isGap (b : UInt8) : Bool :=
  b == 32 || b == 9 || b == 10 || b == 13

/-- What the text behind a backslash stands for, and how many of its bytes belong to the escape. In a
text of several lines a backslash at the end of a line takes away all blanks up to the next word. -/
def escape? (multiline : Bool) : Bytes → Option (Bytes × Nat)
  | [] => none
  | b :: s =>
    let gap := (b :: s).takeWhile isGap
    if gap.isEmpty then
      match escapedByte? b, codeLength? b with
      | some c, _ => some ([c], 1)
      | none, some n =>
        if (s.take n).length = n then (codeCharacter? (s.take n)).map fun c => (c, n + 1) else none
      | none, none => none
    else if multiline ∧ gap.contains 10 then some ([], gap.length)
    else none

/-- Replaces the escapes of a text after its first `skip` bytes. -/
def unescapeFrom? (multiline : Bool) : Nat → Bytes → Option Bytes
  | _, [] => some []
  | skip + 1, _ :: s => unescapeFrom? multiline skip s
  | 0, b :: s =>
    if b = 92 then
      match escape? multiline s with
      | some (text, n) => (unescapeFrom? multiline n s).map (text ++ ·)
      | none => none
    else (unescapeFrom? multiline 0 s).map (b :: ·)

/-- A text without the line break that it starts with. -/
def dropFirstBreak : Bytes → Bytes
  | 10 :: s => s
  | 13 :: 10 :: s => s
  | s => s

/-! ## Reading -/

/-- Reads a text of one line, which may be a name. -/
def lineText? : Bytes → Option (Bytes × Bytes)
  | 34 :: s => do
    let (text, rest) ← upToQuote? s
    some (← unescapeFrom? false 0 text, rest)
  | 39 :: s => upToApostrophe? s
  | _ => none

/-- Reads a text. -/
def text? (s : Bytes) : Option (Bytes × Bytes) :=
  match s with
  | 34 :: 34 :: 34 :: s => do
    let (text, rest) ← upToTriple? 34 [] s
    some (← unescapeFrom? true 0 (dropFirstBreak text), rest)
  | 39 :: 39 :: 39 :: s => (upToTriple? 39 [] s).map fun (text, rest) => (dropFirstBreak text, rest)
  | _ => lineText? s

end Toml

end SqlDialect
