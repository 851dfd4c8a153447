import SqlDialect.Text.Percent

set_option autoImplicit false

/-! # Numerals

Integers as they are given on a command line: with an optional sign and, in front of the digits, a
zero and a letter for the base, or a zero alone for base eight. Underscores may separate digits. -/

namespace SqlDialect

/-- Why a text is no integer of 64 bits. -/
inductive NumeralFault where
  | malformed
  | outOfRange
deriving Repr, DecidableEq

namespace NumeralFault

/-- The wording of a fault. -/
def message : NumeralFault → Bytes
  | malformed => ascii "invalid syntax"
  | outOfRange => ascii "value out of range"

end NumeralFault

namespace Numeral

/-- The base of unsigned digits and the digits without its mark. -/
def splitBase (s : Bytes) : Nat × Bytes :=
  match s with
  | 48 :: letter :: digit :: rest =>
    if letter = 98 ∨ letter = 66 then (2, digit :: rest)
    else if letter = 111 ∨ letter = 79 then (8, digit :: rest)
    else if letter = 120 ∨ letter = 88 then (16, digit :: rest)
    else (8, letter :: digit :: rest)
  | 48 :: rest => (8, rest)
  | _ => (10, s)

/-- Whether underscores stand only between digits, the mark of a base counting as one. -/
def hasProperMarks (s : Bytes) : Bool :=
  let digits := if (splitBase s).1 = 10 then s else 48 :: (splitBase s).2
  (Bytes.splitOnByte 95 digits).all fun group => !group.isEmpty

/-- Reads digits of a base, passing over underscores; `n` is the value so far. -/
def digits (base : Nat) (n : Nat) : Bytes → Except NumeralFault Nat
  | [] => .ok n
  | b :: s =>
    if b = 95 then digits base n s
    else
      match Bytes.hexValue? b with
      | none => .error .malformed
      | some d =>
        if base ≤ d then .error .malformed
        else if 18446744073709551616 ≤ n * base + d then .error .outOfRange
        else digits base (n * base + d) s

/-- Whether a minus sign is in front, and the text without its sign. -/
def splitSign (s : Bytes) : Bool × Bytes :=
  match s with
  | 43 :: rest => (false, rest)
  | 45 :: rest => (true, rest)
  | _ => (false, s)

/-- A number with its sign, if it fits into 64 bits. -/
def signed (negative : Bool) (n : Nat) : Except NumeralFault Int :=
  if negative then if n ≤ 9223372036854775808 then .ok (-(n : Int)) else .error .outOfRange
  else if n < 9223372036854775808 then .ok n else .error .outOfRange

/-- Reads an integer of 64 bits. -/
def parse (s : Bytes) : Except NumeralFault Int :=
  let (negative, unsigned) := splitSign s
  if unsigned.isEmpty then .error .malformed
  else
    let (base, rest) := splitBase unsigned
    match digits base 0 rest with
    | .error f => .error f
    | .ok n =>
      if unsigned.contains 95 && !hasProperMarks unsigned then .error .malformed
      else signed negative n

/-- Reads an integer of 64 bits in decimal digits, with an optional sign and no underscores. -/
def parseDecimal (s : Bytes) : Except NumeralFault Int :=
  let (negative, unsigned) := splitSign s
  if unsigned.isEmpty then .error .malformed
  else
    match digits 10 0 (unsigned.takeWhile (· != 95)) with
    | .error f => .error f
    | .ok n => if unsigned.contains 95 then .error .malformed else signed negative n

end Numeral

end SqlDialect
