import SqlDialect.Number.Binary
import SqlDialect.Text.Bytes

set_option autoImplicit false

/-! # Durations

Lengths of time in nanoseconds. They are written as decimal numbers with units, such as `1m30s` or
`1.5ms`; on reading, the parts may come in any order and number. The decimals of a part count as a
number of 53 bits, so a long fraction may be rounded up to the next nanosecond. -/

namespace SqlDialect

/-- A length of time in nanoseconds. -/
structure Duration where
  nanos : Int
deriving Repr, DecidableEq

/-- Why a text is no duration of 64 bits. -/
inductive DurationFault where
  | malformed
  | noUnit
  | unknownUnit (name : Bytes)
deriving Repr, DecidableEq

namespace DurationFault

/-- A text between quotes, where every byte beyond ASCII and every control character is written by its
two digits. -/
def shown (s : Bytes) : Bytes :=
  34 :: (s.flatMap fun b =>
    if 0x80 ≤ b ∨ b < 32 then
      ascii "\\x" ++ (Nat.toDigits 16 (b.toNat / 16) ++ Nat.toDigits 16 (b.toNat % 16)).map
        fun c => c.toNat.toUInt8
    else if b = 34 ∨ b = 92 then [92, b]
    else [b]) ++ [34]

/-- The wording of a fault in a text. -/
def message (text : Bytes) : DurationFault → Bytes
  | malformed => ascii "time: invalid duration " ++ shown text
  | noUnit => ascii "time: missing unit in duration " ++ shown text
  | unknownUnit name =>
    ascii "time: unknown unit " ++ shown name ++ ascii " in duration " ++ shown text

end DurationFault

namespace Duration

/-! ## Reading -/

/-- The micro sign and its Greek look-alike, each before an `s`. -/
def microSeconds : List Bytes :=
  [ascii "us", [0xC2, 0xB5, 115], [0xCE, 0xBC, 115]]

/-- The nanoseconds of a unit. -/
def unit? (name : Bytes) : Option Nat :=
  if name = ascii "ns" then some 1
  else if microSeconds.contains name then some 1000
  else if name = ascii "ms" then some 1000000
  else if name = ascii "s" then some 1000000000
  else if name = ascii "m" then some 60000000000
  else if name = ascii "h" then some 3600000000000
  else none

/-- Whether the byte belongs to a number. -/
def isNumeral (b : UInt8) : Bool :=
  Bytes.isDigit b || b == 46

/-- The largest number of nanoseconds that is not too long in either direction. -/
def limit : Nat := 9223372036854775808

/-- The decimals of a number: `digits / scale`. -/
structure Decimals where
  digits : Nat := 0
  scale : Binary := .ofNat 1
deriving Repr, DecidableEq

namespace Decimals

/-- Reads decimals. They end before the first one that does not fit into 64 bits. -/
def read (d : Decimals) : Bytes → Decimals
  | [] => d
  | b :: s =>
    let digits := d.digits * 10 + (b.toNat - 48)
    if (limit - 1) / 10 < d.digits ∨ limit < digits then d
    else read { digits, scale := d.scale.mul (.ofNat 10) } s

/-- The decimals as a part of a unit. -/
def of (d : Decimals) (unit : Nat) : Nat :=
  ((Binary.ofNat d.digits).mul ((Binary.ofNat unit).div d.scale)).floor

end Decimals

/-- Reads one number with its unit: the nanoseconds and what follows. -/
def part (s : Bytes) : Except DurationFault (Nat × Bytes) :=
  let whole := s.takeWhile Bytes.isDigit
  let (decimals, rest) :=
    match s.dropWhile Bytes.isDigit with
    | 46 :: t => (t.takeWhile Bytes.isDigit, t.dropWhile Bytes.isDigit)
    | t => ([], t)
  let name := rest.takeWhile fun b => !isNumeral b
  if whole.isEmpty ∧ decimals.isEmpty ∨ limit < Bytes.digitsValue whole then .error .malformed
  else if name.isEmpty then .error .noUnit
  else
    match unit? name with
    | none => .error (.unknownUnit name)
    | some unit =>
      let nanos := Bytes.digitsValue whole * unit + (Decimals.read {} decimals).of unit
      if limit < nanos then .error .malformed
      else .ok (nanos, rest.dropWhile fun b => !isNumeral b)

/-- Reads numbers with units up to the end of the text, at most `count` of them; `sum` is what was read
before. -/
def parts (sum : Nat) : Nat → Bytes → Except DurationFault Nat
  | _, [] => .ok sum
  | 0, _ => .error .malformed
  | count + 1, s =>
    match part s with
    | .error f => .error f
    | .ok (n, rest) => if limit < sum + n then .error .malformed else parts (sum + n) count rest

/-- Reads a duration. -/
def parse (s : Bytes) : Except DurationFault Duration :=
  let (negative, s) :=
    match s with
    | 43 :: rest => (false, rest)
    | 45 :: rest => (true, rest)
    | _ => (false, s)
  if s = ascii "0" then .ok ⟨0⟩
  else if s.isEmpty then .error .malformed
  else
    match parts 0 s.length s with
    | .error f => .error f
    | .ok n =>
      if negative then .ok ⟨-n⟩
      else if n < limit then .ok ⟨n⟩
      else .error .malformed

/-- Reads a duration; none if it is no duration or does not fit into 64 bits. -/
def parse? (s : Bytes) : Option Duration :=
  (parse s).toOption

/-! ## Writing -/

/-- `n / 10 ^ places` in decimal, without zeros at its end. -/
def decimalText (n places : Nat) : Bytes :=
  let digits := Bytes.decimal (n % Nat.pow 10 places)
  let decimals := Bytes.dropTailWhile (· == 48)
    (List.replicate (places - digits.length) 48 ++ digits)
  Bytes.decimal (n / Nat.pow 10 places) ++ if decimals.isEmpty then [] else 46 :: decimals

/-- The text of a duration that is not negative. -/
def textOf (n : Nat) : Bytes :=
  if n = 0 then ascii "0s"
  else if n < 1000 then Bytes.decimal n ++ ascii "ns"
  else if n < 1000000 then decimalText n 3 ++ [0xC2, 0xB5, 115]
  else if n < 1000000000 then decimalText n 6 ++ ascii "ms"
  else
    let minutes := n / 60000000000
    let seconds := decimalText (n % 60000000000) 9 ++ ascii "s"
    let hourText := if minutes < 60 then [] else Bytes.decimal (minutes / 60) ++ ascii "h"
    let minuteText := if minutes = 0 then [] else Bytes.decimal (minutes % 60) ++ ascii "m"
    hourText ++ minuteText ++ seconds

/-- The text of a duration. -/
def text (d : Duration) : Bytes :=
  if d.nanos < 0 then 45 :: textOf d.nanos.natAbs else textOf d.nanos.natAbs

end Duration

end SqlDialect
