import SqlDialect.Text.Percent
import SqlDialect.Time.Instant

set_option autoImplicit false

/-! # Numbers and dates of a settings file

The forms of integers, floats and dates. Underscores may stand between digits. An integer has to fit
into 64 bits and a float must not be beyond the largest double; the value of a float, or of a date,
does not matter to any setting. -/

namespace SqlDialect

namespace Toml

/-! ## Digits -/

/-- Takes the underscores out of a run of digits in the given class; none if one does not stand
between digits, or if there is no digit. -/
def digitGroups? (isDigit : UInt8 → Bool) (s : Bytes) : Option Bytes :=
  let groups := Bytes.splitOnByte 95 s
  if groups.all fun g => !g.isEmpty && g.all isDigit then some groups.flatten else none

/-- Whether a run of digits starts with a zero that does not belong there. -/
def hasLeadingZero (s : Bytes) : Bool :=
  1 < s.length && s.head? == some 48

/-- The sign in front of a number, if there is one, and what follows. -/
def splitSign (s : Bytes) : Option UInt8 × Bytes :=
  match s with
  | 43 :: rest => (some 43, rest)
  | 45 :: rest => (some 45, rest)
  | _ => (none, s)

/-! ## Integers -/

/-- Whether the number fits into a signed 64-bit word. -/
def isWord64 (n : Int) : Bool :=
  -9223372036854775808 ≤ n && n < 9223372036854775808

/-- Reads a decimal integer with an optional sign. -/
def decimalInteger? (s : Bytes) : Option Int := do
  let (sign, digits) := splitSign s
  let plain ← digitGroups? Bytes.isDigit digits
  let n : Int := Bytes.digitsValue plain
  let n := if sign = some 45 then -n else n
  if hasLeadingZero digits || !isWord64 n then none else some n

/-- The base that follows a zero. -/
def base? : UInt8 → Option Nat
  | 98 => some 2
  | 111 => some 8
  | 120 => some 16
  | _ => none

/-- Whether the byte is a digit in the base. -/
def isBaseDigit (base : Nat) (b : UInt8) : Bool :=
  match Bytes.hexValue? b with
  | some n => n < base
  | none => false

/-- Reads the digits of an integer in the given base. -/
def basedInteger? (base : Nat) (s : Bytes) : Option Int := do
  let plain ← digitGroups? (isBaseDigit base) s
  let n : Int := plain.foldl (fun n b => n * base + (Bytes.hexValue? b).getD 0) (0 : Nat)
  if isWord64 n then some n else none

/-! ## Floats -/

/-- The least number that is rounded to infinity as a double. -/
def doubleLimit : Nat := Nat.pow 2 1024 - Nat.pow 2 970

/-- Whether `mantissa * 10 ^ exponent` is beyond the largest double. -/
def isBeyondDouble (mantissa : Nat) (exponent : Int) : Bool :=
  let size := ((Bytes.decimal mantissa).length : Int) + exponent
  if mantissa = 0 ∨ size < 300 then false
  else if 320 < size then true
  else if 0 ≤ exponent then doubleLimit ≤ mantissa * Nat.pow 10 exponent.toNat
  else doubleLimit * Nat.pow 10 exponent.natAbs ≤ mantissa

/-- The text before and after the first byte that satisfies `p`, if there is one. -/
def splitAt? (p : UInt8 → Bool) (s : Bytes) : Bytes × Option Bytes :=
  match s.dropWhile fun b => !p b with
  | [] => (s, none)
  | _ :: rest => (s.takeWhile fun b => !p b, some rest)

/-- Whether the text, with an optional sign, is a float. -/
def isFloat (s : Bytes) : Bool :=
  let number := (splitSign s).2
  let (mantissa, exponent) := splitAt? (fun b => b == 101 || b == 69) number
  let (whole, fraction) := splitAt? (· == 46) mantissa
  let parts := do
    let w ← digitGroups? Bytes.isDigit whole
    let f ← match fraction with
      | some f => digitGroups? Bytes.isDigit f
      | none => some []
    let e ← match exponent with
      | some e =>
        let (sign, digits) := splitSign e
        (digitGroups? Bytes.isDigit digits).map fun d =>
          let n : Int := Bytes.digitsValue d
          if sign = some 45 then -n else n
      | none => some 0
    some (Bytes.digitsValue (w ++ f), e - f.length)
  match parts with
  | some (m, e) => !hasLeadingZero whole && !isBeyondDouble m e
  | none => false

/-! ## Dates -/

/-- Reads a time of day, the seconds of which may be left out. -/
def clock? (s : Bytes) : Option Bytes :=
  match Instant.time? s with
  | some (_, rest) => (Instant.fraction? rest).map Prod.snd
  | none => do
    let (hour, s) ← Instant.digits? 2 s
    let (minute, s) ← Instant.digits? 2 (← Bytes.dropLead? (ascii ":") s)
    if hour < 24 ∧ minute < 60 ∧ s.head? ≠ some 58 then some s else none

/-- Whether the text is a distance from UTC: none, `Z`, or a sign with hours and minutes. -/
def isOffset (s : Bytes) : Bool :=
  match splitSign s with
  | (none, rest) => rest.isEmpty || rest == ascii "Z"
  | (some _, rest) =>
    let parts := do
      let (hours, rest) ← Instant.digits? 2 rest
      let (minutes, rest) ← Instant.digits? 2 (← Bytes.dropLead? (ascii ":") rest)
      some (hours, minutes, rest)
    match parts with
    | some (hours, minutes, rest) => hours ≤ 24 && minutes ≤ 60 && rest.isEmpty
    | none => false

/-- Whether the text is a date, a time of day, or both with an optional distance from UTC. Between
date and time stands a `T` or a space. -/
def isDatetime (s : Bytes) : Bool :=
  let s := s.map fun b => if b == 116 || b == 32 then 84 else if b == 122 then 90 else b
  match Instant.date? s with
  | some (_, []) => true
  | some (_, 84 :: rest) =>
    match clock? rest with
    | some offset => isOffset offset
    | none => false
  | some _ => false
  | none => clock? s == some []

end Toml

end SqlDialect
