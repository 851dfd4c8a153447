import SqlDialect.Text.Named
import SqlDialect.Text.Space

set_option autoImplicit false

/-! # Armoured data

Binary data inside a text: a line `-----BEGIN kind-----`, lines `name: value` if there are any, the data
with six bits to a character, and a line `-----END kind-----`. Whatever stands outside such blocks, or
looks like a block but is none, is passed over. -/

namespace SqlDialect

/-- A block of data. -/
structure PemBlock where
  kind : Bytes
  headers : Named Bytes := []
  content : Bytes
deriving Repr, DecidableEq

namespace Pem

/-! ## Six bits to a character -/

/-- The six bits of a character. -/
def sextet? (b : UInt8) : Option Nat :=
  if Bytes.isUpper b then some (b.toNat - 65)
  else if Bytes.isLower b then some (b.toNat - 71)
  else if Bytes.isDigit b then some (b.toNat + 4)
  else if b = 43 then some 62
  else if b = 47 then some 63
  else none

/-- The bytes of four characters, the last of which may be padding. -/
def quantum? (a b c d : UInt8) : Option Bytes := do
  let w ← sextet? a
  let x ← sextet? b
  let first := (w * 4 + x / 16).toUInt8
  if c = 61 ∧ d = 61 then return [first]
  let y ← sextet? c
  let second := (x % 16 * 16 + y / 4).toUInt8
  if d = 61 then return [first, second]
  let z ← sextet? d
  return [first, second, (y % 4 * 64 + z).toUInt8]

/-- The bytes of characters, four at a time. Padding ends them. -/
def unarmour? : Bytes → Option Bytes
  | [] => some []
  | a :: b :: c :: d :: rest => do
    let bytes ← quantum? a b c d
    if bytes.length = 3 then
      let more ← unarmour? rest
      some (bytes ++ more)
    else if rest.isEmpty then some bytes
    else none
  | _ => none

/-- Whether the byte does not count among the characters. -/
def isLayout (b : UInt8) : Bool :=
  b == 32 || b == 9 || b == 10 || b == 13

/-! ## Blocks -/

/-- The start of a first line. -/
def opening : Bytes := ascii "-----BEGIN "

/-- The start of a last line, with the end of the line before it. -/
def closing : Bytes := ascii "\n-----END "

/-- The end of both lines. -/
def dashes : Bytes := ascii "-----"

/-- A line without blanks at its end. -/
def bare (line : Bytes) : Bytes :=
  Bytes.dropTailWhile (fun b => b == 32 || b == 9) ((Bytes.dropTrail? [13] line).getD line)

/-- What follows the last opening in a text, if that starts a line. Here `atLine` says whether the text
itself does. -/
def afterOpening? (atLine : Bool) : Bytes → Option Bytes
  | [] => none
  | b :: s =>
    match afterOpening? (b == 10) s with
    | some rest => some rest
    | none =>
      if atLine && !Bytes.containsText s opening then Bytes.dropLead? opening (b :: s) else none

/-- A line `name: value`. -/
def header? (line : Bytes) : Option (Bytes × Bytes) :=
  (Bytes.cut? [58] line).map fun (name, value) => (Bytes.trimSpace name, Bytes.trimSpace value)

/-- The block of the lines between an opening and a closing; `tail` is what follows the closing. -/
def block? (lines : List Bytes) (tail : Bytes) : Option PemBlock :=
  match lines with
  | [] => none
  | first :: lines => do
    let kind ← Bytes.dropTrail? dashes (bare first)
    let behind ← Bytes.dropLead? (kind ++ dashes) tail
    let headers := (lines.takeWhile fun line => line.contains 58).filterMap header?
    let body := lines.dropWhile fun line => line.contains 58
    if !(bare (behind.takeWhile (· != 10))).isEmpty then none
    else if !headers.isEmpty && body.isEmpty then none
    else
      let content ← unarmour? (body.flatten.filter fun b => !isLayout b)
      some { kind, headers, content }

/-- The blocks of a text, looking behind at most `count` closings. -/
def blocksIn : Nat → Bytes → List PemBlock
  | 0, _ => []
  | count + 1, s =>
    match Bytes.cut? closing s with
    | none => []
    | some (front, tail) =>
      match (afterOpening? true front).bind fun inner => block? (Bytes.splitOnByte 10 inner) tail with
      | some block => block :: blocksIn count ((tail.dropWhile (· != 10)).drop 1)
      | none => blocksIn count tail

/-- The blocks of a text. -/
def blocks (s : Bytes) : List PemBlock :=
  blocksIn s.length s

end Pem

end SqlDialect
