import SqlDialect.Text.Bytes

set_option autoImplicit false

/-! # Tagged data

Values as a tag, a length and that many bytes, which may themselves be values. A length has the
shortest form there is. -/

namespace SqlDialect

namespace Der

/-! ## Tags -/

def boolean : UInt8 := 0x01
def integer : UInt8 := 0x02
def bitString : UInt8 := 0x03
def octetString : UInt8 := 0x04
def objectId : UInt8 := 0x06
def utf8String : UInt8 := 0x0C
def numericString : UInt8 := 0x12
def printableString : UInt8 := 0x13
def t61String : UInt8 := 0x14
def ia5String : UInt8 := 0x16
def utcTime : UInt8 := 0x17
def generalizedTime : UInt8 := 0x18
def bmpString : UInt8 := 0x1E
def sequence : UInt8 := 0x30
def set : UInt8 := 0x31

/-- The tag of a member of a sequence that may be left out. -/
def member (n : UInt8) : UInt8 := 0xA0 + n

/-! ## Values -/

/-- The number that bytes stand for, the most significant first. -/
def number (s : Bytes) : Nat :=
  s.foldl (fun n b => n * 256 + b.toNat) 0

/-- A length and what follows it. -/
def length? : Bytes → Option (Nat × Bytes)
  | [] => none
  | b :: s =>
    if b < 0x80 then some (b.toNat, s)
    else
      let count := b.toNat - 0x80
      let n := number (s.take count)
      if count = 0 ∨ 4 < count ∨ s.length < count ∨ n < 128 ∨ n < Nat.pow 256 (count - 1) then none
      else some (n, s.drop count)

/-- The tag and the bytes of the first value, and what follows it. -/
def next? : Bytes → Option (UInt8 × Bytes × Bytes)
  | [] => none
  | tag :: s => do
    let (length, s) ← length? s
    if tag &&& 0x1F = 0x1F ∨ s.length < length then none
    else some (tag, s.take length, s.drop length)

/-- The bytes of the first value if it has the tag, and what follows it. -/
def read? (tag : UInt8) (s : Bytes) : Option (Bytes × Bytes) := do
  let (found, content, rest) ← next? s
  if found = tag then some (content, rest) else none

/-- The bytes of the first value if it has the tag; otherwise none was given and nothing is passed. -/
def readOptional? (tag : UInt8) (s : Bytes) : Option (Option Bytes × Bytes) :=
  if s.head? = some tag then (read? tag s).map fun (content, rest) => (some content, rest)
  else some (none, s)

/-- The only value of a text, if it has the tag. -/
def whole? (tag : UInt8) (s : Bytes) : Option Bytes := do
  let (content, rest) ← read? tag s
  if rest.isEmpty then some content else none

/-- All values of a text, at most `count` of them, with their tags. -/
def allIn? : Nat → Bytes → Option (List (UInt8 × Bytes))
  | _, [] => some []
  | 0, _ => none
  | count + 1, s => do
    let (tag, content, rest) ← next? s
    let more ← allIn? count rest
    some ((tag, content) :: more)

/-- All values of a text if each has the tag. -/
def all? (tag : UInt8) (s : Bytes) : Option (List Bytes) := do
  let values ← allIn? s.length s
  if values.all (·.1 == tag) then some (values.map Prod.snd) else none

/-! ## Numbers -/

/-- Whether a whole number has the shortest form there is. -/
def isShortest : Bytes → Bool
  | [] => false
  | [_] => true
  | b :: c :: _ => !(b == 0 && c < 0x80) && !(b == 0xFF && 0x80 ≤ c)

/-- Reads a whole number that is not negative. -/
def natural? (s : Bytes) : Option (Nat × Bytes) := do
  let (content, rest) ← read? integer s
  if isShortest content && (content.headD 0xFF) < 0x80 then some (number content, rest) else none

/-! ## Identifiers -/

/-- Reads the numbers of an identifier: whether each has the shortest form and at most 31 bits. Here
`n` is the number so far, if one has been started. -/
def isIdentifierFrom (n : Option Nat) : Bytes → Bool
  | [] => n.isNone
  | b :: s =>
    if n.isNone && b == 0x80 then false
    else
      let value := n.getD 0 * 128 + b.toNat % 128
      if 2147483648 ≤ value then false
      else isIdentifierFrom (if b < 0x80 then none else some value) s

/-- Reads an identifier. -/
def identifier? (s : Bytes) : Option (Bytes × Bytes) := do
  let (content, rest) ← read? objectId s
  if content.isEmpty || !isIdentifierFrom none content then none else some (content, rest)

/-! ## Bits -/

/-- Reads bits that fill up whole bytes, or leave unused bits that are zero. -/
def bits? (s : Bytes) : Option (Bytes × Bytes) := do
  let (content, rest) ← read? bitString s
  match content with
  | [] => none
  | unused :: bytes =>
    let last := (bytes.getLast?.getD 0).toNat
    if 7 < unused ∨ bytes.isEmpty ∧ unused ≠ 0 ∨ last % Nat.pow 2 unused.toNat ≠ 0 then none
    else some (bytes, rest)

end Der

end SqlDialect
