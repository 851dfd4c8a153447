import SqlDialect.Secure.Curve
import SqlDialect.Secure.Der
import SqlDialect.Secure.Pem
import SqlDialect.Text.Utf8
import SqlDialect.Time.Calendar

set_option autoImplicit false

/-! # Certificates

A certificate says which public key belongs to whom. It is read for its form and its key: names,
times and additions must be well-formed, but who has signed it, and until when it is valid, is not
asked. -/

namespace SqlDialect

/-! ## Public keys -/

/-- A public key. -/
inductive PublicKey where
  | rsa (modulus exponent : Nat)
  | curve (c : Curve) (point : Nat × Nat)
  | edwards (bytes : Bytes)
  /-- A key of a kind that is not looked into. -/
  | other
deriving Repr, DecidableEq

namespace PublicKey

/-- The identifier of RSA keys. -/
def rsaId : Bytes := [0x2A, 0x86, 0x48, 0x86, 0xF7, 0x0D, 0x01, 0x01, 0x01]

/-- The identifier of keys on curves. -/
def curveId : Bytes := [0x2A, 0x86, 0x48, 0xCE, 0x3D, 0x02, 0x01]

/-- The identifier of keys on the Edwards curve of 255 bits. -/
def edwardsId : Bytes := [0x2B, 0x65, 0x70]

/-- The curve of an identifier. -/
def curve? (id : Bytes) : Option Curve :=
  if id = [0x2B, 0x81, 0x04, 0x00, 0x21] then some .p224
  else if id = [0x2A, 0x86, 0x48, 0xCE, 0x3D, 0x03, 0x01, 0x07] then some .p256
  else if id = [0x2B, 0x81, 0x04, 0x00, 0x22] then some .p384
  else if id = [0x2B, 0x81, 0x04, 0x00, 0x23] then some .p521
  else none

/-- The identifier of an algorithm and its parameters, if it has any. -/
def algorithm? (s : Bytes) : Option (Bytes × Bytes) := do
  let (id, parameters) ← Der.identifier? s
  if parameters.isEmpty || (Der.next? parameters).isSome then some (id, parameters) else none

/-- The point of a key on a curve: a mark, then both coordinates. -/
def point? (c : Curve) (s : Bytes) : Option (Nat × Nat) :=
  let width := c.prime.log2 / 8 + 1
  match s with
  | 4 :: coordinates =>
    let point := (Der.number (coordinates.take width), Der.number (coordinates.drop width))
    if coordinates.length = 2 * width ∧ c.contains point then some point else none
  | _ => none

/-- The key of an algorithm and bytes. -/
def ofBytes? (id parameters bytes : Bytes) : Option PublicKey := do
  if id = rsaId then
    if parameters ≠ [0x05, 0x00] then none
    let (content, _) ← Der.read? Der.sequence bytes
    let (modulus, content) ← Der.natural? content
    let (exponent, _) ← Der.natural? content
    if modulus = 0 ∨ exponent = 0 then none else some (.rsa modulus exponent)
  else if id = curveId then
    let (name, _) ← Der.identifier? parameters
    let c ← curve? name
    let point ← point? c bytes
    some (.curve c point)
  else if id = edwardsId then
    if parameters.isEmpty ∧ bytes.length = 32 then some (.edwards bytes) else none
  else some .other

/-- Reads a key with its algorithm. -/
def parse? (s : Bytes) : Option PublicKey := do
  let (algorithm, s) ← Der.read? Der.sequence s
  let (id, parameters) ← algorithm? algorithm
  let (bytes, _) ← Der.bits? s
  ofBytes? id parameters bytes

end PublicKey

/-! ## Parts of certificates -/

/-- A certificate, by its key. -/
structure Certificate where
  key : PublicKey
deriving Repr, DecidableEq

namespace Certificate

/-- Whether the byte may stand in a printable text. -/
def isPrintableByte (b : UInt8) : Bool :=
  Bytes.isUpper b || Bytes.isLower b || Bytes.isDigit b || (ascii "'()+,-./ :=?*&").contains b

/-- Whether bytes are a text of the kind that the tag says. -/
def isText (tag : UInt8) (s : Bytes) : Bool :=
  if tag = Der.printableString then s.all isPrintableByte
  else if tag = Der.utf8String then
    (Utf8.glyphs s).all fun g => !(g.code == Utf8.replacement && g.raw.length == 1)
  else if tag = Der.ia5String then s.all (· < 0x80)
  else if tag = Der.numericString then s.all fun b => Bytes.isDigit b || b == 32
  else if tag = Der.bmpString then s.length % 2 == 0
  else tag == Der.t61String

/-- Whether bytes are an attribute of a name: an identifier and a text. -/
def isAttribute (s : Bytes) : Bool :=
  match Der.identifier? s with
  | none => false
  | some (_, rest) => (Der.next? rest).any fun (tag, content, _) => isText tag content

/-- Whether bytes are a name: sets of attributes. -/
def isName (s : Bytes) : Bool :=
  (Der.all? Der.set s).any fun sets =>
    sets.all fun attributes => (Der.all? Der.sequence attributes).any fun as => as.all isAttribute

/-- Whether digits are the rest of a time: month, day, hour, minute and second in the given year. -/
def isTimeOf (year : Nat) (s : Bytes) : Bool :=
  let part (i : Nat) : Nat := Bytes.digitsValue ((s.drop (2 * i)).take 2)
  s.length == 10 && Date.isValid ⟨year, part 0, part 1⟩ &&
    TimeOfDay.isValid ⟨part 2, part 3, part 4⟩

/-- Whether bytes are a time of the kind that the tag says. -/
def isTime (tag : UInt8) (s : Bytes) : Bool :=
  match Bytes.dropTrail? (ascii "Z") s with
  | none => false
  | some digits =>
    let width := if tag = Der.utcTime then 2 else 4
    let year := Bytes.digitsValue (digits.take width)
    let year := if tag = Der.utcTime then if year < 50 then 2000 + year else 1900 + year else year
    (tag == Der.utcTime || tag == Der.generalizedTime) && digits.all Bytes.isDigit &&
      isTimeOf year (digits.drop width)

/-- Whether bytes are two times. -/
def isValidity (s : Bytes) : Bool :=
  match Der.allIn? s.length s with
  | some [(tag, first), (tag', last)] => isTime tag first && isTime tag' last
  | _ => false

/-- The identifier of an addition: it may say how much it matters, and holds bytes. -/
def addition? (s : Bytes) : Option Bytes := do
  let (id, s) ← Der.identifier? s
  let (critical, s) ← Der.readOptional? Der.boolean s
  let _ ← Der.read? Der.octetString s
  if critical.all fun c => c == [0] || c == [0xFF] then some id else none

/-- Whether bytes are additions, of which no two are of one kind. -/
def areAdditions (s : Bytes) : Bool :=
  match (Der.whole? Der.sequence s).bind (Der.all? Der.sequence) with
  | none => false
  | some additions =>
    match additions.mapM addition? with
    | none => false
    | some ids => ids.eraseDups.length == ids.length

/-- The version of a certificate, which starts it unless it is the first one. -/
def version? (s : Bytes) : Option (Nat × Bytes) := do
  match ← Der.readOptional? (Der.member 0) s with
  | (none, s) => some (0, s)
  | (some content, s) =>
    let (version, rest) ← Der.natural? content
    if rest.isEmpty ∧ version < 3 then some (version, s) else none

/-- Whether what follows the key is well-formed. -/
def isEnd (version : Nat) (s : Bytes) : Bool :=
  if version = 0 then true
  else
    match (Der.readOptional? 0x81 s).bind fun (_, s) => Der.readOptional? 0x82 s with
    | none => false
    | some (_, s) =>
      version != 2 ||
        match Der.readOptional? (Der.member 3) s with
        | none => false
        | some (additions, _) => additions.all areAdditions

/-! ## Reading -/

/-- Reads the part that is signed. It repeats how. -/
def signedPart? (signing s : Bytes) : Option Certificate := do
  let (version, s) ← version? s
  let (_, s) ← Der.natural? s
  let (algorithm, s) ← Der.read? Der.sequence s
  let (issuer, s) ← Der.read? Der.sequence s
  let (validity, s) ← Der.read? Der.sequence s
  let (subject, s) ← Der.read? Der.sequence s
  let (key, s) ← Der.read? Der.sequence s
  let _ ← PublicKey.algorithm? algorithm
  if algorithm = signing && isName issuer && isValidity validity && isName subject &&
      isEnd version s then
    let key ← PublicKey.parse? key
    some { key }
  else none

/-- Reads a certificate. -/
def parse? (s : Bytes) : Option Certificate := do
  let content ← Der.whole? Der.sequence s
  let (signed, content) ← Der.read? Der.sequence content
  let (signing, content) ← Der.read? Der.sequence content
  let _ ← Der.bits? content
  signedPart? signing signed

/-- The kind of the blocks that hold certificates. -/
def blockKind : Bytes := ascii "CERTIFICATE"

/-- Whether there is a certificate in a text. -/
def isIn (s : Bytes) : Bool :=
  (Pem.blocks s).any fun block =>
    block.kind == blockKind && block.headers.isEmpty && (parse? block.content).isSome

end Certificate

end SqlDialect
