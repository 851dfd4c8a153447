import SqlDialect.Secure.Certificate

set_option autoImplicit false

/-! # Certificates with private keys

Whoever has a certificate can show so with the private key that belongs to its public key. A private
key is read in the form of its own kind, or in the common form that names the kind. Keys that are
themselves encrypted are not read. -/

namespace SqlDialect

/-! ## Private keys -/

/-- A private key, by the public key that belongs to it. -/
inductive PrivateKey where
  | rsa (modulus exponent : Nat)
  | curve (c : Curve) (point : Nat × Nat)
  /-- A key on the Edwards curve, whose public key is not computed. -/
  | edwards
deriving Repr, DecidableEq

namespace PrivateKey

/-- Reads so many numbers. -/
def numbers? : Nat → Bytes → Option (List Nat)
  | 0, _ => some []
  | count + 1, s => do
    let (n, s) ← Der.natural? s
    let more ← numbers? count s
    some (n :: more)

/-- Reads an RSA key: the modulus is the product of two primes, and the two exponents undo each other. -/
def rsa? (s : Bytes) : Option PrivateKey := do
  match ← numbers? 6 (← Der.whole? Der.sequence s) with
  | [version, modulus, exponent, secret, p, q] =>
    if version < 2 ∧ 1 < p ∧ 1 < q ∧ p * q = modulus ∧ secret * exponent % (p - 1) = 1 ∧
        secret * exponent % (q - 1) = 1 then
      some (.rsa modulus exponent)
    else none
  | _ => none

/-- Reads a key on a curve. The curve is named by the key unless it is already known. -/
def curve? (known : Option Curve) (s : Bytes) : Option PrivateKey := do
  let (version, content) ← Der.natural? (← Der.whole? Der.sequence s)
  let (secret, content) ← Der.read? Der.octetString content
  let (name, _) ← Der.readOptional? (Der.member 0) content
  let named := do
    let (id, _) ← Der.identifier? (← name)
    PublicKey.curve? id
  let c ← known.or named
  let n := Der.number secret
  if version ≠ 1 ∨ n = 0 ∨ c.order ≤ n then none
  else
    let point ← c.multiple n
    some (.curve c point)

/-- Reads a key in the common form. -/
def common? (s : Bytes) : Option PrivateKey := do
  let (_, content) ← Der.natural? (← Der.whole? Der.sequence s)
  let (algorithm, content) ← Der.read? Der.sequence content
  let (id, parameters) ← PublicKey.algorithm? algorithm
  let (key, _) ← Der.read? Der.octetString content
  if id = PublicKey.rsaId then rsa? key
  else if id = PublicKey.curveId then
    curve? ((Der.identifier? parameters).bind fun (name, _) => PublicKey.curve? name) key
  else if id = PublicKey.edwardsId then
    let seed ← Der.whole? Der.octetString key
    if seed.length = 32 then some .edwards else none
  else none

/-- Reads a private key. -/
def parse? (s : Bytes) : Option PrivateKey :=
  (rsa? s).or ((common? s).or (curve? none s))

/-- Whether a public key belongs to a private key. -/
def fits (secret : PrivateKey) (key : PublicKey) : Bool :=
  match secret, key with
  | rsa modulus exponent, .rsa modulus' exponent' => modulus == modulus' && exponent == exponent'
  | curve c point, .curve c' point' => c == c' && point == point'
  | edwards, .edwards _ => true
  | _, _ => false

/-- Whether a block holds a private key. -/
def isKind (kind : Bytes) : Bool :=
  kind == ascii "PRIVATE KEY" || kind.endsWith (ascii " PRIVATE KEY")

end PrivateKey

namespace KeyPair

/-- The first certificate of a text. -/
def certificate? (s : Bytes) : Option Certificate := do
  let block ← (Pem.blocks s).find? (·.kind == Certificate.blockKind)
  Certificate.parse? block.content

/-- The private key of a text, which must be its first block. -/
def key? (s : Bytes) : Option PrivateKey := do
  let block ← (Pem.blocks s).head?
  if PrivateKey.isKind block.kind && (block.headers.lookup (ascii "DEK-Info")).isNone then
    PrivateKey.parse? block.content
  else none

/-- Whether the first certificate of one text and the private key of another belong together. -/
def isUsable (certificate key : Bytes) : Bool :=
  match certificate? certificate, key? key with
  | some c, some k => k.fits c.key
  | _, _ => false

end KeyPair

end SqlDialect
