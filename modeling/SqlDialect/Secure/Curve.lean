set_option autoImplicit false

/-! # Elliptic curves

Curves `y² = x³ - 3x + b` over the numbers modulo a prime, with a base point. A private key is a number;
its public key is that multiple of the base point. -/

namespace SqlDialect

/-- A curve with its base point and the number of multiples that point has. -/
structure Curve where
  prime : Nat
  b : Nat
  base : Nat × Nat
  order : Nat
deriving Repr, DecidableEq

namespace Curve

/-! ## Numbers modulo a prime -/

/-- The binary digits of a number, the most significant first. -/
def digits (n : Nat) : List Bool :=
  (List.range (n.log2 + 1)).reverse.map n.testBit

/-- A power modulo a number. -/
def power (m base exponent : Nat) : Nat :=
  (digits exponent).foldl
    (fun n digit => if digit then n * n % m * base % m else n * n % m) 1

/-- The inverse modulo a prime. -/
def inverse (prime n : Nat) : Nat :=
  power prime n (prime - 2)

/-- The difference modulo a number, for numbers below it. -/
def minus (m a b : Nat) : Nat :=
  (a + m - b) % m

/-! ## Points -/

/-- Whether a pair of numbers is a point of the curve. -/
def contains (c : Curve) (point : Nat × Nat) : Bool :=
  let (x, y) := point
  let m := c.prime
  x < m && y < m && y * y % m == minus m ((x * x % m * x + c.b) % m) (3 * x % m)

/-- The third point on a line with the given slope through two points, reflected. -/
def chord (c : Curve) (slope : Nat) (p q : Nat × Nat) : Nat × Nat :=
  let m := c.prime
  let x := minus m (minus m (slope * slope % m) p.1) q.1
  (x, minus m (slope * minus m p.1 x % m) p.2)

/-- The sum of two points; none is the point at infinity. -/
def add (c : Curve) : Option (Nat × Nat) → Option (Nat × Nat) → Option (Nat × Nat)
  | none, q => q
  | p, none => p
  | some p, some q =>
    let m := c.prime
    if p.1 ≠ q.1 then
      some (c.chord (minus m q.2 p.2 * inverse m (minus m q.1 p.1) % m) p q)
    else if p.2 = q.2 ∧ p.2 ≠ 0 then
      some (c.chord (minus m (3 * p.1 * p.1 % m) 3 * inverse m (2 * p.2 % m) % m) p q)
    else none

/-- A multiple of the base point. -/
def multiple (c : Curve) (n : Nat) : Option (Nat × Nat) :=
  (digits n).foldl
    (fun p digit => if digit then c.add (c.add p p) (some c.base) else c.add p p) none

/-! ## Curves in use -/

/-- The curve of 224 bits. -/
def p224 : Curve :=
  { prime := 0xffffffffffffffffffffffffffffffff000000000000000000000001
    b := 0xb4050a850c04b3abf54132565044b0b7d7bfd8ba270b39432355ffb4
    base :=
      (0xb70e0cbd6bb4bf7f321390b94a03c1d356c21122343280d6115c1d21,
        0xbd376388b5f723fb4c22dfe6cd4375a05a07476444d5819985007e34)
    order := 0xffffffffffffffffffffffffffff16a2e0b8f03e13dd29455c5c2a3d }

/-- The curve of 256 bits. -/
def p256 : Curve :=
  { prime := 0xffffffff00000001000000000000000000000000ffffffffffffffffffffffff
    b := 0x5ac635d8aa3a93e7b3ebbd55769886bc651d06b0cc53b0f63bce3c3e27d2604b
    base :=
      (0x6b17d1f2e12c4247f8bce6e563a440f277037d812deb33a0f4a13945d898c296,
        0x4fe342e2fe1a7f9b8ee7eb4a7c0f9e162bce33576b315ececbb6406837bf51f5)
    order := 0xffffffff00000000ffffffffffffffffbce6faada7179e84f3b9cac2fc632551 }

/-- The curve of 384 bits. -/
def p384 : Curve :=
  { prime :=
      0xfffffffffffffffffffffffffffffffffffffffffffffffffffffffffffffffeffffffff0000000000000000ffffffff
    b :=
      0xb3312fa7e23ee7e4988e056be3f82d19181d9c6efe8141120314088f5013875ac656398d8a2ed19d2a85c8edd3ec2aef
    base :=
      (0xaa87ca22be8b05378eb1c71ef320ad746e1d3b628ba79b9859f741e082542a385502f25dbf55296c3a545e3872760ab7,
        0x3617de4a96262c6f5d9e98bf9292dc29f8f41dbd289a147ce9da3113b5f0b8c00a60b1ce1d7e819d7a431d7c90ea0e5f)
    order :=
      0xffffffffffffffffffffffffffffffffffffffffffffffffc7634d81f4372ddf581a0db248b0a77aecec196accc52973 }

/-- The curve of 521 bits. -/
def p521 : Curve :=
  { prime := Nat.pow 2 521 - 1
    b :=
      0x0051953eb9618e1c9a1f929a21a0b68540eea2da725b99b315f3b8b489918ef109e156193951ec7e937b1652c0bd3bb1bf073573df883d2c34f1ef451fd46b503f00
    base :=
      (0x00c6858e06b70404e9cd9e3ecb662395b4429c648139053fb521f828af606b4d3dbaa14b5e77efe75928fe1dc127a2ffa8de3348b3c1856a429bf97e7e31c2e5bd66,
        0x011839296a789a3bc0045c8a5fb42c7d1bd998f54449579b446817afbd17273e662c97ee72995ef42640c550b9013fad0761353c7086a272c24088be94769fd16650)
    order :=
      0x01fffffffffffffffffffffffffffffffffffffffffffffffffffffffffffffffffa51868783bf2f966b7fcc0148f709a5d03bb5c9b8899c47aebb6fb71e91386409 }

end Curve

end SqlDialect
