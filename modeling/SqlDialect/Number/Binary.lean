set_option autoImplicit false

/-! # Binary numbers of limited precision

Numbers `mantissa * 2 ^ exponent` whose mantissa has at most 53 bits. A result that needs more bits is
rounded to the nearest such number, and halfway to the one with the even mantissa. The exponent is
not limited. -/

namespace SqlDialect

/-- The number `mantissa * 2 ^ exponent`. -/
structure Binary where
  mantissa : Nat
  exponent : Int := 0
deriving Repr, DecidableEq

namespace Binary

/-- How many bits a mantissa has. -/
def precision : Nat := 53

/-- `n / 2 ^ drop` rounded to a whole number. A fraction that `n` itself has lost, if there is one,
decides between the two neighbours of a tie. -/
def roundDrop (n drop : Nat) (lost : Bool) : Nat :=
  let kept := n / Nat.pow 2 drop
  let twice := n % Nat.pow 2 drop * 2
  let half := Nat.pow 2 drop
  if half < twice ∨ half = twice ∧ (lost ∨ kept % 2 = 1) then kept + 1 else kept

/-- The number nearest to `n * 2 ^ exponent`, where `n` may have lost a fraction. -/
def round (n : Nat) (exponent : Int) (lost : Bool) : Binary :=
  let drop := n.log2 + 1 - precision
  if drop = 0 then ⟨n, exponent⟩ else ⟨roundDrop n drop lost, exponent + drop⟩

/-- The number nearest to a whole number. -/
def ofNat (n : Nat) : Binary :=
  round n 0 false

/-- The product, rounded. -/
def mul (a b : Binary) : Binary :=
  round (a.mantissa * b.mantissa) (a.exponent + b.exponent) false

/-- The quotient, rounded. The dividend is made long enough for the whole part of the quotient to have
more bits than a mantissa. -/
def div (a b : Binary) : Binary :=
  let shift := precision + 2 + b.mantissa.log2 - a.mantissa.log2
  let n := a.mantissa * Nat.pow 2 shift
  round (n / b.mantissa) (a.exponent - b.exponent - shift) (n % b.mantissa != 0)

/-- The whole part. -/
def floor (a : Binary) : Nat :=
  if 0 ≤ a.exponent then a.mantissa * Nat.pow 2 a.exponent.toNat
  else a.mantissa / Nat.pow 2 a.exponent.natAbs

end Binary

end SqlDialect
