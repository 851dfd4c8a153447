import SqlDialect.Text.Bytes

set_option autoImplicit false

/-! # Sets of characters

A pattern tests characters against sets of code points, given as ranges and possibly negated.
The sets that ignore case also hold the two code points outside ASCII that fold to an ASCII
letter: the Kelvin sign with `k` and the long s with `s`. -/

namespace SqlDialect

/-- The code points of some ranges, or all others. -/
structure CharSet where
  ranges : List (Nat × Nat)
  negated : Bool := false
deriving Repr, DecidableEq

namespace CharSet

/-- Whether the set holds the code point. -/
def contains (s : CharSet) (code : Nat) : Bool :=
  (s.ranges.any fun r => r.1 ≤ code && code ≤ r.2) != s.negated

/-- The Kelvin sign, a form of `k`. -/
def kelvinSign : Nat := 0x212A

/-- The long s, a form of `s`. -/
def longS : Nat := 0x017F

/-- Every code point but those of the set. -/
def compl (s : CharSet) : CharSet :=
  { s with negated := !s.negated }

/-- The code points of either set; both list what they hold. -/
def union (s t : CharSet) : CharSet :=
  ⟨s.ranges ++ t.ranges, false⟩

/-- The characters of an ASCII text. -/
def ofString (s : String) : CharSet :=
  ⟨s.toList.map fun c => (c.toNat, c.toNat), false⟩

/-- One character exactly as written. -/
def exactly (c : Char) : CharSet :=
  ⟨[(c.toNat, c.toNat)], false⟩

/-- One ASCII character in any letter case. -/
def anyCase (c : Char) : CharSet :=
  let lower := c.toLower
  let upper := c.toUpper
  let forms := if lower = upper then [c.toNat] else [upper.toNat, lower.toNat]
  let extra := if lower = 'k' then [kelvinSign] else if lower = 's' then [longS] else []
  ⟨(forms ++ extra).map fun n => (n, n), false⟩

/-- Tab, newline, form feed, carriage return and space. -/
def blank : CharSet :=
  ⟨[(9, 10), (12, 13), (32, 32)], false⟩

/-- The decimal digits. -/
def digit : CharSet :=
  ⟨[(48, 57)], false⟩

/-- The ASCII letters and the underscore, which may start a name. -/
def nameStart : CharSet :=
  ⟨[(65, 90), (95, 95), (97, 122)], false⟩

/-- ASCII letters, digits and the underscore. -/
def word : CharSet :=
  ⟨[(48, 57), (65, 90), (95, 95), (97, 122)], false⟩

/-- The word characters and the two other forms of `k` and `s`. -/
def wordAnyCase : CharSet :=
  ⟨[(48, 57), (65, 90), (95, 95), (97, 122), (longS, longS), (kelvinSign, kelvinSign)], false⟩

/-- The letters `a` to `z` in any letter case. -/
def letterAnyCase : CharSet :=
  ⟨[(65, 90), (97, 122), (longS, longS), (kelvinSign, kelvinSign)], false⟩

/-- Every character. -/
def any : CharSet :=
  ⟨[], true⟩

end CharSet

end SqlDialect
