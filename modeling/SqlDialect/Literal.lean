import SqlDialect.Text.Bytes

set_option autoImplicit false

/-! # Quoted literals

Before a statement is changed, its quoted literals are taken out and numbered placeholders stand in
for them, so that no rule ever looks inside a literal. The placeholders have the shape of a word.
Afterwards `restore` puts the literals back.

`Shielding.ofText` is the decomposition that all of this rests on: a statement is a gap, a literal,
a gap, a literal, … and a last gap. -/

namespace SqlDialect

/-- A quoted literal: the quote that opens it and its whole text, delimiters included. -/
structure Literal where
  quote : UInt8
  text : Bytes
deriving Repr, DecidableEq

/-- The single quote. -/
def singleQuote : UInt8 := 39

/-- The double quote. -/
def doubleQuote : UInt8 := 34

/-- The backtick, which delimits names. -/
def backtick : UInt8 := 96

/-- The backslash, which escapes the next byte of a literal. -/
def backslash : UInt8 := 92

namespace Literal

/-- The content without delimiters; the closing one may be missing. -/
def body (l : Literal) : Bytes :=
  if 2 ≤ l.text.length && l.text.getLast? == some l.quote then (l.text.drop 1).dropLast
  else l.text.drop 1

end Literal

/-! ## Placeholders -/

/-- How a placeholder starts. -/
def marker : Bytes := ascii "__pglit"

/-- How a placeholder ends. -/
def markerEnd : Bytes := ascii "__"

/-- The token that stands in for literal number `n`. -/
def placeholder (n : Nat) : Bytes :=
  marker ++ Bytes.decimal n ++ markerEnd

/-- The number a placeholder token carries. -/
def placeholderIndex? (token : Bytes) : Option Nat := do
  let rest ← Bytes.dropLead? marker token
  let digits ← Bytes.dropTrail? markerEnd rest
  let n ← Bytes.toInt64? digits
  if n < 0 then none else some n.toNat

/-- Whether the token is a placeholder. -/
def isPlaceholder (token : Bytes) : Bool :=
  (placeholderIndex? token).isSome

/-- The literals taken out of one statement, by number. -/
abbrev LiteralTable := List Literal

namespace LiteralTable

/-- The literal behind a placeholder token. -/
def lookup? (t : LiteralTable) (token : Bytes) : Option Literal :=
  (placeholderIndex? token).bind fun n => t[n]?

/-- Puts another literal behind a placeholder token. -/
def replace (t : LiteralTable) (token : Bytes) (l : Literal) : LiteralTable :=
  match placeholderIndex? token with
  | some n => t.set n l
  | none => t

end LiteralTable

/-! ## Taking literals out -/

/-- Splits the text after an opening quote `q` behind the quote that closes it. A backslash escapes
the byte after it and a doubled quote stands for itself; without a closing quote the literal runs
to the end. -/
def closeQuote (q : UInt8) : Bytes → Bytes × Bytes
  | [] => ([], [])
  | [b] => ([b], [])
  | b :: c :: s =>
    if b = backslash then ((closeQuote q s).map (b :: c :: ·) id)
    else if b = q then
      if c = q then ((closeQuote q s).map (b :: c :: ·) id) else ([b], c :: s)
    else ((closeQuote q (c :: s)).map (b :: ·) id)

/-- Splits a text behind the first byte `q`, or at the end if there is none. -/
def throughByte (q : UInt8) : Bytes → Bytes × Bytes
  | [] => ([], [])
  | b :: s => if b = q then ([b], s) else ((throughByte q s).map (b :: ·) id)

theorem length_closeQuote (q : UInt8) (s : Bytes) : (closeQuote q s).2.length ≤ s.length := by
  fun_induction closeQuote q s <;> simp_all [Prod.map] <;> omega

theorem length_throughByte (q : UInt8) (s : Bytes) : (throughByte q s).2.length ≤ s.length := by
  fun_induction throughByte q s <;> simp_all [Prod.map]
  omega

/-- A statement cut at its literals: a first gap, then each literal with the gap after it. -/
structure Shielding where
  head : Bytes
  tail : List (Literal × Bytes)
deriving Repr, DecidableEq

namespace Shielding

/-- Puts text in front of the first gap. -/
def keep (s : Bytes) (r : Shielding) : Shielding :=
  { r with head := s ++ r.head }

/-- Puts a literal in front. -/
def literal (l : Literal) (r : Shielding) : Shielding :=
  { head := [], tail := (l, r.head) :: r.tail }

/-- Cuts a statement at its literals. A name in backticks belongs to the gap, and a quote in it
opens no literal. -/
def ofText : Bytes → Shielding
  | [] => ⟨[], []⟩
  | b :: s =>
    if b = singleQuote ∨ b = doubleQuote then
      (ofText (closeQuote b s).2).literal ⟨b, b :: (closeQuote b s).1⟩
    else if b = backtick then
      (ofText (throughByte b s).2).keep (b :: (throughByte b s).1)
    else (ofText s).keep [b]
termination_by s => s.length
decreasing_by
  · have := length_closeQuote b s; simp; omega
  · have := length_throughByte b s; simp; omega
  · simp

/-- The literals in the order of the text. -/
def literals (r : Shielding) : LiteralTable :=
  r.tail.map Prod.fst

/-- The gaps after literals, each behind its literal's placeholder, numbered from `n`. -/
def numbered : Nat → List (Literal × Bytes) → Bytes
  | _, [] => []
  | n, (_, gap) :: rest => placeholder n ++ gap ++ numbered (n + 1) rest

/-- The text with placeholders for literals. -/
def text (r : Shielding) : Bytes :=
  r.head ++ numbered 0 r.tail

end Shielding

/-- The statement with a placeholder for each literal, and the literals. -/
def shield (sql : Bytes) : Bytes × LiteralTable :=
  let r := Shielding.ofText sql
  (r.text, r.literals)

/-! ## Putting literals back -/

/-- The literal whose placeholder starts the text, and the length of that placeholder. -/
def LiteralTable.tokenAt? (t : LiteralTable) (s : Bytes) : Option (Literal × Nat) := do
  let rest ← Bytes.dropLead? marker s
  let digits := rest.takeWhile Bytes.isDigit
  let _ ← Bytes.dropLead? markerEnd (rest.drop digits.length)
  let token := marker ++ digits ++ markerEnd
  let l ← t.lookup? token
  some (l, token.length)

/-- Puts the literals back into the text after its first `skip` bytes. -/
def restoreFrom (t : LiteralTable) : Nat → Bytes → Bytes
  | _, [] => []
  | skip + 1, _ :: s => restoreFrom t skip s
  | 0, b :: s =>
    match t.tokenAt? (b :: s) with
    | some (l, n) => l.text ++ restoreFrom t (n - 1) s
    | none => b :: restoreFrom t 0 s

/-- Puts the literals back. A token that looks like a placeholder but stands for no literal is left
as it is. -/
def restore (s : Bytes) (t : LiteralTable) : Bytes :=
  restoreFrom t 0 s

end SqlDialect
