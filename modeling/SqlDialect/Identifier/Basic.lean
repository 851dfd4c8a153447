import SqlDialect.Identifier.Reserved
import SqlDialect.Literal
import SqlDialect.Text.Case

set_option autoImplicit false

/-! # Identifiers

How names are written for PostgreSQL. A name that can stand bare stays bare; any other is put
between double quotes, with the quotes inside it doubled. Reserved words are quoted in lower case,
which is what the bare word would have meant. -/

namespace SqlDialect

/-- Puts a name between double quotes and doubles the quotes inside it. -/
def doubleQuoted (name : Bytes) : Bytes :=
  doubleQuote :: Bytes.replaceAll [doubleQuote] [doubleQuote, doubleQuote] name ++ [doubleQuote]

/-- Puts a name between backticks and doubles the backticks inside it. -/
def backtickQuoted (name : Bytes) : Bytes :=
  backtick :: Bytes.replaceAll [backtick] [backtick, backtick] name ++ [backtick]

/-- Whether the byte may start a bare name. -/
def isNameStart (b : UInt8) : Bool :=
  Bytes.isLower b || Bytes.isUpper b || b == 95

/-- Whether the byte may follow in a bare name. -/
def isNameByte (b : UInt8) : Bool :=
  isNameStart b || Bytes.isDigit b || b == 36

/-- Whether the name cannot be written bare. Upper case is no reason to quote: it folds to the same
lower-case name. -/
def needsQuoting : Bytes → Bool
  | [] => true
  | b :: s => !(isNameStart b && s.all isNameByte)

/-- The column names whose letter case is significant, so that they are always quoted. -/
def caseSensitiveNames : List Bytes :=
  [ascii "ID"]

/-- A bare identifier as PostgreSQL reads it. -/
def quoteIdent (name : Bytes) : Bytes :=
  if caseSensitiveNames.contains name || needsQuoting name then doubleQuoted name
  else if reservedWords.contains (Bytes.toLower name) then
    doubleQuote :: Bytes.toLower name ++ [doubleQuote]
  else name

/-- A name token as it appears in the output. Names in double quotes and placeholders are kept, and
a qualified name is rendered segment by segment. -/
def normalizeName (name : Bytes) : Bytes :=
  if name.isEmpty || name.head? == some doubleQuote || isPlaceholder name then name
  else if name.contains 46 && !name.contains doubleQuote then
    Bytes.join [46] ((Bytes.splitOnByte 46 name).map quoteIdent)
  else quoteIdent name

/-- What lies between the double quotes around a text, if there are such. -/
def unquoted? (s : Bytes) : Option Bytes :=
  if 2 ≤ s.length && s.head? == some doubleQuote && s.getLast? == some doubleQuote then
    some (s.drop 1).dropLast
  else none

/-- A name without its quoting, for comparisons: the content of a literal, the inside of a quoted
name, or a bare name in lower case. -/
def bareName (name : Bytes) (lits : LiteralTable) : Bytes :=
  match lits.lookup? name with
  | some l => l.body
  | none => (unquoted? name).getD (Bytes.toLower name)

/-- The part of a name behind its last dot that is not between double quotes; quotes are counted
from the right. -/
def lastSegment (name : Bytes) : Bytes :=
  go false [] name.reverse
where
  /-- Walks leftwards; `quoted` tells whether the place is between quotes, `seen` is the text to the
  right. -/
  go (quoted : Bool) (seen : Bytes) : Bytes → Bytes
    | [] => seen
    | b :: s =>
      if b = doubleQuote then go (!quoted) (b :: seen) s
      else if b = 46 ∧ !quoted then seen
      else go quoted (b :: seen) s

/-- Writes every name in backticks as a bare or double-quoted name. -/
def replaceBackticks : Bytes → Bytes
  | [] => []
  | b :: s =>
    if b = backtick then
      match _h : Bytes.cut? [backtick] s with
      | some (name, rest) => quoteIdent name ++ replaceBackticks rest
      | none => b :: s
    else b :: replaceBackticks s
termination_by s => s.length
decreasing_by
  · have := Bytes.length_of_cut? _h; simp; omega
  · simp

end SqlDialect
