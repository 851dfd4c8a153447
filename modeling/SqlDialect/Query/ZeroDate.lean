import SqlDialect.Literal
import SqlDialect.Pattern.Search

set_option autoImplicit false

/-! # Zero dates

MySQL stores a missing date as all zeros, which PostgreSQL rejects as out of range. A single-quoted
literal that is exactly such a date is replaced by the epoch. -/

namespace SqlDialect

/-- A placeholder token exactly as written. -/
def exactLiteralToken : Pattern :=
  .seqs [.text "__pglit", .many1 (.one CharSet.digit), .text "__"]

/-- What a zero date is replaced by; other literals stay. -/
def Literal.withoutZeroDate (l : Literal) : Literal :=
  if l.quote != singleQuote then l
  else if l.body = ascii "0000-00-00 00:00:00" then
    ⟨singleQuote, ascii "'1970-01-01 00:00:00'"⟩
  else if l.body = ascii "0000-00-00" then ⟨singleQuote, ascii "'1970-01-01'"⟩
  else l

/-- Replaces the zero dates among the literals whose placeholders stand in the text. -/
def replaceZeroDates (s : Bytes) (lits : LiteralTable) : LiteralTable :=
  (exactLiteralToken.all s).foldl
    (fun t m =>
      match t.lookup? m.text with
      | some l => t.replace m.text l.withoutZeroDate
      | none => t)
    lits

/-- Whether the content of a literal starts like a zero date. -/
def isZeroDate (body : Bytes) : Bool :=
  Bytes.startsWith body (ascii "0000-00-00")

end SqlDialect
