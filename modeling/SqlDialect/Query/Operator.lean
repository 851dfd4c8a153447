import SqlDialect.Literal
import SqlDialect.Pattern.Search

set_option autoImplicit false

/-! # Matching operators

`LIKE` ignores letter case in MySQL, so it becomes `ILIKE`; `REGEXP` and `RLIKE` become `~`. A
pattern written between double quotes would be read as a name, so the literal behind the operator is
put between single quotes. -/

namespace SqlDialect

/-- A placeholder token in any letter case. -/
def literalToken : Pattern :=
  .seqs [.keyword "__pglit", .many1 (.one CharSet.digit), .text "__"]

/-- The operator `LIKE`. -/
def likePattern : Pattern := .wholeWord "LIKE"

/-- Writes `ILIKE` for `LIKE`. -/
def likeToILike (s : Bytes) : Bytes :=
  likePattern.replace (ascii "ILIKE") s

/-- The negated regular expression operators. -/
def notRegexpPattern : Pattern :=
  .seqs [.wordEdge, .keyword "NOT", .blanks1, .keywords ["REGEXP", "RLIKE"], .wordEdge]

/-- The regular expression operators. -/
def regexpPattern : Pattern :=
  .seqs [.wordEdge, .keywords ["REGEXP", "RLIKE"], .wordEdge]

/-- Writes `~` and `!~` for the regular expression operators. -/
def regexpToTilde (s : Bytes) : Bytes :=
  regexpPattern.replace (ascii "~") (notRegexpPattern.replace (ascii "!~") s)

/-- A matching operator and, as group 1, the literal behind it. -/
def patternOperand : Pattern :=
  .seqs [.alt (.seq (.opt (.text "!")) (.text "~")) (.seq .wordEdge (.keyword "ILIKE")), .blanks,
    .group 1 literalToken]

/-- Takes a literal out of double quotes: escaped and doubled double quotes become plain ones and
single quotes are doubled. -/
def Literal.toSingleQuoted (l : Literal) : Literal :=
  let body := Bytes.replaceAll [backslash, doubleQuote] [doubleQuote] l.body
  let body := Bytes.replaceAll [doubleQuote, doubleQuote] [doubleQuote] body
  let body := Bytes.replaceAll [singleQuote] [singleQuote, singleQuote] body
  ⟨singleQuote, singleQuote :: body ++ [singleQuote]⟩

/-- Puts the literal behind the token between single quotes if it is between double quotes. -/
def LiteralTable.singleQuote (t : LiteralTable) (token : Bytes) : LiteralTable :=
  match t.lookup? token with
  | some l => if l.quote = doubleQuote then t.replace token l.toSingleQuoted else t
  | none => t

/-- Puts the literals behind matching operators between single quotes. -/
def singleQuotePatterns (s : Bytes) (t : LiteralTable) : LiteralTable :=
  (patternOperand.all s).foldl (fun t m => t.singleQuote (m.group 1)) t

end SqlDialect
