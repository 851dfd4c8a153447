import SqlDialect.Pattern.Search

set_option autoImplicit false

/-! # LIMIT

`LIMIT offset, count` becomes `LIMIT count OFFSET offset`, and the LIMIT of an UPDATE or DELETE,
which PostgreSQL does not have, is dropped. The operands are numbers, `?` marks or `%d`. -/

namespace SqlDialect

/-- An operand of LIMIT. -/
def limitOperand : Pattern :=
  .alts [.many1 (.one CharSet.digit), .keyword "%d", .text "?"]

/-- LIMIT with two operands, which are groups 1 and 2. -/
def limitCommaPattern : Pattern :=
  .seqs [.wordEdge, .keyword "LIMIT", .blanks1, .group 1 limitOperand, .blanks, .text ",", .blanks,
    .group 2 limitOperand]

/-- Writes the two operands of LIMIT with OFFSET. -/
def limitToOffset (s : Bytes) : Bytes :=
  limitCommaPattern.replaceWith
    (fun m => ascii "LIMIT " ++ m.group 2 ++ ascii " OFFSET " ++ m.group 1) s

/-- LIMIT at the end of a statement; group 1 is the semicolon, if any. -/
def finalLimitPattern : Pattern :=
  .seqs [.blanks1, .keyword "LIMIT", .blanks1, limitOperand, .blanks, .group 1 (.opt (.text ";")),
    .blanks, .textEnd]

/-- Drops the LIMIT of an UPDATE or DELETE. -/
def stripFinalLimit (s : Bytes) : Bytes :=
  finalLimitPattern.replaceWith (fun m => m.group 1) s

end SqlDialect
