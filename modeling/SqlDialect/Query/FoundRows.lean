import SqlDialect.Literal
import SqlDialect.Statement.Clause

set_option autoImplicit false

/-! # FOUND_ROWS

MySQL reports how many rows the last query would have returned without its LIMIT. PostgreSQL does
not, so the question is answered by counting the last query that read from a table. -/

namespace SqlDialect

/-- The modifier that asks for the row count to be kept. -/
def calcFoundRowsPattern : Pattern :=
  .seq .blanks (.wholeWord "SQL_CALC_FOUND_ROWS")

/-- Drops the modifier. -/
def stripCalcFoundRows (s : Bytes) : Bytes :=
  calcFoundRowsPattern.erase s

/-- The statement that asks for the row count. -/
def foundRowsPattern : Pattern :=
  .seqs [.textStart, .blanks, .phrase ["SELECT", "FOUND_ROWS"], .blanks, .text "(", .blanks,
    .text ")", .blanks, .opt (.text ";"), .blanks, .textEnd]

/-- Whether the statement asks for the row count of the last query. -/
def isFoundRowsLookup (s : Bytes) : Bool :=
  foundRowsPattern.occursIn s

/-- The answer when there is nothing to count. -/
def countNothing : Bytes × LiteralTable :=
  (ascii "SELECT 0", [])

/-- The query that counts the rows of the last query, in MySQL's dialect and with its literals taken
out. Ordering, limits and locks are cut off; a query whose rows are not those of its tables is
counted as a subquery. -/
def foundRowsQuery (last : Bytes) : Bytes × LiteralTable :=
  if (Bytes.trimSpace last).isEmpty then countNothing
  else
    let (shielded, lits) := shield last
    let s := (trimStatementEnd (stripCalcFoundRows shielded)).1
    match SelectParts.ofText? s with
    | none => countNothing
    | some p =>
      if p.tail.isEmpty then countNothing
      else
        let source := Bytes.trimRight
          (splitAtClause (Clause.orderByPattern :: Clause.afterOrder) p.tail).1
        let query := p.head ++ p.list ++ source
        if selectDistinctPattern.occursIn query || (findTop? Clause.groupByPattern source).isSome ||
            (findTop? Clause.havingPattern source).isSome then
          (ascii "SELECT COUNT(*) FROM (" ++ Bytes.trimSpace query ++ ascii ") AS found_rows", lits)
        else (ascii "SELECT COUNT(*) " ++ source, lits)

end SqlDialect
