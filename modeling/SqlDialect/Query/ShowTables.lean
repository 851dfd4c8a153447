import SqlDialect.Query.Operator

set_option autoImplicit false

/-! # SHOW TABLES

The list of tables is a query on the catalog of PostgreSQL. -/

namespace SqlDialect

/-- SHOW TABLES; group 1 is the pattern literal, if any, and group 2 the semicolon. -/
def showTablesPattern : Pattern :=
  .seqs [.textStart, .blanks, .keyword "SHOW", .blanks1, .opt (.seq (.keyword "FULL") .blanks1),
    .keyword "TABLES",
    .opt (.seqs [.blanks1, .keywords ["FROM", "IN"], .blanks1,
      .many1 (.one CharSet.blank.compl)]),
    .opt (.seqs [.blanks1, .keyword "LIKE", .blanks1, .group 1 literalToken]),
    .blanks, .group 2 (.opt (.text ";")), .blanks, .textEnd]

/-- The query that lists the tables of the current schema. -/
def tablesQuery : Bytes :=
  ascii "SELECT tablename FROM pg_catalog.pg_tables WHERE schemaname = current_schema()"

/-- Writes SHOW TABLES as a query, with the literals it then uses. -/
def convertShowTables? (s : Bytes) (lits : LiteralTable) : Option (Bytes × LiteralTable) :=
  (showTablesPattern.find? s).map fun m =>
    match m.group? 1 with
    | some token =>
      (tablesQuery ++ ascii " AND tablename LIKE " ++ token ++ m.group 2, lits.singleQuote token)
    | none => (tablesQuery ++ m.group 2, lits)

end SqlDialect
