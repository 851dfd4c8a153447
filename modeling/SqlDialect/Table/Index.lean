import SqlDialect.Statement.Clause
import SqlDialect.Table.Definition

set_option autoImplicit false

/-! # Key clauses

Primary and secondary keys as they stand in table definitions. PostgreSQL knows no secondary keys
inside a definition: each becomes an index statement of its own. Index names are shared by a whole
schema there, so the table's name is put in front. -/

namespace SqlDialect

/-- A name up to a blank or an opening parenthesis. -/
def nameUpToParen : Pattern :=
  .many1 (.one (CharSet.blank.union (CharSet.ofString "(")).compl)

/-- CONSTRAINT and its optional name, which is group 1. -/
def constraintLead : Pattern :=
  .opt (.seqs [.keyword "CONSTRAINT", .opt (.seq .blanks1 (.group 1 nameUpToParen)), .blanks1])

/-- A primary key clause up to its opening parenthesis. -/
def primaryKeyClause : Pattern :=
  .seqs [constraintLead, .phrase ["PRIMARY", "KEY"], .wordEdge, .blanks,
    .opt (.seq nameUpToParen .blanks), .text "("]

/-- A primary key at the start of an item. -/
def primaryKeyPattern : Pattern :=
  .seq .textStart primaryKeyClause

/-- A secondary key at the start of an item, up to its opening parenthesis: group 1 is the name of
the constraint, group 2 the kind, group 3 KEY or INDEX, and group 4 the name. -/
def keyClausePattern : Pattern :=
  .seqs [.textStart, constraintLead,
    .opt (.seqs [.group 2 (.keywords ["UNIQUE", "FULLTEXT", "SPATIAL"]), .wordEdge, .blanks]),
    .opt (.seqs [.group 3 (.keywords ["KEY", "INDEX"]), .wordEdge, .blanks]),
    .group 4 (.many (.one (CharSet.blank.union (CharSet.ofString "(")).compl)), .blanks, .text "("]

/-- The match of a secondary key clause, if the item is one. -/
def keyClause? (item : Bytes) : Option Match :=
  (keyClausePattern.find? item).filter fun m => (m.group? 2).isSome || (m.group? 3).isSome

/-- A column of a key: group 1 is its name, group 2 the length limit, group 3 the direction. -/
def keyPartPattern : Pattern :=
  .seqs [.textStart, .group 1 (.many1Lazy (.one CharSet.blank.compl)), .blanks,
    .opt (.seqs [.text "(", .blanks, .group 2 (.many1 (.one CharSet.digit)), .blanks, .text ")"]),
    .opt (.seq .blanks1 (.group 3 (.keywords ["ASC", "DESC"]))), .textEnd]

/-- The columns of a key and the list of them as it appears in the output. -/
structure KeyColumns where
  parts : List KeyPart
  rendered : Bytes

namespace KeyColumns

/-- A column of a key as it appears in the output, without its length limit. -/
def renderPart (col : Bytes) : Bytes :=
  match keyPartPattern.find? col with
  | none => col
  | some m =>
    normalizeName (m.group 1) ++
      (match m.group? 3 with
      | some direction => ascii " " ++ Bytes.toUpper direction
      | none => [])

/-- The column that an item of the list names. -/
def part? (lits : LiteralTable) (col : Bytes) : Option KeyPart :=
  (keyPartPattern.find? col).map fun m => ⟨bareName (m.group 1) lits, m.group 2⟩

/-- Reads the list of columns that follows an opening parenthesis; without a closing one it runs to
the end. -/
def ofText (s : Bytes) (lits : LiteralTable) : KeyColumns :=
  let list := ((splitParen? s).map Prod.fst).getD s
  ⟨(items list).filterMap fun p => part? lits p.core, mapItems renderPart list⟩

end KeyColumns

/-- Reads a secondary key from the match of its clause, with the list of its columns. -/
def TableIndex.ofClause (m : Match) (lits : LiteralTable) : TableIndex × Bytes :=
  let cols := KeyColumns.ofText m.after lits
  let written := if (m.group 4).isEmpty then m.group 1 else m.group 4
  let name :=
    if written.isEmpty then ((cols.parts.head?).map KeyPart.name).getD [] else written
  (⟨bareName name lits, KeyKind.ofKeyword (Bytes.toUpper (m.group 2)), cols.parts⟩, cols.rendered)

/-- The name of the index for a key of a table. -/
def indexName (table key : Bytes) : Bytes :=
  table ++ ascii "_" ++ key

/-- The statement that creates the index for a key. -/
def TableIndex.create (key : TableIndex) (table bare cols : Bytes) : Bytes :=
  ascii "CREATE " ++ (if key.kind = .unique then ascii "UNIQUE " else []) ++
    ascii "INDEX IF NOT EXISTS " ++ quoteIdent (indexName bare key.name) ++ ascii " ON " ++ table ++
    ascii " (" ++ Bytes.trimSpace cols ++ ascii ")"

/-- The statement that drops the index for a key. -/
def dropIndex (bare name : Bytes) : Bytes :=
  ascii "DROP INDEX IF EXISTS " ++ quoteIdent (indexName bare name)

/-- The words that open a constraint. -/
def constraintPattern : Pattern :=
  .seqs [.textStart, .keywords ["CONSTRAINT", "FOREIGN", "CHECK"], .wordEdge]

end SqlDialect
