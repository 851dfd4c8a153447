import SqlDialect.Catalog.Basic
import SqlDialect.Statement.Clause

set_option autoImplicit false

/-! # INSERT statements

The head of an INSERT: the table, the list of columns and the word IGNORE. -/

namespace SqlDialect

/-- The head of the statement: group 1 is what precedes IGNORE, group 2 is IGNORE with the blanks
behind it, and group 3 the table. -/
def insertPattern : Pattern :=
  .seqs [.textStart,
    .group 1 (.seqs [.blanks, .keyword "INSERT", .blanks1,
      .opt (.seq (.keywords ["LOW_PRIORITY", "DELAYED", "HIGH_PRIORITY"]) .blanks1)]),
    .opt (.group 2 (.seq (.keyword "IGNORE") .blanks1)),
    .opt (.seq (.keyword "INTO") .blanks1),
    .group 3 (.many1 (.one (CharSet.blank.union (CharSet.ofString "(")).compl)), .blanks]

/-- What the head of an INSERT statement says. -/
structure Insert where
  /-- The table as written. -/
  table : Bytes
  /-- The columns as they appear in the output; empty if the statement lists none. -/
  columns : List Bytes
  /-- Whether the statement ignores conflicts. -/
  ignore : Bool
  /-- The statement without IGNORE. -/
  withoutIgnore : Bytes
deriving Repr, DecidableEq

namespace Insert

/-- The columns of the list that opens the text behind the table, if there is one. A parenthesis that
opens a query is no list; none if the list is not closed. -/
def columnsOf? (rest : Bytes) : Option (List Bytes) :=
  match rest with
  | [] => some []
  | b :: inner =>
    if b = openParen then
      (splitParen? inner).map fun (list, _) =>
        if selectHeadPattern.occursIn list then []
        else (splitTop list).map fun col => normalizeName (Bytes.trimSpace col)
    else some []

/-- Reads the head of an INSERT statement. -/
def ofText? (s : Bytes) : Option Insert := do
  let m ← insertPattern.find? s
  let columns ← columnsOf? m.after
  let lead := m.group 1
  some
    { table := m.group 3
      columns
      ignore := (m.group? 2).isSome
      withoutIgnore := lead ++ s.drop (lead.length + (m.group 2).length) }

/-- The columns that identify the row an insert collides with: those of the first known key that the
inserted columns cover, else the first inserted column. Without a list of columns the first known
key is taken. -/
def conflictTarget (ins : Insert) (catalog : KeyCatalog) (lits : LiteralTable) : List Bytes :=
  let table := bareName (lastSegment ins.table) lits
  if ins.columns.isEmpty then
    (((catalog.keys table).head?).map fun key => key.columns.map quoteIdent).getD []
  else
    match catalog.conflictTarget? table (ins.columns.map fun c => bareName c lits) with
    | none => ins.columns.take 1
    | some target =>
      target.filterMap fun t => ins.columns.find? fun c => Bytes.equalFold (bareName c lits) t

end Insert

end SqlDialect
