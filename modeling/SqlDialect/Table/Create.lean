import SqlDialect.Catalog.Basic
import SqlDialect.Log.Basic
import SqlDialect.Statement.Kind
import SqlDialect.Table.Column
import SqlDialect.Table.Index

set_option autoImplicit false

/-! # CREATE TABLE

The body of a table definition is a list of items: columns, keys and constraints. Columns are
converted, secondary keys are pulled out and become index statements behind the definition,
constraints stay. Table options that PostgreSQL does not know are dropped. -/

namespace SqlDialect

/-- The head of the statement: group 1 is leading space, group 2 TEMPORARY, group 3 the table. -/
def createTablePattern : Pattern :=
  .seqs [.textStart, .group 1 .blanks, .keyword "CREATE", .blanks1,
    .opt (.group 2 (.seq (.keyword "TEMPORARY") .blanks1)), .keyword "TABLE", .blanks1,
    .opt (.seqs [.phrase ["IF", "NOT", "EXISTS"], .blanks1]), .group 3 nameUpToParen, .blanks,
    .text "("]

/-- An option behind the closing parenthesis of a table definition. -/
def tableOptionPattern : Pattern :=
  .seqs [.blanks, .wordEdge, .opt (.seq (.keyword "DEFAULT") .blanks1),
    .alts [.keyword "ENGINE", .keyword "TYPE", .keyword "AUTO_INCREMENT",
      .phrase ["CHARACTER", "SET"], .keyword "CHARSET", .keyword "COLLATE", .keyword "ROW_FORMAT",
      .keyword "COMMENT", .keyword "KEY_BLOCK_SIZE", .keyword "PACK_KEYS", .keyword "CHECKSUM",
      .keyword "DELAY_KEY_WRITE", .seq (.keyword "STATS_") (.many1 (.one CharSet.wordAnyCase)),
      .keyword "AVG_ROW_LENGTH", .keyword "MAX_ROWS", .keyword "MIN_ROWS"],
    .wordEdge, .blanks, .opt (.text "="), .blanks,
    .alt literalToken (.many1 (.one (CharSet.wordAnyCase.union (CharSet.ofString "."))))]

/-- An item of a table definition. -/
inductive TableItem where
  /-- A primary key and its columns as they appear in the output. -/
  | primaryKey (parts : List KeyPart) (rendered : Bytes)
  /-- A secondary key and its columns as they appear in the output. -/
  | index (key : TableIndex) (rendered : Bytes)
  /-- A column. -/
  | column (col : Column)
  /-- A constraint or anything else, kept as written. -/
  | verbatim (text : Bytes)

namespace TableItem

/-- Reads an item. -/
def ofText (lits : LiteralTable) (opts : TypeOptions) (item : Bytes) : TableItem :=
  match primaryKeyPattern.find? item with
  | some m =>
    let cols := KeyColumns.ofText m.after lits
    primaryKey cols.parts cols.rendered
  | none =>
    match keyClause? item with
    | some m =>
      let (key, rendered) := TableIndex.ofClause m lits
      index key rendered
    | none =>
      if constraintPattern.occursIn item then verbatim item
      else
        match Column.ofText? item lits opts false with
        | some col => column col
        | none => verbatim item

/-- What stays of the item in the body of the definition. -/
def kept? (opts : TypeOptions) : TableItem → Option Bytes
  | primaryKey _ rendered => some (ascii "PRIMARY KEY (" ++ rendered ++ ascii ")")
  | index _ _ => none
  | column col => some (col.render opts)
  | verbatim text => some text

/-- The index statement that the item turns into. -/
def indexStatement? (table bare : Bytes) : TableItem → Option Bytes
  | index key rendered =>
    if key.kind.isDropped then none else some (key.create table bare rendered)
  | _ => none

/-- Notes that a key is left out. -/
def logEntry? (bare : Bytes) : TableItem → Option LogEntry
  | index key _ =>
    if key.kind.isDropped then
      some
        { level := .debug
          message := ascii "dropping key"
          fields := [(ascii "table", .text bare), (ascii "kind", .text key.kind.keyword),
            (ascii "key", .text key.name)] }
    else none
  | _ => none

/-- Adds what the item says to what is known about the table. A column that is the primary key
replaces the key; a unique column is a key of its own. -/
def addTo (lits : LiteralTable) (d : TableDef) : TableItem → TableDef
  | primaryKey parts _ => { d with primaryKey := d.primaryKey ++ parts.map KeyPart.name }
  | index key _ =>
    if key.kind.isDropped then { d with droppedKeys := d.droppedKeys ++ [key] }
    else { d with keys := d.keys ++ [key] }
  | column col =>
    let d := { d with columns := d.columns ++ [col] }
    let name := bareName col.name lits
    if Column.primaryPattern.occursIn col.attrs then { d with primaryKey := [name] }
    else if Column.uniquePattern.occursIn col.attrs then
      { d with keys := d.keys ++ [⟨name, .unique, [⟨name, []⟩]⟩] }
    else d
  | verbatim _ => d

end TableItem

/-- A converted CREATE TABLE statement. -/
structure CreatedTable where
  text : Bytes
  definition : TableDef
  log : List LogEntry

/-- Converts a CREATE TABLE statement; none if it has no body in parentheses. -/
def createTable? (s : Bytes) (lits : LiteralTable) (opts : TypeOptions) : Option CreatedTable := do
  let m ← createTablePattern.find? s
  let (body, tail) ← splitParen? m.after
  let table := normalizeName (m.group 3)
  let bare := bareName (lastSegment table) lits
  let parts := (items body).filter fun p => !p.core.isEmpty
  let read := parts.map fun p => (p.lead, TableItem.ofText lits opts p.core)
  let kept := read.filterMap fun (lead, item) => (item.kept? opts).map (lead ++ ·)
  let indexes := read.filterMap fun (_, item) => item.indexStatement? table bare
  let definition := (read.map Prod.snd).foldl (TableItem.addTo lits) { name := table }
  let collation := ((Column.collatePattern.find? tail).map (·.group 1)).getD []
  let leftover := (trimStatementEnd (tableOptionPattern.erase tail)).1
  some
    { text :=
        m.group 1 ++ ascii "CREATE " ++
          (if (m.group? 2).isSome then ascii "TEMPORARY " else []) ++
          ascii "TABLE IF NOT EXISTS " ++ table ++ ascii " (" ++ Bytes.join [comma] kept ++
          body.drop (Bytes.trimRight body).length ++ ascii ")" ++ leftover ++ ascii ";" ++
          indexes.flatMap fun index => ascii "\n" ++ index ++ ascii ";"
      definition := { definition with collation }
      log := read.filterMap fun (_, item) => item.logEntry? bare }

/-- The keys of a table that can identify a row. -/
def TableDef.uniqueKeys (d : TableDef) : List TableKey :=
  (if d.primaryKey.isEmpty then []
    else [⟨ascii "PRIMARY", d.primaryKey, true⟩]) ++
  (d.keys.filter (·.kind == .unique)).map fun k => ⟨k.name, k.columns.map KeyPart.name, false⟩

/-- Reads a CREATE TABLE statement. Defaults and attributes come in their PostgreSQL form and with
their literals. -/
def TableDef.ofStatement? (sql : Bytes) : Option TableDef :=
  let (shielded, lits) := shield sql
  if Kind.ofShielded shielded = .createTable then
    (createTable? (replaceBackticks shielded) lits {}).map fun t =>
      { t.definition with
        columns := t.definition.columns.map fun col =>
          { col with
            defaultValue := restore col.defaultValue lits
            attrs := restore col.attrs lits } }
  else none

end SqlDialect
