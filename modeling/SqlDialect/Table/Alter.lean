import SqlDialect.Catalog.Basic
import SqlDialect.Table.Column
import SqlDialect.Table.Index

set_option autoImplicit false

/-! # ALTER TABLE

Each specification of an ALTER TABLE statement has an effect of its own: actions that stay in the
statement, statements that go before it (renames) or behind it (indexes), and a key that the
catalog learns. The converted statement is the renames, then one ALTER TABLE with all actions, then
the index statements. -/

namespace SqlDialect

/-- The head of the statement: group 1 is leading space, group 2 the table. -/
def alterTablePattern : Pattern :=
  .seqs [.textStart, .group 1 .blanks, .phrase ["ALTER", "TABLE"], .blanks1,
    .group 2 nameUpToParen, .blanks1]

/-- ADD at the start of a specification. -/
def addPattern : Pattern :=
  .seqs [.textStart, .keyword "ADD", .blanks1]

/-- The word COLUMN, which may stand before a column definition. -/
def columnWordPattern : Pattern :=
  .seqs [.textStart, .keyword "COLUMN", .blanks1]

/-- A primary key that is added, up to its opening parenthesis. -/
def addPrimaryPattern : Pattern :=
  .seqs [.textStart, .keyword "ADD", .blanks1, primaryKeyClause]

/-- MODIFY at the start of a specification. -/
def modifyPattern : Pattern :=
  .seqs [.textStart, .keyword "MODIFY", .blanks1, .opt (.seq (.keyword "COLUMN") .blanks1)]

/-- CHANGE and the old name, which is group 1. -/
def changePattern : Pattern :=
  .seqs [.textStart, .keyword "CHANGE", .blanks1, .opt (.seq (.keyword "COLUMN") .blanks1),
    .group 1 (.many1 (.one CharSet.blank.compl)), .blanks1]

/-- A dropped index; group 1 is its name. -/
def dropIndexPattern : Pattern :=
  .seqs [.textStart, .keyword "DROP", .blanks1, .keywords ["INDEX", "KEY"], .blanks1,
    .group 1 (.many1 (.one CharSet.blank.compl)), .textEnd]

/-- Where a column goes, at the end of its definition. -/
def positionPattern : Pattern :=
  .seqs [.blanks, .wordEdge,
    .alt (.keyword "FIRST")
      (.seqs [.keyword "AFTER", .blanks1, .many1 (.one CharSet.blank.compl)]),
    .blanks, .textEnd]

/-- The table that a statement alters. -/
structure AlteredTable where
  /-- The name as it appears in the output. -/
  name : Bytes
  /-- The last segment of the name, bare. -/
  bare : Bytes

/-- What a specification contributes. -/
structure AlterEffect where
  /-- Statements that go before the altering one. -/
  before : List Bytes := []
  /-- Actions of the altering statement. -/
  actions : List Bytes := []
  /-- Statements that go behind the altering one. -/
  after : List Bytes := []
  /-- A key of the table that becomes known. -/
  key : Option TableKey := none

namespace AlterEffect

/-- Two effects one after the other. -/
def append (a b : AlterEffect) : AlterEffect :=
  ⟨a.before ++ b.before, a.actions ++ b.actions, a.after ++ b.after, a.key.or b.key⟩

/-- An added key, given by the match of its clause. -/
def addKey (t : AlteredTable) (lits : LiteralTable) (m : Match) : AlterEffect :=
  let (key, rendered) := TableIndex.ofClause m lits
  if key.kind.isDropped then {}
  else
    { after := [key.create t.name t.bare rendered]
      key :=
        if key.kind = .unique then some ⟨key.name, key.columns.map KeyPart.name, false⟩ else none }

/-- The actions that change a column to a definition; the specification as written if the definition
cannot be read. -/
def changeColumn (col : Option Column) (opts : TypeOptions) (spec : Bytes) : AlterEffect :=
  match col with
  | some col => { actions := col.alterActions opts }
  | none => { actions := [spec] }

/-- The statement that renames a column, if its name changes. -/
def renameColumn (t : AlteredTable) (lits : LiteralTable) (old : Bytes) (col : Option Column) :
    AlterEffect :=
  match col with
  | some col =>
    if bareName col.name lits = bareName old lits then {}
    else
      { before := [ascii "ALTER TABLE " ++ t.name ++ ascii " RENAME COLUMN " ++ old ++
          ascii " TO " ++ col.name] }
  | none => {}

/-- What a specification that starts with ADD contributes, if it is neither a key nor a
constraint. -/
def addColumn (lits : LiteralTable) (opts : TypeOptions) (definition spec : Bytes) :
    AlterEffect :=
  match Column.ofText? (positionPattern.erase definition) lits opts false with
  | some col => { actions := [ascii "ADD COLUMN " ++ col.render opts] }
  | none => { actions := [spec] }

/-- What a specification that does not add anything contributes. -/
def ofChange (t : AlteredTable) (lits : LiteralTable) (opts : TypeOptions) (spec : Bytes) :
    AlterEffect :=
  match modifyPattern.find? spec with
  | some m =>
    changeColumn (Column.ofText? (positionPattern.erase m.after) lits opts true) opts spec
  | none =>
    match changePattern.find? spec with
    | some m =>
      let col := Column.ofText? (positionPattern.erase m.after) lits opts true
      (renameColumn t lits (normalizeName (m.group 1)) col).append (changeColumn col opts spec)
    | none =>
      match dropIndexPattern.find? spec with
      | some m => { after := [dropIndex t.bare (bareName (normalizeName (m.group 1)) lits)] }
      | none => { actions := [spec] }

/-- What a specification contributes. -/
def ofSpec (t : AlteredTable) (lits : LiteralTable) (opts : TypeOptions) (spec : Bytes) :
    AlterEffect :=
  match addPrimaryPattern.find? spec with
  | some m =>
    let cols := KeyColumns.ofText m.after lits
    { actions := [ascii "ADD PRIMARY KEY (" ++ cols.rendered ++ ascii ")"]
      key := some ⟨ascii "PRIMARY", cols.parts.map KeyPart.name, true⟩ }
  | none =>
    match addPattern.find? spec with
    | none => ofChange t lits opts spec
    | some added =>
      match keyClause? added.after with
      | some m => addKey t lits m
      | none =>
        if constraintPattern.occursIn added.after then { actions := [spec] }
        else addColumn lits opts (columnWordPattern.erase added.after) spec

end AlterEffect

/-- The statements that specifications turn into. -/
def alterStatements (table : Bytes) (effects : List AlterEffect) : List Bytes :=
  let actions := effects.flatMap AlterEffect.actions
  effects.flatMap AlterEffect.before ++
    (if actions.isEmpty then []
      else [ascii "ALTER TABLE " ++ table ++ ascii " " ++ Bytes.join (ascii ", ") actions]) ++
    effects.flatMap AlterEffect.after

/-- Converts an ALTER TABLE statement and teaches the catalog the keys it adds. A statement none of
whose specifications contributes anything is left as it is. -/
def alterTable (s : Bytes) (lits : LiteralTable) (opts : TypeOptions) (catalog : KeyCatalog) :
    Bytes × KeyCatalog :=
  match alterTablePattern.find? s with
  | none => (s, catalog)
  | some m =>
    let name := normalizeName (m.group 2)
    let table : AlteredTable := ⟨name, bareName (lastSegment name) lits⟩
    let (specs, had) := trimStatementEnd m.after
    let cores := ((items specs).map Spaced.core).filter fun spec => !spec.isEmpty
    let effects := cores.map (AlterEffect.ofSpec table lits opts)
    let learned := (effects.filterMap AlterEffect.key).foldl
      (fun c key => c.register table.bare key) catalog
    let statements := alterStatements name effects
    if statements.isEmpty then (s, learned)
    else (m.group 1 ++ Bytes.join (ascii ";\n") statements ++ semicolonIf had, learned)

end SqlDialect
