import SqlDialect.Table.ColumnType
import SqlDialect.Table.Definition
import SqlDialect.Text.Case

set_option autoImplicit false

/-! # The compatibility report

What the converted definitions of tables cannot keep: indexes that have no counterpart, length limits
of key columns, and collations that ignore letter case. Collations are reported in byte order, after
all that concerns single keys. -/

namespace SqlDialect

/-- Something about a table that needs attention. -/
inductive SchemaWarning where
  /-- A key that PostgreSQL has no plain index for was left out. -/
  | droppedIndex (table key : Bytes) (kind : KeyKind)
  /-- A key covers the whole column where MySQL covers only its start. -/
  | ignoredLimit (table key : Bytes) (part : KeyPart) (unique : Bool)
  /-- Columns whose comparisons ignored letter case. -/
  | caseInsensitive (collation : Bytes) (count : Nat)
  /-- Unique columns among them. -/
  | looseUnique (collation : Bytes) (columns : List Bytes)
deriving Repr, DecidableEq

namespace SchemaWarning

/-- The wording of a warning. -/
def message : SchemaWarning → Bytes
  | droppedIndex table key kind =>
    table ++ ascii "." ++ key ++ ascii ": " ++ kind.keyword ++
      ascii " index dropped; create a GIN or GiST index by hand"
  | ignoredLimit table key part unique =>
    table ++ ascii "." ++ key ++ ascii ": prefix length " ++ part.limit ++ ascii " on " ++
      part.name ++ ascii " ignored; " ++
      if unique then ascii "uniqueness now applies to the full value"
      else ascii "index covers the full column"
  | caseInsensitive collation count =>
    Bytes.decimal count ++ ascii " column(s) use " ++ collation ++
      ascii " (case-insensitive); PostgreSQL text comparisons are case-sensitive by default"
  | looseUnique collation columns =>
    ascii "unique keys on " ++ collation ++
      ascii " columns may now admit values differing only in case: " ++
      Bytes.join (ascii ", ") columns

end SchemaWarning

/-- A text column whose comparisons ignored letter case. -/
structure FoldingColumn where
  collation : Bytes
  /-- The table and the column, joined by a dot. -/
  name : Bytes
  /-- Whether the column belongs to a primary or unique key. -/
  unique : Bool
deriving Repr, DecidableEq

namespace TableDef

/-- What is lost of the keys of a table. -/
def keyWarnings (t : TableDef) : List SchemaWarning :=
  (t.droppedKeys.map fun k => .droppedIndex t.name k.name k.kind) ++
    t.keys.flatMap fun k =>
      (k.columns.filter fun p => !p.limit.isEmpty).map fun p =>
        .ignoredLimit t.name k.name p (k.kind == .unique)

/-- The columns of the primary and unique keys, in lower case. -/
def uniqueColumns (t : TableDef) : List Bytes :=
  t.primaryKey.map Bytes.toLower ++
    (t.keys.filter fun k => k.kind == .unique).flatMap fun k =>
      k.columns.map fun p => Bytes.toLower p.name

/-- The collation that a column goes by: its own, or else the table's. -/
def collationOf (t : TableDef) (c : Column) : Bytes :=
  if c.collation.isEmpty then t.collation else c.collation

/-- Whether the column holds text that is compared without regard to letter case. -/
def foldsCase (t : TableDef) (c : Column) : Bool :=
  isTextType c.dataType && Bytes.endsWith (Bytes.toLower (t.collationOf c)) (ascii "_ci")

/-- A column name without surrounding double quotes, in lower case. -/
def plainColumnName (name : Bytes) : Bytes :=
  Bytes.toLower (Bytes.dropTailWhile (· == 34) (name.dropWhile (· == 34)))

/-- The columns of a table whose comparisons ignored letter case. -/
def foldingColumns (t : TableDef) : List FoldingColumn :=
  (t.columns.filter t.foldsCase).map fun c =>
    let name := plainColumnName c.name
    { collation := t.collationOf c
      name := t.name ++ ascii "." ++ name
      unique := t.uniqueColumns.contains name }

end TableDef

/-- What is to be said about one collation. -/
def collationWarnings (columns : List FoldingColumn) (collation : Bytes) : List SchemaWarning :=
  let affected := columns.filter (·.collation == collation)
  let unique := (affected.filter FoldingColumn.unique).map FoldingColumn.name
  .caseInsensitive collation affected.length ::
    if unique.isEmpty then [] else [.looseUnique collation unique]

/-- The report on some tables. -/
def schemaWarnings (tables : List TableDef) : List SchemaWarning :=
  let columns := tables.flatMap TableDef.foldingColumns
  let collations := Bytes.sorted (columns.map FoldingColumn.collation).eraseDups
  tables.flatMap TableDef.keyWarnings ++ collations.flatMap (collationWarnings columns)

end SqlDialect
