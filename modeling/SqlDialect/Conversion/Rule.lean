import SqlDialect.Identifier.Bare
import SqlDialect.Query.Call
import SqlDialect.Query.Count
import SqlDialect.Query.FoundRows
import SqlDialect.Query.Limit
import SqlDialect.Query.Order
import SqlDialect.Query.ShowTables
import SqlDialect.Query.Upsert
import SqlDialect.Query.ZeroDate
import SqlDialect.Table.Alter
import SqlDialect.Table.Create

set_option autoImplicit false

/-! # Conversion rules

A statement is converted by a fixed sequence of rules. Each rule has the kinds of statements that it
is for and changes the statement's text, its literals, or what the catalog knows. The text holds
placeholders throughout; the literals come back only when all rules have run. -/

namespace SqlDialect

/-- A statement under conversion. -/
structure Draft where
  kind : Kind
  /-- The text with placeholders for literals. -/
  text : Bytes
  literals : LiteralTable
  options : TypeOptions := {}
  catalog : KeyCatalog := {}
  log : List LogEntry := []

namespace Draft

/-- Changes the text. -/
def mapText (f : Bytes → Bytes) (d : Draft) : Draft :=
  { d with text := f d.text }

/-- The statement with its literals. -/
def result (d : Draft) : Bytes :=
  restore d.text d.literals

end Draft

/-- One step of the conversion. -/
structure Rule where
  name : String
  /-- The kinds of statements that the rule is for. -/
  kinds : List Kind
  /-- What the rule does to a statement of such a kind. -/
  apply : Draft → Except Fault Draft

namespace Rule

/-- Applies the rule to a statement of one of its kinds. -/
def run (r : Rule) (d : Draft) : Except Fault Draft :=
  if r.kinds.contains d.kind then r.apply d else .ok d

/-- A rule that changes only the text. -/
def onText (name : String) (kinds : List Kind) (f : Bytes → Bytes) : Rule :=
  ⟨name, kinds, fun d => .ok (d.mapText f)⟩

/-- A rule that changes only the literals, looking at the text. -/
def onLiterals (name : String) (kinds : List Kind)
    (f : Bytes → LiteralTable → LiteralTable) : Rule :=
  ⟨name, kinds, fun d => .ok { d with literals := f d.text d.literals }⟩

/-- A rule that cannot fail. -/
def total (name : String) (kinds : List Kind) (f : Draft → Draft) : Rule :=
  ⟨name, kinds, fun d => .ok (f d)⟩

end Rule

namespace Kind

/-- The kinds that read or change rows. -/
def rowKinds : List Kind := [select, insert, replace, update, delete]

/-- The kinds that may hold expressions: also statements that the classification does not name. -/
def exprKinds : List Kind := other :: rowKinds

end Kind

/-- Converts SHOW TABLES, if the statement is that. -/
def Draft.showTables (d : Draft) : Draft :=
  match convertShowTables? d.text d.literals with
  | some (text, literals) => { d with text, literals }
  | none => d

/-- Converts CREATE TABLE and puts the table's keys into the catalog. -/
def Draft.createTable (d : Draft) : Draft :=
  match createTable? d.text d.literals d.options with
  | some t =>
    { d with
      text := t.text
      catalog :=
        d.catalog.setTable (bareName t.definition.name d.literals) t.definition.uniqueKeys
      log := d.log ++ t.log }
  | none => d

/-- Converts ALTER TABLE and adds the keys to the catalog. -/
def Draft.alterTable (d : Draft) : Draft :=
  let (text, catalog) := SqlDialect.alterTable d.text d.literals d.options d.catalog
  { d with text, catalog }

/-- Converts ON DUPLICATE KEY UPDATE, if the statement has it. -/
def Draft.onDuplicate (d : Draft) : Draft :=
  if hasOnDuplicate d.text then
    match convertOnDuplicate? d.text d.literals d.catalog with
    | some u => { d with text := u.text, log := d.log ++ u.log }
    | none => d
  else d

/-- Converts INSERT IGNORE, if the statement is that. -/
def Draft.insertIgnore (d : Draft) : Draft :=
  match ignoringInsert? d.text with
  | some ins => { d with text := convertInsertIgnore ins }
  | none => d

/-- The rules in the order in which they run. -/
def conversionRules : List Rule :=
  [.onText "backticks" Kind.all replaceBackticks,
    .total "show-tables" [.other] Draft.showTables,
    .total "create-table" [.createTable] Draft.createTable,
    .total "alter-table" [.alterTable] Draft.alterTable,
    .onText "sql-calc-found-rows" [.select] stripCalcFoundRows,
    .onText "like" Kind.exprKinds likeToILike,
    .onText "regexp" Kind.exprKinds regexpToTilde,
    .onLiterals "pattern-literals" Kind.exprKinds singleQuotePatterns,
    .onText "functions" Kind.rowKinds convertFunctions,
    .onText "date-cast" [.select, .update, .delete] castDateCalls,
    .onText "order-by-int-cast" [.select] castOrderByPlusZero,
    ⟨"order-by-literal", [.select], fun d =>
      (unquoteOrderByLiteral d.text d.literals).map fun text => { d with text }⟩,
    .onText "limit-offset" [.select] limitToOffset,
    .onText "dml-limit" [.update, .delete] stripFinalLimit,
    .onText "count-group-by" [.select] aliasCountsAndGroup,
    .onLiterals "zero-date" Kind.rowKinds replaceZeroDates,
    .total "on-duplicate-key" [.insert] Draft.onDuplicate,
    .total "insert-ignore" [.insert] Draft.insertIgnore,
    .onText "replace-into" [.replace] fun s => (convertReplace? s).getD s,
    .onText "returning" [.insert] fun s => if hasReturning s then s else appendReturning s,
    .onText "bare-identifiers" Kind.exprKinds quoteBareIdentifiers]

/-- Runs rules one after the other. -/
def runRules (rules : List Rule) (d : Draft) : Except Fault Draft :=
  rules.foldlM (fun d r => r.run d) d

end SqlDialect
