import SqlDialect.Query.Operator
import SqlDialect.Query.ZeroDate
import SqlDialect.Statement.Clause
import SqlDialect.Table.ColumnType

set_option autoImplicit false

/-! # Column definitions

A column definition is a name, a type and attributes. The type is mapped, the attributes that
PostgreSQL does not know are dropped, and defaults that it would reject are replaced. -/

namespace SqlDialect

namespace Column

/-! ## The parts of a definition -/

/-- A definition: group 1 is the name, group 2 the type, group 3 its arguments, group 4 the rest. -/
def definitionPattern : Pattern :=
  .seqs [.textStart,
    .group 1 (.alt
      (.seqs [.text "\"",
        .many (.alt (.one (CharSet.ofString "\"").compl) (.text "\"\"")), .text "\""])
      (.many1 (.one CharSet.blank.compl))),
    .blanks1,
    .group 2 (.seq (.many1 (.one CharSet.letterAnyCase))
      (.opt (.seq .blanks1 (.keywords ["precision", "varying"])))),
    .wordEdge, .blanks,
    .opt (.seqs [.text "(", .group 3 (.many (.one (CharSet.ofString ")").compl)), .text ")"]),
    .group 4 (.many (.one CharSet.any)), .textEnd]

/-- The sign attributes. -/
def signPattern : Pattern :=
  .seqs [.blanks, .wordEdge, .keywords ["UNSIGNED", "SIGNED"], .wordEdge]

/-- The attribute that pads numbers. -/
def zerofillPattern : Pattern := .seq .blanks (.wholeWord "ZEROFILL")

/-- The character set of a column or table. -/
def charsetPattern : Pattern :=
  .seqs [.blanks, .wordEdge, .alt (.phrase ["CHARACTER", "SET"]) (.keyword "CHARSET"), .blanks,
    .opt (.text "="), .blanks, .many1 (.one CharSet.wordAnyCase)]

/-- The collation of a column or table; group 1 is its name. -/
def collatePattern : Pattern :=
  .seqs [.blanks, .wordEdge, .keyword "COLLATE", .blanks, .opt (.text "="), .blanks,
    .group 1 (.many1 (.one CharSet.wordAnyCase))]

/-- The attribute that sets the time of the last change. -/
def onUpdatePattern : Pattern :=
  .seqs [.blanks, .wordEdge, .phrase ["ON", "UPDATE"], .blanks1,
    .keywords ["CURRENT_TIMESTAMP", "NOW"],
    .opt (.seqs [.blanks, .text "(", .blanks, .many (.one CharSet.digit), .blanks, .text ")"])]

/-- The comment of a column. -/
def commentPattern : Pattern :=
  .seqs [.blanks, .wordEdge, .keyword "COMMENT", .blanks1, literalToken]

/-- The attribute of a column that numbers itself. -/
def autoIncrementPattern : Pattern := .seq .blanks (.wholeWord "AUTO_INCREMENT")

/-- The attribute of a column that takes no NULL. -/
def notNullPattern : Pattern := .seq .blanks (.wholePhrase ["NOT", "NULL"])

/-- A leading NULL. -/
def leadingNullPattern : Pattern := .seqs [.textStart, .blanks, .keyword "NULL", .wordEdge]

/-- The default of a column; group 1 is its value. -/
def defaultPattern : Pattern :=
  .seqs [.wordEdge, .keyword "DEFAULT", .blanks1,
    .group 1 (.alt literalToken
      (.many1 (.one (CharSet.blank.union (CharSet.ofString ",")).compl)))]

/-- The column is the primary key. -/
def primaryPattern : Pattern := .wholePhrase ["PRIMARY", "KEY"]

/-- The column is a unique key. -/
def uniquePattern : Pattern :=
  .seqs [.wordEdge, .keyword "UNIQUE", .opt (.seq .blanks1 (.keyword "KEY")), .wordEdge]

/-! ## Conversion -/

/-- The default that stands in for one that PostgreSQL would reject, if it is such. -/
def targetDefault? (col : Column) (type : Bytes) (lits : LiteralTable) : Option Bytes :=
  let literal := lits.lookup? col.defaultValue
  let value := (literal.map Literal.body).getD col.defaultValue
  if literal.isSome && isTemporalType col.dataType && isZeroDate value then
    if col.dataType = ascii "date" then some (ascii "CURRENT_DATE") else some (ascii "now()")
  else if type = ascii "boolean" then
    if value = ascii "0" then some (ascii "false")
    else if value = ascii "1" then some (ascii "true")
    else none
  else none

/-- The constraint that lists the values of an enumeration, where it is wanted. -/
def enumConstraint (col : Column) (opts : TypeOptions) : Bytes :=
  if opts.enumCheck && col.dataType == ascii "enum" && !col.args.isEmpty then
    ascii " CHECK (" ++ col.name ++ ascii " IN (" ++ col.args ++ ascii "))"
  else []

/-- Reads a column definition. With `inPlace` an existing column is changed, and a column that
numbers itself has the plain integer type. -/
def ofText? (item : Bytes) (lits : LiteralTable) (opts : TypeOptions) (inPlace : Bool) :
    Option Column :=
  (definitionPattern.find? item).map fun m =>
    let signed := m.group 4
    let rest := signPattern.erase signed
    let collation := ((collatePattern.find? rest).map (·.group 1)).getD []
    let rest := [zerofillPattern, charsetPattern, collatePattern, onUpdatePattern,
      commentPattern].foldl (fun s p => p.erase s) rest
    let autoIncrement := autoIncrementPattern.occursIn rest
    let rest := autoIncrementPattern.erase rest
    let notNull := notNullPattern.occursIn rest
    let rest :=
      if autoIncrement then leadingNullPattern.erase (notNullPattern.erase rest) else rest
    let col : Column :=
      { name := normalizeName (m.group 1)
        dataType := canonicalType (m.group 2)
        args := m.group 3
        unsigned := signPattern.occursIn signed &&
          Bytes.containsText (Bytes.toUpper signed) (ascii "UNSIGNED")
        notNull
        defaultValue := ((defaultPattern.find? rest).map (·.group 1)).getD []
        autoIncrement
        collation }
    let type := { col with autoIncrement := autoIncrement && !inPlace }.targetType opts
    let replaced := if col.defaultValue.isEmpty then none else col.targetDefault? type lits
    let rest :=
      match replaced with
      | some value => defaultPattern.replace (ascii "DEFAULT " ++ value) rest
      | none => rest
    { col with
      defaultValue := replaced.getD col.defaultValue
      attrs := Bytes.oneLine (rest ++ col.enumConstraint opts) }

/-- The type a column has in PostgreSQL when it is created, or changed in place. -/
def typeFor (col : Column) (opts : TypeOptions) (inPlace : Bool) : Bytes :=
  { col with autoIncrement := col.autoIncrement && !inPlace }.targetType opts

/-- The definition of a new column. -/
def render (col : Column) (opts : TypeOptions) : Bytes :=
  let head := col.name ++ ascii " " ++ col.typeFor opts false
  if col.attrs.isEmpty then head else head ++ ascii " " ++ col.attrs

/-- The actions that change an existing column to this definition. -/
def alterActions (col : Column) (opts : TypeOptions) : List Bytes :=
  let action := ascii "ALTER COLUMN " ++ col.name
  [action ++ ascii " TYPE " ++ col.typeFor opts true,
    action ++ (if col.notNull || col.autoIncrement then ascii " SET NOT NULL"
      else ascii " DROP NOT NULL")] ++
  (if !col.defaultValue.isEmpty && !col.autoIncrement then
    [action ++ ascii " SET DEFAULT " ++ col.defaultValue] else [])

end Column

end SqlDialect
