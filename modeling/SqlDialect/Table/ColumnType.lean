import SqlDialect.Table.Definition
import SqlDialect.Text.Case
import SqlDialect.Text.Space

set_option autoImplicit false

/-! # Column types

The PostgreSQL type of a MySQL column. It depends only on the type's name, its arguments and
whether the column numbers itself; an unsigned type is not widened, and unknown types are kept. -/

namespace SqlDialect

/-- The conversions that are a matter of choice. -/
structure TypeOptions where
  /-- `tinyint(1)` is a truth value instead of a small integer. -/
  tinyInt1AsBoolean : Bool := false
  /-- `json` is stored in its binary form. -/
  jsonAsJsonb : Bool := false
  /-- An enumeration gets a constraint that lists its values. -/
  enumCheck : Bool := false
deriving Repr, DecidableEq

/-- A type with its arguments, if it has any. -/
def withArgs (name args : Bytes) : Bytes :=
  if args.isEmpty then name else name ++ ascii "(" ++ args ++ ascii ")"

/-- A type name in lower case with single spaces. -/
def canonicalType (dataType : Bytes) : Bytes :=
  Bytes.toLower (Bytes.oneLine dataType)

/-- Whether the name is one of the listed ones. -/
def isOneOf (name : Bytes) (names : List String) : Bool :=
  (names.map ascii).contains name

/-- The PostgreSQL type of a column. -/
def Column.targetType (col : Column) (opts : TypeOptions) : Bytes :=
  let name := canonicalType col.dataType
  let args := (Bytes.words col.args).flatten
  if col.autoIncrement then
    if name = ascii "bigint" then ascii "bigserial" else ascii "serial"
  else if name = ascii "tinyint" then
    if args = ascii "1" ∧ opts.tinyInt1AsBoolean then ascii "boolean" else ascii "smallint"
  else if isOneOf name ["smallint", "year"] then ascii "smallint"
  else if name = ascii "mediumint" then ascii "integer"
  else if isOneOf name ["int", "integer", "bigint", "date"] then name
  else if name = ascii "float" then ascii "real"
  else if isOneOf name ["double", "double precision", "real"] then ascii "double precision"
  else if isOneOf name ["decimal", "numeric", "dec", "fixed"] then withArgs (ascii "numeric") args
  else if isOneOf name ["char", "varchar", "time"] then withArgs name args
  else if isOneOf name ["tinytext", "text", "mediumtext", "longtext", "enum", "set"] then
    ascii "text"
  else if isOneOf name ["binary", "varbinary", "tinyblob", "blob", "mediumblob", "longblob"] then
    ascii "bytea"
  else if isOneOf name ["datetime", "timestamp"] then withArgs (ascii "timestamp") args
  else if name = ascii "json" then if opts.jsonAsJsonb then ascii "jsonb" else ascii "json"
  else if isOneOf name ["bool", "boolean"] then ascii "boolean"
  else withArgs col.dataType col.args

/-- Whether the type may have a zero date as its default. -/
def isTemporalType (dataType : Bytes) : Bool :=
  isOneOf (Bytes.toLower dataType) ["datetime", "timestamp", "date"]

/-- Whether the type holds text, to which a collation applies. -/
def isTextType (dataType : Bytes) : Bool :=
  isOneOf dataType
    ["char", "varchar", "tinytext", "text", "mediumtext", "longtext", "enum", "set"]

end SqlDialect
