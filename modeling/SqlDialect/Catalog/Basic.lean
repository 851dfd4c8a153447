import SqlDialect.Text.Case
import SqlDialect.Text.Space

set_option autoImplicit false

/-! # Key catalog

Which primary and unique keys tables have, so that an upsert can name the columns that identify a
row. Tables are known by their bare name in lower case; the keys of a table are kept with primary
keys in front. A table without keys is not in the catalog. -/

namespace SqlDialect

/-- A primary or unique key of a table. -/
structure TableKey where
  name : Bytes
  columns : List Bytes
  primary : Bool := false
deriving Repr, DecidableEq

/-- The keys of tables, by catalog name. Each name occurs once. -/
structure KeyCatalog where
  tables : List (Bytes × List TableKey) := []
deriving Repr, DecidableEq

namespace KeyCatalog

/-! ## Names -/

/-- A name without surrounding space and quotes, in lower case. -/
def unquoteName (name : Bytes) : Bytes :=
  let name := Bytes.trimSpace name
  let quoted (q : UInt8) := 2 ≤ name.length && name.head? == some q && name.getLast? == some q
  Bytes.toLower (if quoted 34 || quoted 96 then (name.drop 1).dropLast else name)

/-- The catalog name of a possibly qualified and quoted table name. -/
def tableName (table : Bytes) : Bytes :=
  unquoteName (((Bytes.cutLast? 46 table).map Prod.snd).getD table)

/-- The key with its columns in catalog form. -/
def normalize (key : TableKey) : TableKey :=
  { key with columns := key.columns.map unquoteName }

/-! ## Reading -/

/-- The keys known for a catalog name. -/
def entry (c : KeyCatalog) (name : Bytes) : List TableKey :=
  (c.tables.lookup name).getD []

/-- The keys known for a table, primary keys first. -/
def keys (c : KeyCatalog) (table : Bytes) : List TableKey :=
  c.entry (tableName table)

/-- The number of tables with at least one key. -/
def size (c : KeyCatalog) : Nat :=
  c.tables.length

/-- The columns of the first key of the table whose columns are all among the given ones. -/
def conflictTarget? (c : KeyCatalog) (table : Bytes) (cols : List Bytes) : Option (List Bytes) :=
  let present := cols.map unquoteName
  ((c.keys table).find? fun k => k.columns.all present.contains).map TableKey.columns

/-! ## Writing -/

/-- Replaces the entry of a catalog name; an empty entry is removed. -/
def setEntry (c : KeyCatalog) (name : Bytes) (keys : List TableKey) : KeyCatalog :=
  if keys.isEmpty then { tables := c.tables.filter (·.1 != name) }
  else if c.tables.any (·.1 == name) then
    { tables := c.tables.map fun e => if e.1 == name then (name, keys) else e }
  else { tables := c.tables ++ [(name, keys)] }

/-- Puts a primary key in front and any other key at the end. -/
def place (keys : List TableKey) (key : TableKey) : List TableKey :=
  if key.primary then key :: keys else keys ++ [key]

/-- Adds a key to a table. A key without columns, or with the columns of a known one, is ignored. -/
def register (c : KeyCatalog) (table : Bytes) (key : TableKey) : KeyCatalog :=
  let key := normalize key
  let known := c.keys table
  if key.columns.isEmpty || known.any (·.columns == key.columns) then c
  else c.setEntry (tableName table) (place known key)

/-- Replaces all that is known about a table. -/
def setTable (c : KeyCatalog) (table : Bytes) (keys : List TableKey) : KeyCatalog :=
  c.setEntry (tableName table)
    (((keys.filter fun k => !k.columns.isEmpty).map normalize).foldl place [])

end KeyCatalog

end SqlDialect
