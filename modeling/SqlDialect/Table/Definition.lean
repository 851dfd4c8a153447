import SqlDialect.Text.Bytes

set_option autoImplicit false

/-! # Table definitions

What is learned about a table from the statement that creates it. -/

namespace SqlDialect

/-- A column of a table. -/
structure Column where
  /-- The name as it appears in the output. -/
  name : Bytes
  /-- The MySQL type in lower case, such as `bigint` or `double precision`. -/
  dataType : Bytes
  /-- What stood between the parentheses behind the type. -/
  args : Bytes := []
  unsigned : Bool := false
  notNull : Bool := false
  /-- The DEFAULT expression; empty if there is none. -/
  defaultValue : Bytes := []
  autoIncrement : Bool := false
  /-- The column's own collation; empty if the table's applies. -/
  collation : Bytes := []
  /-- What else the definition says, as it appears in the output. -/
  attrs : Bytes := []
deriving Repr, DecidableEq

/-- A column of a key, with its MySQL length limit if any. -/
structure KeyPart where
  name : Bytes
  limit : Bytes := []
deriving Repr, DecidableEq

/-- What a key does. -/
inductive KeyKind where
  | plain
  | unique
  | fulltext
  | spatial
deriving Repr, DecidableEq

namespace KeyKind

/-- Whether PostgreSQL has no plain index for such a key, so that it is left out. -/
def isDropped : KeyKind → Bool
  | fulltext | spatial => true
  | plain | unique => false

/-- The keyword of the kinds that are left out. -/
def keyword : KeyKind → Bytes
  | fulltext => ascii "FULLTEXT"
  | spatial => ascii "SPATIAL"
  | plain | unique => []

/-- The kind that an upper-case keyword announces. -/
def ofKeyword (word : Bytes) : KeyKind :=
  if word = ascii "UNIQUE" then unique
  else if word = ascii "FULLTEXT" then fulltext
  else if word = ascii "SPATIAL" then spatial
  else plain

end KeyKind

/-- A secondary key of a table. -/
structure TableIndex where
  name : Bytes
  kind : KeyKind := .plain
  columns : List KeyPart
deriving Repr, DecidableEq

/-- What is known about a created table. -/
structure TableDef where
  name : Bytes
  columns : List Column := []
  primaryKey : List Bytes := []
  keys : List TableIndex := []
  /-- The keys that PostgreSQL has no plain index for. -/
  droppedKeys : List TableIndex := []
  /-- The default collation of the table; empty if none is given. -/
  collation : Bytes := []
deriving Repr, DecidableEq

end SqlDialect
