import SqlDialect.Catalog.Basic

set_option autoImplicit false

/-! # The target server

What a PostgreSQL server is asked and what it answers. A server is described by its answers, which
do not depend on what was asked before; the questions are kept as events, in order. -/

namespace SqlDialect

/-- A unique index of the target. -/
structure IndexRow where
  table : Bytes
  index : Bytes
  primary : Bool
  columns : List Bytes
deriving Repr, DecidableEq

namespace IndexRow

/-- The key of an index. -/
def key (r : IndexRow) : TableKey :=
  ⟨r.index, r.columns, r.primary⟩

end IndexRow

/-- The answer to the question for the unique indexes. -/
inductive IndexAnswer where
  /-- The question was not answered. -/
  | refused (error : Bytes)
  /-- Rows, each of which may be unreadable, and an error behind the last of them if any. -/
  | rows (rows : List (Except Bytes IndexRow)) (failure : Option Bytes)

/-- A server, by its answers. -/
structure TargetServer where
  /-- The error of a statement; none if the statement is accepted. -/
  execute : Bytes → Option Bytes := fun _ => none
  /-- Whether the schema exists. -/
  schemaExists : Except Bytes Bool := .ok false
  indexes : IndexAnswer := .rows [] none

/-- What a server is asked. -/
inductive TargetEvent where
  /-- A connection, with the schemas in which names are looked up. -/
  | connect (searchPath : Bytes)
  | askSchema
  | askIndexes
  | statement (sql : Bytes)
deriving Repr, DecidableEq

namespace TargetEvent

/-- The statement of an event, if it is one. -/
def statement? : TargetEvent → Option Bytes
  | statement sql => some sql
  | _ => none

end TargetEvent

/-- A way to a server: its answers, and how connections to it are made. -/
structure TargetLink where
  server : TargetServer
  searchPath : Bytes := []
  /-- Whether a connection is too short-lived for more than one question. -/
  isBrief : Bool := false

namespace TargetLink

/-- What the server sees of some questions. -/
def trace (l : TargetLink) (questions : List TargetEvent) : List TargetEvent :=
  if l.isBrief then questions.flatMap fun q => [.connect l.searchPath, q] else questions

end TargetLink

/-- The text of an error that a server reports. -/
def serverErrorText (message state : Bytes) : Bytes :=
  ascii "ERROR: " ++ message ++ ascii " (SQLSTATE " ++ state ++ ascii ")"

end SqlDialect
