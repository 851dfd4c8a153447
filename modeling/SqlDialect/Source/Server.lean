import SqlDialect.Schema.Order

set_option autoImplicit false

/-! # The source server

What a MySQL server is asked for its tables. A server is described by its answers. -/

namespace SqlDialect

/-- The definition of a table, as the source shows it. -/
structure TableSource where
  name : Bytes
  statement : Bytes
deriving Repr, DecidableEq

/-- A server, by its answers; an answer may be an error. -/
structure SourceServer where
  tables : Except Bytes (List Bytes) := .ok []
  references : Except Bytes (List Reference) := .ok []
  /-- The statement that creates a table. -/
  definition : Bytes → Except Bytes Bytes

/-- Why the definitions of the source could not be read. -/
inductive SourceError where
  | noTables (error : Bytes)
  | noReferences (error : Bytes)
  | noDefinition (table error : Bytes)
deriving Repr, DecidableEq

namespace SourceError

/-- The wording of an error. -/
def message : SourceError → Bytes
  | noTables error => ascii "list tables: " ++ error
  | noReferences error => ascii "list foreign keys: " ++ error
  | noDefinition table error => ascii "show create table " ++ table ++ ascii ": " ++ error

end SourceError

namespace SourceServer

/-- The tables, those that are referred to first. -/
def orderedTables (s : SourceServer) : Except SourceError (List Bytes) := do
  let tables ← s.tables.mapError .noTables
  let references ← s.references.mapError .noReferences
  return orderByReferences tables references

/-- The definitions of tables, in the given order. -/
def definitions (s : SourceServer) (tables : List Bytes) : Except SourceError (List TableSource) :=
  tables.mapM fun table =>
    match s.definition table with
    | .ok statement => .ok ⟨table, statement⟩
    | .error e => .error (.noDefinition table e)

end SourceServer

end SqlDialect
