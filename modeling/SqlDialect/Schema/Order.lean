import SqlDialect.Text.Bytes

set_option autoImplicit false

/-! # The order of tables

Tables are created after the tables that their foreign keys refer to. Tables are visited in the given
order, and each visit goes first to the tables referred to; a cycle is broken where it is entered. -/

namespace SqlDialect

/-- A foreign key: the table that has it and the table that it refers to. -/
structure Reference where
  table : Bytes
  target : Bytes
deriving Repr, DecidableEq

/-- The tables that a table refers to, in order. -/
def referencesOf (refs : List Reference) (table : Bytes) : List Bytes :=
  (refs.filter (·.table == table)).map Reference.target

/-- How far the visit of the tables has come. -/
structure TableOrder where
  /-- The tables whose visit has begun. -/
  entered : List Bytes := []
  /-- The tables whose visit is over, in order. -/
  finished : List Bytes := []
deriving Repr, DecidableEq

namespace TableOrder

/-- Marks the visit of a table as begun. -/
def enter (o : TableOrder) (table : Bytes) : TableOrder :=
  { o with entered := table :: o.entered }

/-- Marks the visit of a table as over. -/
def finish (o : TableOrder) (table : Bytes) : TableOrder :=
  { o with finished := o.finished ++ [table] }

/-- Visits a table unless its visit has begun: first the tables it refers to, then the table itself.
Visits are nested at most `depth` deep. -/
def visit (tables : List Bytes) (refs : List Reference) : Nat → TableOrder → Bytes → TableOrder
  | 0, o, _ => o
  | depth + 1, o, table =>
    if o.entered.contains table then o
    else
      let targets := (referencesOf refs table).filter tables.contains
      (targets.foldl (visit tables refs depth) (o.enter table)).finish table

end TableOrder

/-- The tables, each once, with those that are referred to first. Every table on the way of a visit is
a different one, so visits are never nested deeper than there are tables. -/
def orderByReferences (tables : List Bytes) (refs : List Reference) : List Bytes :=
  (tables.foldl (TableOrder.visit tables refs tables.length) {}).finished

end SqlDialect
