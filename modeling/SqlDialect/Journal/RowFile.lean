import SqlDialect.Journal.Database

set_option autoImplicit false

/-! # Rows in a file

The database that jobs use unless another one is named: the rows in the order in which they were
added, which are also numbered in that order. The file may not be writable, or be locked by somebody
else when a row is to be added. -/

namespace SqlDialect

/-- Rows in the order in which they were added, and whether the file can be used and written. -/
structure RowFile where
  rows : List JournalRow := []
  isOpen : Bool := true
  isWritable : Bool := true
  /-- Whether somebody else has locked the file, for each of the next rows. -/
  locked : List Bool := []
deriving Repr, DecidableEq

namespace RowFile

/-- Adds a row to the file: the error, if the row is refused. -/
def insert (f : RowFile) (row : JournalRow) : Option Bytes × RowFile :=
  if !f.isOpen then (some (ascii "sql: database is closed"), f)
  else if !f.isWritable then (some (ascii "attempt to write a readonly database (8)"), f)
  else if f.locked.headD false then
    (some (ascii "database is locked (5) (SQLITE_BUSY)"), { f with locked := f.locked.tail })
  else (none, { f with rows := f.rows ++ [row], locked := f.locked.tail })

/-- The rows that were added last, the last first. -/
def select (f : RowFile) (limit : Int) : Except Bytes (List JournalRow) :=
  if f.isOpen then
    .ok (if limit < 0 then f.rows.reverse else f.rows.reverse.take limit.toNat)
  else .error (ascii "sql: database is closed")

@[default_instance]
instance : Database RowFile where
  rows f := f.rows.mapIdx fun i row => (i + 1, row)
  isOpen f := f.isOpen
  insert := insert
  select := select
  close f := { f with isOpen := false }
  reopen f := { f with isOpen := true }

end RowFile

end SqlDialect
