import SqlDialect.Text.Quoted
import SqlDialect.Time.Instant

set_option autoImplicit false

/-! # Entries of the journal

A journal keeps one row per converted statement. A row keeps its time as text, which is read back
together with the row. -/

namespace SqlDialect

/-- What is noted about a converted statement. -/
structure JournalEntry where
  /-- The command that converted it. -/
  command : Bytes
  /-- The kind of the statement. -/
  kind : Bytes
  input : Bytes
  output : Bytes
  /-- Why the statement failed; empty if it did not. -/
  error : Bytes := []
  createdAt : Instant := .unset
deriving Repr, DecidableEq

/-- A row of the journal: an entry whose time has become text. -/
structure JournalRow where
  command : Bytes
  kind : Bytes
  input : Bytes
  output : Bytes
  error : Bytes
  createdAt : Bytes
deriving Repr, DecidableEq

/-- What can go wrong with a journal. -/
inductive JournalError where
  /-- The database refuses a row. -/
  | insert (error : Bytes)
  /-- The database refuses to be read. -/
  | query (error : Bytes)
  /-- The time of a row cannot be read. -/
  | badTimestamp (text : Bytes)
  /-- There is no journal at the given place and none can be made there. -/
  | unusable
deriving Repr, DecidableEq

namespace JournalError

/-- The wording of an error. -/
def message : JournalError → Bytes
  | insert error => ascii "journal insert: " ++ error
  | query error => ascii "journal query: " ++ error
  | badTimestamp text => ascii "journal timestamp " ++ Bytes.quoted text
  | unusable => ascii "create journal table"

end JournalError

namespace JournalRow

/-- The row of an entry. An entry without a time gets the present. -/
def ofEntry (now : Instant) (e : JournalEntry) : JournalRow :=
  { command := e.command
    kind := e.kind
    input := e.input
    output := e.output
    error := e.error
    createdAt := (if e.createdAt = .unset then now else e.createdAt).timestamp }

/-- The entry of a row. -/
def toEntry (r : JournalRow) : Except JournalError JournalEntry :=
  match Instant.ofTimestamp? r.createdAt with
  | some createdAt =>
    .ok { command := r.command, kind := r.kind, input := r.input, output := r.output,
          error := r.error, createdAt }
  | none => .error (.badTimestamp r.createdAt)

end JournalRow

end SqlDialect
