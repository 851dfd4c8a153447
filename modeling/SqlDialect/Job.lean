import SqlDialect.Config.Basic
import SqlDialect.Journal.RowFile

set_option autoImplicit false

/-! # Jobs

A job converts statements one after the other in one session, on behalf of a command. It notes each
of them in the journal, if there is one, and reports on the side. A journal that cannot be written to
is reported and does not stop the job. -/

namespace SqlDialect

/-- What a command carries from statement to statement; `κ` is the store of earlier conversions and
`δ` the database of the journal. -/
structure Job (κ : Type := Memo) (δ : Type := RowFile) where
  converter : Converter κ := {}
  session : Session := {}
  journal : Option δ := none
  /-- The command that the job belongs to. -/
  command : Bytes
  /-- When the statements are noted. -/
  now : Instant
  log : List LogEntry := []

/-- The name under which the converter reports. -/
def converterLogger : Bytes := ascii "rewrite"

namespace Job

/-- A job with the settings of a configuration, or the plain settings. -/
def start (config : Option Config) (journal : Option RowFile) (command : Bytes) (now : Instant) :
    Job :=
  { converter := (config.map Config.converter).getD {}, journal, command, now }

variable {κ δ : Type}

/-- Adds an entry to the log. -/
def report (j : Job κ δ) (e : LogEntry) : Job κ δ :=
  { j with log := j.log ++ [e] }

/-- Adds a message without fields to the log. -/
def inform (j : Job κ δ) (message : Bytes) : Job κ δ :=
  j.report { level := .info, message }

/-- Converts a statement: the job afterwards and the converted statement. -/
def convert [Cache κ] (j : Job κ δ) (sql : Bytes) : Job κ δ × Bytes :=
  let r := j.converter.convert (some j.session) sql
  let entries := r.log.map fun e => { e with logger := converterLogger }
  ({ j with
      converter := r.converter
      session := r.session.getD j.session
      log := j.log ++ entries },
    r.output)

/-- The journal entry of a statement; `error` is the error that the target has reported. -/
def entry (j : Job κ δ) (input output : Bytes) (error : Option Bytes) : JournalEntry :=
  { command := j.command
    kind := (Kind.ofStatement input).name
    input
    output
    error := error.getD [] }

/-- Notes a statement in the journal. -/
def note [Database δ] (j : Job κ δ) (input output : Bytes) (error : Option Bytes) : Job κ δ :=
  match j.journal with
  | none => j
  | some db =>
    let (db, failure) := Journal.record db j.now (j.entry input output error)
    let j := { j with journal := some db }
    match failure with
    | none => j
    | some e =>
      j.report
        { level := .warn
          message := ascii "journal write failed"
          fields := [(ascii "error", .text e.message)] }

end Job

end SqlDialect
