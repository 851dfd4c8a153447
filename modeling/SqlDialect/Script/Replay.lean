import SqlDialect.Job
import SqlDialect.Script.Split

set_option autoImplicit false

/-! # Replaying scripts

Scripts are converted file by file, through one session, and their statements executed. A statement
that fails ends the replay, or is counted and passed over. Without anything that executes them the
statements are only converted and noted. -/

namespace SqlDialect

/-- Executes a statement: the error, or none if the statement is accepted. -/
abbrev Executor := Bytes → Option Bytes

/-- How far a replay has come. -/
structure Replay (κ : Type := Memo) (δ : Type := RowFile) where
  job : Job κ δ
  files : Nat := 0
  statements : Nat := 0
  failed : Nat := 0
  /-- The statements that were executed, in order. -/
  calls : List Bytes := []

/-- What ends a replay. -/
inductive ReplayError where
  | unreadable (file : Bytes) (e : FileError)
  /-- A statement of a file, counted from 1, has failed. -/
  | failed (file : Bytes) (index : Nat) (error sql : Bytes)
deriving Repr, DecidableEq

namespace ReplayError

/-- The wording of an error. -/
def message : ReplayError → Bytes
  | unreadable file e => ascii "replay: read " ++ file ++ ascii ": " ++ e.message
  | failed file index error sql =>
    ascii "replay: " ++ file ++ ascii ": statement " ++ Bytes.decimal index ++ ascii ": " ++
      error ++ ascii "\nSQL: " ++ sql

end ReplayError

namespace Replay

/-- The entry that is logged for a statement that is passed over. -/
def failure (file : Bytes) (index : Nat) (error sql : Bytes) : LogEntry :=
  { level := .warn
    message := ascii "statement failed"
    fields := [(ascii "file", .text file), (ascii "statement", .number index),
      (ascii "sql", .text sql), (ascii "error", .text error)] }

variable {κ δ : Type} [Cache κ] [Database δ]

/-- Converts, executes and notes one statement: the replay afterwards, the converted statement, and
its error if it has failed. -/
def step (r : Replay κ δ) (exec : Option Executor) (sql : Bytes) : Replay κ δ × Bytes × Option Bytes :=
  let (job, out) := r.job.convert sql
  let error := exec.bind fun execute => execute out
  let calls := if exec.isSome then r.calls ++ [out] else r.calls
  let failed := if error.isSome then r.failed + 1 else r.failed
  ({ r with job := job.note sql out error, statements := r.statements + 1, failed, calls },
    out, error)

/-- Replays the statements of a file, the first of which has the given number. -/
def runStatements (exec : Option Executor) (onError : OnError) (file : Bytes) (index : Nat)
    (r : Replay κ δ) : List Bytes → Replay κ δ × Option ReplayError
  | [] => (r, none)
  | sql :: rest =>
    let (r, out, error) := r.step exec sql
    match error, onError with
    | none, _ => runStatements exec onError file (index + 1) r rest
    | some e, .stop => (r, some (.failed file index e out))
    | some e, .goOn =>
      let r := { r with job := r.job.report (failure file index e out) }
      runStatements exec onError file (index + 1) r rest

/-- Replays files, each given by its name and what reading it has yielded. -/
def runFiles (exec : Option Executor) (onError : OnError) (r : Replay κ δ) :
    List (Bytes × Except FileError Bytes) → Replay κ δ × Option ReplayError
  | [] => (r, none)
  | (file, .error e) :: _ => (r, some (.unreadable file e))
  | (file, .ok script) :: rest =>
    let statements := splitStatements script
    let message := ascii "    " ++ file ++ ascii ": " ++ Bytes.decimal statements.length ++
      ascii " statements"
    let r := { r with job := r.job.inform message, files := r.files + 1 }
    match runStatements exec onError file 1 r statements with
    | (r, some e) => (r, some e)
    | (r, none) => runFiles exec onError r rest

/-- Replays the files of a list. -/
def run (exec : Option Executor) (onError : OnError) (job : Job κ δ)
    (files : List (Bytes × Except FileError Bytes)) : Replay κ δ × Option ReplayError :=
  if files.isEmpty then ({ job }, none)
  else
    let message := ascii "  replaying " ++ Bytes.decimal files.length ++ ascii " files..."
    runFiles exec onError { job := job.inform message } files

end Replay

namespace Config

/-- Reads the files of a list, as seen from the configuration. -/
def readFiles (c : Config) (tree : FileTree) (files : List Bytes) :
    List (Bytes × Except FileError Bytes) :=
  files.map fun file => (file, tree.read c.directory (c.resolve file))

end Config

end SqlDialect
