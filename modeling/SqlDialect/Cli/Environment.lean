import SqlDialect.Cli.Command
import SqlDialect.Config.Basic
import SqlDialect.Journal.RowFile
import SqlDialect.Log.Line
import SqlDialect.Script.Replay
import SqlDialect.Script.Stream
import SqlDialect.Source.Dsn
import SqlDialect.Source.Server
import SqlDialect.Target.Address
import SqlDialect.Target.Seed
import SqlDialect.Version

set_option autoImplicit false

/-! # What a run sees and does

A run of a command sees files, journals and servers. It leaves output, log entries, questions to the
target and journals behind, and may fail. -/

namespace SqlDialect

/-- What a run can see. -/
structure Environment where
  /-- The directory that paths on the command line are relative to. -/
  directory : Bytes
  files : FileTree := {}
  /-- The journals that exist, by their places. -/
  journals : List (List Bytes × RowFile) := []
  /-- What can be read from the standard input. -/
  input : Except Bytes Bytes := .ok []
  /-- The source at an address, if it can be reached. -/
  source : Dsn → Option SourceServer := fun _ => none
  /-- The target at an address, if it can be reached. -/
  target : TargetAddress → Option TargetServer := fun _ => none
  now : Instant
  /-- How many definitions are fetched at a time unless the configuration says so. -/
  workers : Nat := 1
  /-- How long the run takes, as it is shown. -/
  elapsed : Bytes := []
  build : BuildInfo := ⟨BuildInfo.devVersion, BuildInfo.unknownCommit⟩

/-- What a run has done. -/
structure Outcome where
  output : Bytes := []
  log : List LogEntry := []
  /-- How the log is to be shown. -/
  logStyle : LogStyle := .lines
  /-- What the target was asked. -/
  events : List TargetEvent := []
  journals : List (List Bytes × RowFile) := []

/-- Why a run has failed. -/
inductive RunError where
  | usage (e : UsageError)
  | noConfig
  | config (e : ConfigError)
  | journal (e : JournalError)
  | noJournal
  | input (e : FileError)
  | stream (e : StreamError)
  | noFiles
  | replay (e : ReplayError)
  | statementsFailed (failed statements : Nat)
  | sourceAddress (e : DsnError)
  /-- The address for reading the source is malformed. -/
  | sourceNotOpened (e : DsnError)
  | sourceUnreachable
  | source (e : SourceError)
  | targetAddress (e : TargetAddressError)
  | targetUnreachable
  | schema (e : SchemaError)
  | seed (e : SeedError)
  | tableNotCreated (table error sql : Bytes)
deriving Repr, DecidableEq

namespace RunError

/-- The wording of an error. -/
def message : RunError → Bytes
  | usage e => e.message
  | noConfig =>
    ascii "config file required: pgshim <command> <config.toml> or --config <config.toml>"
  | config e => e.message
  | journal e => e.message
  | noJournal => ascii "journal.path is not set"
  | input e => ascii "open input: " ++ e.message
  | stream e => e.message
  | noFiles => ascii "replay.files is empty"
  | replay e => e.message
  | statementsFailed failed statements =>
    ascii "replay: " ++ Bytes.decimal failed ++ ascii " of " ++ Bytes.decimal statements ++
      ascii " statements failed"
  | sourceAddress e => e.message
  | sourceNotOpened e => ascii "open mysql: " ++ e.detail
  | sourceUnreachable => ascii "ping mysql"
  | source e => e.message
  | targetAddress e => e.message
  | targetUnreachable => ascii "ping postgres"
  | schema e => e.message
  | seed e => ascii "seed key catalog: " ++ e.message
  | tableNotCreated table error sql =>
    ascii "create table " ++ table ++ ascii ": " ++ error ++ ascii "\nSQL: " ++ sql

end RunError

end SqlDialect
