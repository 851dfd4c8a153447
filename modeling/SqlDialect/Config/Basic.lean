import SqlDialect.Conversion.Converter
import SqlDialect.Target.Schema
import SqlDialect.Text.FileTree

set_option autoImplicit false

/-! # Configuration

The settings of a run, checked and with their usual values filled in. -/

namespace SqlDialect

/-- What to do when a statement fails. -/
inductive OnError where
  | stop
  | goOn
deriving Repr, DecidableEq

namespace OnError

/-- The reaction of a name. -/
def ofName? (name : Bytes) : Option OnError :=
  if name = ascii "stop" then some stop
  else if name = ascii "continue" then some goOn
  else none

/-- The name of a reaction. -/
def name : OnError → Bytes
  | stop => ascii "stop"
  | goOn => ascii "continue"

end OnError

/-- A key of a table that no statement tells about. -/
structure KeySetting where
  table : Bytes := []
  key : TableKey := ⟨[], [], false⟩
deriving Repr, DecidableEq

/-- The settings of a run. -/
structure Config where
  /-- The address of the source; empty if there is none. -/
  sourceDsn : Bytes := []
  charset : Bytes := ascii "utf8mb4"
  /-- The address of the target; empty if there is none. -/
  targetDsn : Bytes := []
  /-- The schema in the target; empty for the usual one. -/
  schema : Bytes := []
  onSchemaExists : SchemaPolicy := .reuse
  /-- How many definitions are fetched at a time, if it was set. -/
  workers : Option Nat := none
  files : List Bytes := []
  onError : OnError := .stop
  dryRun : Bool := false
  /-- Whether the keys of the target go into the catalog. -/
  seedKeys : Bool := true
  memoSize : Nat := 1024
  options : TypeOptions := {}
  /-- The path of the journal; empty if there is none. -/
  journalPath : Bytes := []
  keys : List KeySetting := []
  /-- The directory that paths are relative to. -/
  directory : Bytes := []

/-- What can be wrong with a configuration. -/
inductive ConfigError where
  | unreadable (e : FileError)
  | malformed
  | unknownKeys (keys : List Bytes)
  | badSchemaPolicy
  | badOnError
  | negativeMemo
  | keyWithoutTable (index : Nat)
  | keyWithoutColumns (index : Nat)
  | noSource
  | noTarget
deriving Repr, DecidableEq

namespace ConfigError

/-- The start of a message about one of the keys. -/
def aboutKey (index : Nat) : Bytes :=
  ascii "keys[" ++ Bytes.decimal index ++ ascii "]: "

/-- The wording of an error. -/
def message : ConfigError → Bytes
  | unreadable e => ascii "read config: " ++ e.message
  | malformed => ascii "parse config"
  | unknownKeys keys => ascii "unknown config keys: " ++ Bytes.join (ascii ", ") keys
  | badSchemaPolicy => ascii "target.on_schema_exists must be one of: reuse, error, recreate"
  | badOnError => ascii "replay.on_error must be one of: stop, continue"
  | negativeMemo => ascii "rewrite.memo_size must not be negative"
  | keyWithoutTable index => aboutKey index ++ ascii "table is required"
  | keyWithoutColumns index => aboutKey index ++ ascii "columns are required"
  | noSource => ascii "source.dsn is required"
  | noTarget => ascii "target.dsn is required"

end ConfigError

namespace Config

/-- A path as seen from the configuration. -/
def resolve (c : Config) (path : Bytes) : Bytes :=
  Path.resolve c.directory path

/-- Adds the keys of the configuration to a catalog. -/
def seedCatalog (c : Config) (catalog : KeyCatalog) : KeyCatalog :=
  c.keys.foldl (fun catalog k => catalog.register k.table k.key) catalog

/-- The converter that the settings ask for. -/
def converter (c : Config) : Converter :=
  Converter.withMemo { options := c.options, catalog := c.seedCatalog {} } c.memoSize

/-- The error of a configuration without a source. -/
def missingSource? (c : Config) : Option ConfigError :=
  if c.sourceDsn.isEmpty then some .noSource else none

/-- The error of a configuration without a target. -/
def missingTarget? (c : Config) : Option ConfigError :=
  if c.targetDsn.isEmpty then some .noTarget else none

end Config

end SqlDialect
