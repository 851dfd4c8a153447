import SqlDialect.Config.Basic
import SqlDialect.Toml.Document

set_option autoImplicit false

/-! # Configuration files

A configuration file is read in three steps: its text becomes a document, the document fills in the
settings, and the settings are checked. Names of settings may be written in any letter case. A key
that is no setting is an error, found after all values have been read but before they are checked. -/

namespace SqlDialect

/-- The settings as a file gives them. -/
structure Settings where
  sourceDsn : Bytes := []
  charset : Bytes := []
  targetDsn : Bytes := []
  schema : Bytes := []
  onSchemaExists : Bytes := ascii "reuse"
  workers : Int := 0
  files : List Bytes := []
  onError : Bytes := ascii "stop"
  dryRun : Bool := false
  seedKeys : Bool := true
  memoSize : Int := 1024
  options : TypeOptions := {}
  journalPath : Bytes := []
  keys : List KeySetting := []

/-! ## Values of settings -/

namespace TomlValue

/-- The value as a text. -/
def text? : TomlValue → Option Bytes
  | .text s => some s
  | _ => none

/-- The value as an integer. -/
def integer? : TomlValue → Option Int
  | .integer n => some n
  | _ => none

/-- The value as yes or no. -/
def bool? : TomlValue → Option Bool
  | .bool b => some b
  | _ => none

/-- The value as a list of texts. -/
def texts? : TomlValue → Option (List Bytes)
  | .list items => items.mapM text?
  | _ => none

/-- The value as a table. -/
def table? : TomlValue → Option TomlTable
  | .table entries => some entries
  | _ => none

/-- The value as a list of tables. -/
def tables? : TomlValue → Option (List TomlTable)
  | .tables items => some items
  | .list items => items.mapM table?
  | _ => none

end TomlValue

/-! ## Names of settings -/

/-- A named part of something that is read from a table. -/
structure Setting (σ : Type) where
  name : Bytes
  /-- What a value of the setting does; none if it has the wrong type. -/
  read? : TomlValue → σ → Option σ
  /-- The names inside the setting, if it is a table or a list of tables. -/
  inner : List Bytes := []

namespace Setting

/-- The name among some that a key means: the same, or else the first that differs only in case. -/
def name? (names : List Bytes) (key : Bytes) : Option Bytes :=
  names.find? (· == key) <|> names.find? fun name => Bytes.equalFold name key

/-- The setting that a key means. -/
def find? {σ : Type} (settings : List (Setting σ)) (key : Bytes) : Option (Setting σ) := do
  let name ← name? (settings.map Setting.name) key
  List.find? (fun s => s.name == name) settings

/-- Reads all entries of a table that are settings. -/
def readAll? {σ : Type} (settings : List (Setting σ)) (table : TomlTable) (x : σ) : Option σ :=
  table.foldlM
    (fun x (key, value) =>
      match find? settings key with
      | some s => s.read? value x
      | none => some x)
    x

/-- A setting of one value. -/
def value {σ α : Type} (name : String) (get? : TomlValue → Option α) (set : σ → α → σ) :
    Setting σ :=
  { name := ascii name, read? := fun v x => (get? v).map (set x) }

/-- A table of settings. -/
def group {σ : Type} (name : String) (settings : List (Setting σ)) : Setting σ :=
  { name := ascii name
    read? := fun v x => v.table?.bind fun table => readAll? settings table x
    inner := settings.map Setting.name }

end Setting

open Setting in
/-- The settings of a key. -/
def keySettings : List (Setting KeySetting) :=
  [value "table" TomlValue.text? fun k s => { k with table := s },
    value "name" TomlValue.text? fun k s => { k with key := { k.key with name := s } },
    value "columns" TomlValue.texts? fun k s => { k with key := { k.key with columns := s } },
    value "primary" TomlValue.bool? fun k b => { k with key := { k.key with primary := b } }]

open Setting in
/-- All settings. -/
def allSettings : List (Setting Settings) :=
  [group "source"
      [value "dsn" TomlValue.text? fun c s => { c with sourceDsn := s },
        value "charset" TomlValue.text? fun c s => { c with charset := s }],
    group "target"
      [value "dsn" TomlValue.text? fun c s => { c with targetDsn := s },
        value "schema" TomlValue.text? fun c s => { c with schema := s },
        value "on_schema_exists" TomlValue.text? fun c s => { c with onSchemaExists := s }],
    value "workers" TomlValue.integer? fun c n => { c with workers := n },
    group "replay"
      [value "files" TomlValue.texts? fun c s => { c with files := s },
        value "on_error" TomlValue.text? fun c s => { c with onError := s },
        value "dry_run" TomlValue.bool? fun c b => { c with dryRun := b },
        value "seed_keys" TomlValue.bool? fun c b => { c with seedKeys := b }],
    group "rewrite"
      [value "memo_size" TomlValue.integer? fun c n => { c with memoSize := n },
        value "enum_check" TomlValue.bool? fun c b =>
          { c with options := { c.options with enumCheck := b } },
        value "json_as_jsonb" TomlValue.bool? fun c b =>
          { c with options := { c.options with jsonAsJsonb := b } },
        value "tinyint1_as_boolean" TomlValue.bool? fun c b =>
          { c with options := { c.options with tinyInt1AsBoolean := b } }],
    group "journal" [value "path" TomlValue.text? fun c s => { c with journalPath := s }],
    { name := ascii "keys"
      read? := fun v c => do
        let tables ← v.tables?
        let keys ← tables.mapM fun table => readAll? keySettings table {}
        some { c with keys }
      inner := keySettings.map Setting.name }]

/-- Whether a key of a document is a setting. -/
def isSettingKey : TomlKey → Bool
  | [name] => (Setting.find? allSettings name).isSome
  | [name, inner] =>
    match Setting.find? allSettings name with
    | some s => (Setting.name? s.inner inner).isSome
    | none => false
  | _ => false

/-! ## Checks -/

namespace Settings

/-- The error of the first key that is not complete. -/
def keyError? (keys : List KeySetting) : Option ConfigError :=
  (keys.zipIdx.filterMap fun (k, i) =>
    if (Bytes.trimSpace k.table).isEmpty then some (.keyWithoutTable i)
    else if k.key.columns.isEmpty then some (.keyWithoutColumns i)
    else none).head?

/-- A text, or else its usual value. -/
def orElse (s usual : Bytes) : Bytes :=
  if s.isEmpty then usual else s

/-- Checks settings and fills in their usual values. -/
def check (s : Settings) (directory : Bytes) : Except ConfigError Config :=
  match SchemaPolicy.ofName? (orElse s.onSchemaExists (ascii "reuse")) with
  | none => .error .badSchemaPolicy
  | some onSchemaExists =>
    match OnError.ofName? (orElse s.onError (ascii "stop")) with
    | none => .error .badOnError
    | some onError =>
      if s.memoSize < 0 then .error .negativeMemo
      else
        match keyError? s.keys with
        | some e => .error e
        | none => .ok
          { sourceDsn := s.sourceDsn
            charset := orElse s.charset (ascii "utf8mb4")
            targetDsn := s.targetDsn
            schema := Bytes.trimSpace s.schema
            onSchemaExists
            workers := if s.workers ≤ 0 then none else some s.workers.toNat
            files := s.files
            onError
            dryRun := s.dryRun
            seedKeys := s.seedKeys
            memoSize := s.memoSize.toNat
            options := s.options
            journalPath := s.journalPath
            keys := s.keys
            directory }

end Settings

namespace Config

/-- The configuration of a file's text; `directory` is where the file is. -/
def parse (directory file : Bytes) : Except ConfigError Config :=
  let read := do
    let document ← TomlDocument.parse? file
    let settings ← Setting.readAll? allSettings document.root {}
    some (document, settings)
  match read with
  | none => .error .malformed
  | some (document, settings) =>
    let unknown := document.keys.filter fun key => !isSettingKey key
    if unknown.isEmpty then settings.check directory
    else .error (.unknownKeys (unknown.map TomlKey.text))

/-- Loads the configuration at a path, as seen from a directory. -/
def load (files : FileTree) (directory path : Bytes) : Except ConfigError Config :=
  match files.read directory path with
  | .error e => .error (.unreadable e)
  | .ok text => parse (Path.parent (Path.clean (Path.resolve directory path))) text

end Config

end SqlDialect
