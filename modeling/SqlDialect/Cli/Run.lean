import SqlDialect.Cli.Environment
import SqlDialect.Config.File
import SqlDialect.Journal.Location

set_option autoImplicit false

/-! # Parts of runs

The steps that commands are made of: writing and logging, loading the configuration, opening the
journal and connecting to servers. What a run has done up to an error remains done. -/

namespace SqlDialect

/-- A run or a part of it. -/
abbrev Run := ExceptT RunError (StateM Outcome)

namespace Run

/-! ## What a run does -/

/-- Goes on with a value, or fails with an error in the given sense. -/
def get {ε α : Type} (asError : ε → RunError) : Except ε α → Run α
  | .ok a => pure a
  | .error e => throw (asError e)

/-- Fails if there is an error. -/
def check {ε : Type} (asError : ε → RunError) : Option ε → Run Unit
  | none => pure ()
  | some e => throw (asError e)

/-- Writes to the output. -/
def write (text : Bytes) : Run Unit :=
  modify fun o => { o with output := o.output ++ text }

/-- Adds entries to the log. -/
def log (entries : List LogEntry) : Run Unit :=
  modify fun o => { o with log := o.log ++ entries }

/-- Adds a message to the log. -/
def inform (message : Bytes) : Run Unit :=
  log [{ level := .info, message }]

/-- Keeps what the target was asked. -/
def observe (events : List TargetEvent) : Run Unit :=
  modify fun o => { o with events := o.events ++ events }

/-- Keeps a journal at its place. -/
def keepJournal (place : List Bytes) (journal : RowFile) : Run Unit :=
  modify fun o => { o with journals := (place, journal) :: o.journals.filter (·.1 != place) }

/-! ## Configuration and journal -/

/-- The configuration at a path; none if the path is empty. -/
def config (env : Environment) (path : Bytes) : Run (Option Config) :=
  if path.isEmpty then pure none
  else do
    let c ← get .config (Config.load env.files env.directory path)
    pure (some c)

/-- The configuration that a command needs. A word of its own goes before the flag. -/
def requiredConfig (env : Environment) (options : Options) (word : Option Bytes) : Run Config := do
  match ← config env (word.getD options.config) with
  | some c => pure c
  | none => throw .noConfig

/-- How many more bytes the names of files beside a journal have. -/
def journalSuffix : Nat := 8

/-- How many bytes the path of a journal may have. -/
def journalPathLimit : Nat := 510

/-- Whether a journal can be made at a place: in a directory, where there is nothing but perhaps an
empty file. -/
def canHoldJournal (files : FileTree) (place : List Bytes) : Bool :=
  !place.isEmpty && files.hasDirectory place.dropLast && !files.hasDirectory place &&
    ((files.files.lookup place).getD []).isEmpty &&
    (place.getLastD []).length + journalSuffix ≤ FileTree.nameLimit &&
    place.foldl (fun n name => n + name.length + 1) 0 ≤ journalPathLimit

/-- The location of the journal of a configuration, if it has one. -/
def journalLocation? (c : Config) : Option (Option JournalLocation) :=
  if c.journalPath.isEmpty then none else some (JournalLocation.parse? (c.resolve c.journalPath))

/-- The place where the journal of a configuration is kept, if it has one that is kept. -/
def journalPlace? (c : Config) : Option (List Bytes) := do
  let location ← (← journalLocation? c)
  let path ← location.path
  some (FileTree.place path)

/-- Opens the journal at a location, or makes one there. -/
def openJournalAt (env : Environment) (location : JournalLocation) : Run RowFile := do
  match location.path.map FileTree.place with
  | none => pure {}
  | some place =>
    match (← getThe Outcome).journals.lookup place with
    | some journal => pure { Database.reopen journal with isWritable := location.writes }
    | none =>
      let exists? := (env.files.files.lookup place).isSome
      if location.writes && (location.creates || exists?) && canHoldJournal env.files place then
        keepJournal place {}
        pure {}
      else throw (.journal .unusable)

/-- Opens the journal of a configuration, if it has one. -/
def openJournal (env : Environment) (config : Option Config) : Run (Option RowFile) :=
  match config.bind journalLocation? with
  | none => pure none
  | some none => throw (.journal .unusable)
  | some (some location) => do
    let journal ← openJournalAt env location
    pure (some journal)

/-- Starts the job of a command. -/
def startJob (env : Environment) (config : Option Config) (command : Command) : Run Job := do
  let journal ← openJournal env config
  pure (Job.start config journal command.name env.now)

/-- Keeps what a job has logged and noted. -/
def finishJob (config : Option Config) (job : Job) : Run Unit := do
  log job.log
  match config.bind journalPlace?, job.journal with
  | some place, some journal => keepJournal place journal
  | _, _ => pure ()

/-! ## Servers -/

/-- Asks the target something. -/
def ask (link : TargetLink) (questions : List TargetEvent) : Run Unit :=
  observe (link.trace questions)

/-- Connects to the target and prepares its schema. -/
def connectTarget (env : Environment) (c : Config) : Run TargetLink := do
  inform (ascii "connecting to PostgreSQL...")
  let read (path : Bytes) : Option Bytes := (env.files.read env.directory path).toOption
  let address ← get .targetAddress (TargetAddress.parse read c.targetDsn)
  match env.target address with
  | none => throw .targetUnreachable
  | some server =>
    let searchPath := if c.schema.isEmpty then address.searchPath else doubleQuoted c.schema
    let link : TargetLink := { server, searchPath, isBrief := address.isBrief }
    observe [.connect searchPath]
    if !c.schema.isEmpty then
      inform (ascii "preparing schema '" ++ c.schema ++ ascii "'...")
      let (questions, error) := server.prepareSchema c.schema c.onSchemaExists
      ask link questions
      check .schema error
    pure link

/-- Connects to the source: the server and the name of the database. The address for reading is
written, and read again by whoever connects. -/
def connectSource (env : Environment) (c : Config) : Run (SourceServer × Bytes) := do
  inform (ascii "connecting to MySQL...")
  let dsn ← get .sourceAddress (Dsn.parse c.sourceDsn)
  let reading ← get .sourceNotOpened (Dsn.parse (dsn.forReading c.charset).format)
  match (env.source reading).filter fun _ => reading.canGreet with
  | none => throw .sourceUnreachable
  | some server =>
    let database ← get .sourceAddress dsn.databaseName
    pure (server, database)

/-- Adds the keys of the target to the catalog of a job. -/
def seedKeys (link : TargetLink) (job : Job) : Run Job := do
  ask link [.askIndexes]
  let seeded := job.converter.catalog.seed link.server.indexes
  check .seed seeded.error
  inform (ascii "  loaded " ++ Bytes.decimal seeded.count ++ ascii " unique keys from target")
  pure { job with converter := { job.converter with catalog := seeded.catalog } }

end Run

end SqlDialect
