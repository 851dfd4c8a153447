import SqlDialect.Cli.Run
import SqlDialect.Journal.Print
import SqlDialect.Schema.Report

set_option autoImplicit false

/-! # Performing commands

What each command does, and what a whole command line comes to. -/

namespace SqlDialect

namespace Run

/-! ## Converting a script -/

/-- The script to convert: a file, or the standard input if there is none or it is called `-`. A
directory can be opened, but not read. -/
def readScript (env : Environment) (word : Option Bytes) : Run (Except Bytes Bytes) :=
  match word.filter (· != ascii "-") with
  | none => pure env.input
  | some path =>
    match env.files.read env.directory path with
    | .ok script => pure (.ok script)
    | .error e => if e.fault = .isDirectory then pure (.error e.message) else throw (.input e)

/-- Converts a script. -/
def convert (env : Environment) (options : Options) (word : Option Bytes) : Run Unit := do
  let c ← config env options.config
  let job ← startJob env c .convert
  let script ← readScript env word
  let (job, out) ← get .stream (job.stream script none)
  finishJob c job
  write out

/-! ## Replaying scripts -/

/-- Yes or no. -/
def yesNo (b : Bool) : Bytes :=
  if b then ascii "true" else ascii "false"

/-- Connects a replay to the target, whose keys may go into the catalog of the job. -/
def replayTarget (env : Environment) (c : Config) (job : Job) : Run (TargetLink × Job) := do
  check .config c.missingTarget?
  let link ← connectTarget env c
  let job ← if c.seedKeys then seedKeys link job else pure job
  pure (link, job)

/-- Replays the scripts of the configuration, in the target if there is a link to it. -/
def runScripts (env : Environment) (c : Config) (link : Option TargetLink) (job : Job) :
    Run Replay := do
  let exec := link.map fun l => l.server.execute
  let (r, error) := Replay.run exec c.onError job (c.readFiles env.files c.files)
  if let some l := link then ask l (r.calls.map .statement)
  finishJob (some c) r.job
  check .replay error
  pure r

/-- Converts the scripts of the configuration and executes them. -/
def replay (env : Environment) (options : Options) (word : Option Bytes) : Run Unit := do
  let c ← requiredConfig env options word
  let dryRun := options.dryRun || c.dryRun
  if c.files.isEmpty then throw .noFiles
  inform (ascii "pgshim replay: " ++ Bytes.decimal c.files.length ++ ascii " files, on_error=" ++
    c.onError.name ++ ascii " dry_run=" ++ yesNo dryRun)
  let job ← startJob env (some c) .replay
  let (link, job) ←
    if dryRun then pure (none, job)
    else do
      let (link, job) ← replayTarget env c job
      pure (some link, job)
  let r ← runScripts env c link job
  inform (ascii "replay completed in " ++ env.elapsed ++ ascii ": " ++ Bytes.decimal r.statements ++
    ascii " statements, " ++ Bytes.decimal r.failed ++ ascii " failed")
  if r.failed > 0 then throw (.statementsFailed r.failed r.statements)

/-! ## Converting the definitions of the source -/

/-- Adds the compatibility report on some tables to the log. -/
def report (tables : List TableSource) : Run Unit := do
  let warnings := schemaWarnings (tables.filterMap fun t => TableDef.ofStatement? t.statement)
  if !warnings.isEmpty then
    inform (ascii "compatibility report: " ++ Bytes.decimal warnings.length ++
      ascii " item(s) may require manual handling")
    log (warnings.map fun w => { level := .warn, message := ascii "  " ++ w.message })

/-- The definitions of the source. -/
def readDefinitions (env : Environment) (c : Config) : Run (List TableSource) := do
  let (server, database) ← connectSource env c
  inform (ascii "reading MySQL schema '" ++ database ++ ascii "'...")
  let tables ← get .source server.orderedTables
  inform (ascii "found " ++ Bytes.decimal tables.length ++
    ascii " tables, fetching definitions with " ++ Bytes.decimal (c.workers.getD env.workers) ++
    ascii " workers")
  get .source (server.definitions tables)

/-- The text that shows converted definitions. -/
def definitionsText (tables : List TableSource) (outs : List Bytes) : Bytes :=
  (tables.zip outs).flatMap fun (t, out) =>
    ascii "-- " ++ t.name ++ [10] ++ terminate out ++ ascii "\n\n"

/-- Creates tables in the target, up to the first error: the job afterwards, what was executed, and
the error. -/
def createTables (server : TargetServer) (job : Job) :
    List TableSource → Job × List Bytes × Option RunError
  | [] => (job, [], none)
  | t :: rest =>
    let (job, out) := job.convert t.statement
    let job := job.inform (ascii "  creating " ++ t.name)
    let error := server.execute out
    let job := job.note t.statement out error
    match error with
    | some e => (job, [out], some (.tableNotCreated t.name e out))
    | none =>
      let (job, outs, error) := createTables server job rest
      (job, out :: outs, error)

/-- Converts the definitions of the source, and shows them or creates the tables in the target. -/
def schema (env : Environment) (options : Options) (word : Option Bytes) : Run Unit := do
  let c ← requiredConfig env options word
  check .config c.missingSource?
  if options.apply then check .config c.missingTarget?
  let tables ← readDefinitions env c
  report tables
  let job ← startJob env (some c) .schema
  if options.apply then
    let link ← connectTarget env c
    let (job, outs, error) := createTables link.server job tables
    ask link (outs.map .statement)
    finishJob (some c) job
    check id error
    inform (ascii "schema applied in " ++ env.elapsed)
  else
    let (job, outs) := job.convertAll (tables.map TableSource.statement)
    finishJob (some c) job
    write (definitionsText tables outs)

/-! ## Showing the journal -/

/-- Shows the newest entries of the journal. -/
def journal (env : Environment) (options : Options) (word : Option Bytes) : Run Unit := do
  let c ← requiredConfig env options word
  match ← openJournal env (some c) with
  | none => throw .noJournal
  | some journal =>
    let entries ← get .journal (Journal.recent journal options.limit)
    write (renderEntries entries)

/-! ## All commands -/

/-- Performs a command. -/
def perform (env : Environment) (command : Command) (options : Options) (word : Option Bytes) :
    Run Unit :=
  match command with
  | .convert => convert env options word
  | .replay => replay env options word
  | .schema => schema env options word
  | .journal => journal env options word
  | .version => write (env.build.format ++ [10])
  | .completion => pure ()
  | .help => pure ()

end Run

/-- The text that explains the command line. -/
def usageText : Bytes :=
  ascii "MySQL to PostgreSQL statement rewriter\n\nUsage:\n" ++
    ([("rewrite [file.sql]", "print the PostgreSQL form of a script"),
      ("replay [config.toml]", "execute the configured scripts in PostgreSQL"),
      ("schema [config.toml]", "print or apply the table definitions of MySQL"),
      ("journal [config.toml]", "show the newest journal entries"),
      ("version", "print the version")].flatMap fun (form, purpose) =>
        ascii "  " ++ programName ++ [32] ++ Bytes.padRight 24 (ascii form) ++ ascii purpose ++ [10])

namespace Run

/-- Does what a command line asks for. -/
def answer (env : Environment) : Request → Run Unit
  | .showHelp => write usageText
  | .showVersion => write (programName ++ ascii " version " ++ env.build.format ++ [10])
  | .perform command options word => perform env command options word

/-- The outcome as the options ask for it: details only when they are wanted. -/
def shown (o : Outcome) : Request → Outcome
  | .perform _ options _ =>
    { o with
        log := o.log.filter fun e => options.debug || e.level != .debug
        logStyle := if options.logAsObjects then .objects else .lines }
  | _ => o

end Run

namespace Environment

/-- Runs a command line: what it has done, and the error if there is one. -/
def run (env : Environment) (words : List Bytes) : Outcome × Option RunError :=
  let start : Outcome := { journals := env.journals }
  match CommandLine.parse words with
  | .error e => (start, some (.usage e))
  | .ok request =>
    match (Run.answer env request).run.run start with
    | (.ok _, o) => (Run.shown o request, none)
    | (.error e, o) => (Run.shown o request, some e)

end Environment

end SqlDialect
