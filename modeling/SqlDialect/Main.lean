import SqlDialect.Cli.Perform
import SqlDialect.Journal.Store
import Std.Time.DateTime.Timestamp

set_option autoImplicit false

/-! # The program

Reads the files that a command line needs, runs it, and writes what it leaves behind. Servers are not
reached from here: commands that need one fail when they connect. -/

namespace SqlDialect

namespace Program

/-- A text as bytes. -/
def bytes (s : String) : Bytes :=
  s.toUTF8.toList

/-- A path as text, if it is one. -/
def text? (s : Bytes) : Option String :=
  String.fromUTF8? ⟨s.toArray⟩

/-- Adds what is at a path to the files. -/
def look (files : FileTree) (path : Bytes) : IO FileTree := do
  match text? path with
  | none => return files
  | some name =>
    try
      let content ← IO.FS.readBinFile name
      return files.insert path content.toList
    catch e =>
      match e with
      | .inappropriateType .. =>
        return { files with directories := FileTree.place path :: files.directories }
      | _ => return files

/-- The paths of the configuration and the script of a command line. -/
def firstPaths (directory : Bytes) (words : List Bytes) : List Bytes :=
  match CommandLine.parse words with
  | .ok (.perform _ options word) =>
    ([options.config] ++ word.toList).map (Path.resolve directory)
  | _ => []

/-- The configuration that a command line names, if it can be loaded. -/
def config? (env : Environment) (words : List Bytes) : Option Config :=
  match CommandLine.parse words with
  | .ok (.perform command options word) =>
    let path := if command = .convert then options.config else word.getD options.config
    (Config.load env.files env.directory path).toOption
  | _ => none

/-- Adds the files and the journal of a configuration. -/
def complete (env : Environment) (c : Config) : IO Environment := do
  let files ← (c.files.map c.resolve).foldlM look env.files
  let env := { env with files }
  match Run.journalPlace? c with
  | none => return env
  | some place =>
    let path := place.flatMap fun name => Path.slash :: name
    let files ← look files (Path.parent path)
    let withJournal ← look files path
    match (withJournal.files.lookup place).bind RowFile.decode? with
    | some journal => return { env with files, journals := [(place, journal)] }
    | none => return { env with files := withJournal }

/-- Writes a journal to its place. -/
def save (place : List Bytes) (journal : RowFile) : IO Unit :=
  match text? (place.flatMap fun name => Path.slash :: name) with
  | some name => IO.FS.writeBinFile name ⟨journal.encode.toArray⟩
  | none => pure ()

/-- Writes bytes to a stream. -/
def put (stream : IO.FS.Stream) (s : Bytes) : IO Unit :=
  stream.write ⟨s.toArray⟩

/-- The present. -/
def present : IO Instant := do
  let t ← Std.Time.Timestamp.now
  return .ofUnix 0 t.toNanosecondsSinceUnixEpoch.toInt

/-- Reads the standard input if the command line needs it. -/
def readInput (words : List Bytes) : IO Bytes := do
  match CommandLine.parse words with
  | .ok (.perform .convert _ word) =>
    if word.isNone || word == some (ascii "-") then
      return (← (← IO.getStdin).readBinToEnd).toList
    else return []
  | _ => return []

/-- Runs a command line: the exit code. -/
def run (words : List Bytes) : IO UInt32 := do
  let directory := bytes (← IO.currentDir).toString
  let start : FileTree := { directories := [FileTree.place directory] }
  let env : Environment :=
    { directory
      files := ← (firstPaths directory words).foldlM look start
      input := .ok (← readInput words)
      now := ← present
      elapsed := ascii "0s" }
  let env ← match config? env words with
    | some c => complete env c
    | none => pure env
  let (o, error) := env.run words
  o.journals.forM fun (place, journal) => save place journal
  let stderr ← IO.getStderr
  let clock := Instant.timeText env.now.timeOfDay ++ [9]
  for e in o.log do
    let line := e.text o.logStyle env.now.timestamp env.elapsed
    put stderr ((if o.logStyle = .lines then clock else []) ++ line ++ [10])
  put (← IO.getStdout) o.output
  match error with
  | some e =>
    put stderr (e.message ++ [10])
    return 1
  | none => return 0

end Program

end SqlDialect

/-- Runs the command line. -/
def main (args : List String) : IO UInt32 :=
  SqlDialect.Program.run (args.map SqlDialect.Program.bytes)
