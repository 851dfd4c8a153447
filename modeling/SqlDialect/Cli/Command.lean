import SqlDialect.Cli.Flag
import SqlDialect.Text.Case
import SqlDialect.Text.Distance

set_option autoImplicit false

/-! # The command line

A command line names a command, sets its options with flags and gives it at most one further word. The
command is the first word that is neither a flag nor the value of one. A word that names no command is
answered with the commands whose names come near it. -/

namespace SqlDialect

/-- The name of the program. -/
def programName : Bytes := ascii "pgshim"

/-! ## Commands -/

/-- What the program can do. -/
inductive Command where
  /-- Converts a script. -/
  | convert
  /-- Converts scripts and executes them in the target. -/
  | replay
  /-- Converts the table definitions of the source. -/
  | schema
  /-- Shows the journal. -/
  | journal
  | version
  /-- Completion in a shell. -/
  | completion
  | help
deriving Repr, DecidableEq

namespace Command

/-- The commands in their usual order. -/
def all : List Command :=
  [convert, replay, schema, journal, version, completion, help]

/-- The name of a command. -/
def name : Command → Bytes
  | convert => ascii "rewrite"
  | replay => ascii "replay"
  | schema => ascii "schema"
  | journal => ascii "journal"
  | version => ascii "version"
  | completion => ascii "completion"
  | help => ascii "help"

/-- The command of a name. -/
def ofName? (name : Bytes) : Option Command :=
  all.find? (·.name == name)

/-- Whether a name comes near a word: it starts with the word or differs in at most two bytes, letter
case aside. -/
def isNear (word name : Bytes) : Bool :=
  let word := Bytes.toLower word
  let name := Bytes.toLower name
  Bytes.distance word name ≤ 2 || name.startsWith word

/-- The names that come near a word. Help is never suggested. -/
def suggestions (word : Bytes) : List Bytes :=
  ((all.filter (· != help)).map Command.name).filter (isNear word)

end Command

/-! ## Options -/

/-- The options of a command line. -/
structure Options where
  /-- The path of the configuration; empty if there is none. -/
  config : Bytes := []
  logAsObjects : Bool := false
  debug : Bool := false
  dryRun : Bool := false
  /-- Whether definitions are executed instead of shown. -/
  apply : Bool := false
  /-- How many journal entries are shown; all of them if it is negative. -/
  limit : Int := 20
  help : Bool := false
  version : Bool := false
deriving Repr, DecidableEq

namespace Options

/-- The flags of every command. -/
def commonFlags : List (Flag Options) :=
  [{ name := ascii "config", effect := .text fun s o => { o with config := s } },
    { name := ascii "log-json", effect := .switch fun b o => { o with logAsObjects := b } },
    { name := ascii "debug", effect := .switch fun b o => { o with debug := b } }]

/-- The flag that asks for help. -/
def helpFlag : Flag Options :=
  { name := ascii "help", letter := some 104, effect := .switch fun b o => { o with help := b } }

/-- The flag that asks for the version, if no command is named. -/
def versionFlag : Flag Options :=
  { name := ascii "version", letter := some 118
    effect := .switch fun b o => { o with version := b } }

/-- The flags of a command alone. -/
def ownFlags : Option Command → List (Flag Options)
  | none => [versionFlag]
  | some .replay =>
    [{ name := ascii "dry-run", effect := .switch fun b o => { o with dryRun := b } }]
  | some .schema => [{ name := ascii "apply", effect := .switch fun b o => { o with apply := b } }]
  | some .journal => [{ name := ascii "limit", effect := .number fun n o => { o with limit := n } }]
  | some _ => []

/-- The flags that may stand with a command. -/
def flags (command : Option Command) : List (Flag Options) :=
  commonFlags ++ [helpFlag] ++ ownFlags command

end Options

/-! ## Finding the command -/

namespace CommandLine

/-- Whether a flag takes the next word as its value. As long as the command is not known, so does
every flag that is not a common switch. -/
def takesNext (word : Bytes) : Bool :=
  if word.contains 61 then false
  else
    match word with
    | 45 :: 45 :: name => !((Flag.find? Options.commonFlags name).any Flag.isSwitch)
    | [45, _] => true
    | _ => false

/-- The first word that is neither a flag nor the value of one. A flag that takes a value hides the
last word even if that is not its value. -/
def commandWord? : List Bytes → Option Bytes
  | [] => none
  | word :: words =>
    if word = ascii "--" then none
    else if takesNext word then
      match words with
      | [] => none
      | [_] => none
      | _ :: words => commandWord? words
    else if word.isEmpty || word.startsWith [45] then commandWord? words
    else some word

/-- The words without the one that names the command. -/
def eraseCommand (name : Bytes) : List Bytes → List Bytes
  | [] => []
  | word :: words =>
    if word = ascii "--" then word :: words
    else if takesNext word then
      match words with
      | [] => [word]
      | value :: words => word :: value :: eraseCommand name words
    else if word = name then words
    else word :: eraseCommand name words

end CommandLine

/-! ## Reading -/

/-- What can be wrong with a command line. -/
inductive UsageError where
  | unknownCommand (word : Bytes)
  | flag (e : FlagError)
  | tooManyWords (count : Nat)
  /-- A word behind a command that takes none. -/
  | unexpectedWord (command : Command) (word : Bytes)
deriving Repr, DecidableEq

namespace UsageError

/-- The lines that name the commands near a word. -/
def hint (word : Bytes) : Bytes :=
  let names := Command.suggestions word
  if names.isEmpty then []
  else ascii "\n\nDid you mean this?\n" ++ names.flatMap fun name => 9 :: name ++ [10]

/-- The wording of an error. -/
def message : UsageError → Bytes
  | unknownCommand word =>
    ascii "unknown command " ++ Bytes.quoted word ++ ascii " for " ++ Bytes.quoted programName ++
      hint word
  | flag e => e.message
  | tooManyWords count =>
    ascii "accepts at most 1 arg(s), received " ++ Bytes.decimal count
  | unexpectedWord command word =>
    ascii "unknown command " ++ Bytes.quoted word ++ ascii " for " ++
      Bytes.quoted (programName ++ [32] ++ command.name)

end UsageError

/-- What a command line asks for. -/
inductive Request where
  | showHelp
  | showVersion
  /-- A command with its options and the word that it is given. -/
  | perform (command : Command) (options : Options) (word : Option Bytes)
deriving Repr, DecidableEq

namespace CommandLine

/-- What a known command is asked for. -/
def requestOf (command : Option Command) (options : Options) (words : List Bytes) :
    Except UsageError Request :=
  if options.help then .ok .showHelp
  else if options.version then .ok .showVersion
  else
    match command, words with
    | none, _ => .ok .showHelp
    | some .help, _ => .ok .showHelp
    | some .completion, _ => .ok .showHelp
    | some .version, word :: _ => .error (.unexpectedWord .version word)
    | some command, [] => .ok (.perform command options none)
    | some command, [word] => .ok (.perform command options (some word))
    | some _, words => .error (.tooManyWords words.length)

/-- The command that is named, and the words without its name. -/
def findCommand (words : List Bytes) : Except UsageError (Option Command × List Bytes) :=
  match commandWord? words with
  | none => .ok (none, words)
  | some word =>
    match Command.ofName? word with
    | some command => .ok (some command, eraseCommand word words)
    | none => .error (.unknownCommand word)

/-- Reads the words behind the name of the program. -/
def parse (words : List Bytes) : Except UsageError Request :=
  match findCommand words with
  | .error e => .error e
  | .ok (command, words) =>
    match Flag.applyAll (Options.flags command) words {} with
    | .error e => .error (.flag e)
    | .ok (options, words) => requestOf command options words

end CommandLine

end SqlDialect
