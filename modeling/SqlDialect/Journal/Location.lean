import SqlDialect.Text.Case
import SqlDialect.Text.Path
import SqlDialect.Text.Percent

set_option autoImplicit false

/-! # Where journals are kept

The path of a journal is read like a URL without its scheme: bytes may be in percent coding, a question
mark starts options, and a number sign starts what does not count. The options say whether the journal
is kept in a file or only in memory, whether the file may be made, and whether it may be written. -/

namespace SqlDialect

/-- Where a journal is kept. -/
structure JournalLocation where
  /-- The path of the file; none for a journal in memory. -/
  path : Option Bytes
  /-- Whether the file may be made. -/
  creates : Bool := true
  /-- Whether the journal may be written. -/
  writes : Bool := true
deriving Repr, DecidableEq

namespace JournalLocation

/-! ## Texts in percent coding -/

/-- The byte of a percent sign and two digits, if a text starts with them. -/
def code? : Bytes → Option Nat
  | 37 :: high :: low :: _ => do
    let h ← Bytes.hexValue? high
    let l ← Bytes.hexValue? low
    some (h * 16 + l)
  | _ => none

/-- Reads coded bytes behind the first `skip` ones. A percent sign without two digits stands for itself,
and a coded zero ends the text. -/
def decodeFrom : Nat → Bytes → Bytes
  | _, [] => []
  | skip + 1, _ :: s => decodeFrom skip s
  | 0, b :: s =>
    match code? (b :: s) with
    | none => b :: decodeFrom 0 s
    | some code => if code = 0 then [] else code.toUInt8 :: decodeFrom 2 s

/-- Reads coded bytes. -/
def decode (s : Bytes) : Bytes :=
  decodeFrom 0 s

/-- Whether options can be told apart: none has a semicolon, and every percent sign has its two
digits. -/
def areOptions (query : Bytes) : Bool :=
  (Bytes.splitOnByte 38 query).all fun option =>
    !option.contains 59 && (Bytes.unescapeQuery? option).isSome

/-- The names and the values of options. -/
def options (query : Bytes) : List (Bytes × Bytes) :=
  ((Bytes.splitOnByte 38 query).map fun option =>
    let (name, value) := (Bytes.cut? [61] option).getD (option, [])
    (decode name, decode value)).filter fun (name, _) => !name.isEmpty

/-! ## Options -/

/-- The options that every journal has: it waits for others, and writes ahead. -/
def usualOptions : Bytes :=
  ascii "_pragma=busy_timeout(5000)&_pragma=journal_mode(WAL)"

/-- The ways to access files. -/
def fileSystems : List Bytes :=
  ["unix", "unix-dotfile", "unix-excl", "unix-none"].map ascii

/-- Does what an option asks for; none if it has no such value. Options of other names do not count. -/
def withOption? (l : JournalLocation) (name value : Bytes) : Option JournalLocation :=
  if name = ascii "mode" then
    if value = ascii "memory" then some { l with path := none }
    else if value = ascii "rwc" then some { l with creates := true, writes := true }
    else if value = ascii "rw" then some { l with creates := false, writes := true }
    else if value = ascii "ro" then some { l with creates := false, writes := false }
    else none
  else if name = ascii "cache" then
    if (["shared", "private"].map ascii).contains value then some l else none
  else if name = ascii "vfs" then if fileSystems.contains value then some l else none
  else some l

/-- The options about times and locks, with the values that they may have. -/
def wordOptions : List (Bytes × List String) :=
  [(ascii "_time_format", ["sqlite", "datetime"]),
    (ascii "_time_integer_format", ["unix", "unix_milli", "unix_micro", "unix_nano"]),
    (ascii "_txlock", ["deferred", "immediate", "exclusive"])]

/-- Whether an option about times and locks, if it is one, has a value that it may have. Letter case
does not count. -/
def hasKnownWord (option : Bytes) : Bool :=
  let (name, value) := (Bytes.cut? [61] option).getD (option, [])
  match wordOptions.lookup name with
  | some words => value.isEmpty || (words.map ascii).contains (Bytes.toLower value)
  | none => true

/-! ## Reading -/

/-- A text without the name of a host in front, which can only be this one. -/
def withoutHost? (s : Bytes) : Option Bytes :=
  match s with
  | 47 :: 47 :: rest =>
    let host := rest.takeWhile (· != Path.slash)
    if host.isEmpty || host == ascii "localhost" then some (rest.dropWhile (· != Path.slash))
    else none
  | _ => some s

/-- Reads an absolute path. -/
def parse? (path : Bytes) : Option JournalLocation := do
  let whole := path ++ [63] ++ usualOptions
  let (_, query) ← Bytes.cut? [63] whole
  if !areOptions query || !(Bytes.splitOnByte 38 query).all hasKnownWord then none
  let text ← withoutHost? (whole.takeWhile (· != 0))
  let (name, query) := (Bytes.cut? [63] (text.takeWhile (· != 35))).getD
    (text.takeWhile (· != 35), [])
  (options query).foldlM (fun l (name, value) => l.withOption? name value) { path := some (decode name) }

end JournalLocation

end SqlDialect
