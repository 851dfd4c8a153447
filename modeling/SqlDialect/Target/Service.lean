import SqlDialect.Text.Named
import SqlDialect.Text.Space

set_option autoImplicit false

/-! # Service files

A service file gives settings under the names of services: a line `[name]` opens a service, the lines
`name=value` below it are its settings. Empty lines and lines behind a `#` do not count. Of two
services of one name the later one counts. -/

namespace SqlDialect

/-- Services with their settings, the latest first. -/
abbrev ServiceFile := List (Bytes × Named Bytes)

namespace ServiceFile

/-- How many bytes a line may have. -/
def lineLimit : Nat := 65535

/-- The name of a service, if the line opens one. -/
def opened? (line : Bytes) : Option Bytes := do
  let inner ← Bytes.dropLead? [91] line
  Bytes.dropTrail? [93] inner

/-- Adds a line to what was read; none if it is neither of the kinds of lines or belongs to no
service. -/
def addLine (file : ServiceFile) (line : Bytes) : Option ServiceFile :=
  if lineLimit < line.length then none
  else
    let line := Bytes.trimSpace line
    if line.isEmpty || line.startsWith [35] then some file
    else
      match opened? line, file with
      | some name, _ => some ((name, []) :: file)
      | none, [] => none
      | none, (service, settings) :: rest => do
        let (name, value) ← Bytes.cut? [61] line
        some ((service, Named.assign settings (Bytes.trimSpace name) (Bytes.trimSpace value)) :: rest)

/-- Reads a service file. -/
def parse? (s : Bytes) : Option ServiceFile :=
  (Bytes.splitOnByte 10 s).foldlM addLine []

/-- The settings of a service. -/
def settings? (file : ServiceFile) (name : Bytes) : Option (Named Bytes) :=
  (file.lookup name).map fun settings =>
    settings.map fun (name, value) =>
      (if name = ascii "dbname" then ascii "database" else name, value)

end ServiceFile

end SqlDialect
