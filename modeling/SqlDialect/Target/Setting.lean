import SqlDialect.Text.Named

set_option autoImplicit false

/-! # Lists of settings

A list of settings reads `name=value name=value …`. A value with blanks stands between apostrophes, and
a backslash takes the byte behind it as it stands. Of two settings of one name the later one counts. -/

namespace SqlDialect

/-- Where in a list of settings the reader stands. -/
inductive SettingState where
  /-- In a name. -/
  | name (read : Bytes)
  /-- Behind the equals sign. -/
  | gap (name : Bytes)
  /-- In a value, which has an apostrophe in front or not; the last byte read may be a backslash that
  takes the next one with it. -/
  | value (name : Bytes) (quoted escaped : Bool) (read : Bytes)
deriving Repr, DecidableEq

/-- What was read of a list of settings. -/
structure SettingReader where
  settings : Named Bytes := []
  state : SettingState := .name []
deriving Repr, DecidableEq

namespace SettingReader

/-- The blanks between settings. -/
def isGap (b : UInt8) : Bool :=
  b == 32 || 9 ≤ b && b ≤ 13

/-- A value without its escapes. -/
def plainValue (s : Bytes) : Bytes :=
  Bytes.replaceAll (ascii "\\'") (ascii "'") (Bytes.replaceAll (ascii "\\\\") (ascii "\\") s)

/-- Keeps a setting; none if it has no name. -/
def keep? (r : SettingReader) (name value : Bytes) : Option SettingReader :=
  let name := Bytes.dropTailWhile isGap (name.dropWhile isGap)
  if name.isEmpty then none
  else
    let name := if name = ascii "dbname" then ascii "database" else name
    some { settings := Named.assign r.settings name (plainValue value), state := .name [] }

/-- Reads a byte. -/
def step (r : SettingReader) (b : UInt8) : Option SettingReader :=
  match r.state with
  | .name read => some { r with state := if b = 61 then .gap read else .name (read ++ [b]) }
  | .gap name =>
    if isGap b then some r
    else if b = 39 then some { r with state := .value name true false [] }
    else some { r with state := .value name false (b == 92) [b] }
  | .value name quoted true read => some { r with state := .value name quoted false (read ++ [b]) }
  | .value name quoted false read =>
    if b = 92 then some { r with state := .value name quoted true (read ++ [b]) }
    else if quoted && b == 39 || !quoted && isGap b then r.keep? name read
    else some { r with state := .value name quoted false (read ++ [b]) }

/-- The settings at the end of the list. -/
def finish (r : SettingReader) : Option (Named Bytes) :=
  match r.state with
  | .name read => if read.isEmpty then some r.settings else none
  | .gap name => (r.keep? name []).map SettingReader.settings
  | .value name false false read => (r.keep? name read).map SettingReader.settings
  | .value _ _ _ _ => none

/-- Reads a list of settings. -/
def readAll? (s : Bytes) : Option (Named Bytes) :=
  (s.foldlM step {}).bind finish

end SettingReader

end SqlDialect
