import SqlDialect.Journal.RowFile

set_option autoImplicit false

/-! # Journals as text

A journal is kept in a text: a first line that says what it is, then one line per row with tabs between
the fields. A tab, a newline or a backslash inside a field gets a backslash in front. -/

namespace SqlDialect

namespace RowFile

/-- The first line of the text. -/
def header : Bytes := ascii "# statement journal"

/-- A field without tabs and newlines. -/
def escapeField (s : Bytes) : Bytes :=
  s.flatMap fun b =>
    if b = 92 then [92, 92] else if b = 9 then [92, 116] else if b = 10 then [92, 110] else [b]

/-- The byte that a letter behind a backslash stands for. -/
def escaped? (letter : UInt8) : Option UInt8 :=
  if letter = 92 then some 92
  else if letter = 116 then some 9
  else if letter = 110 then some 10
  else none

/-- Reads a field. -/
def unescapeField? : Bytes → Option Bytes
  | [] => some []
  | [b] => if b = 92 then none else some [b]
  | b :: c :: s =>
    if b = 92 then do
      let d ← escaped? c
      let rest ← unescapeField? s
      some (d :: rest)
    else (unescapeField? (c :: s)).map (b :: ·)

/-- The line of a row. -/
def rowLine (r : JournalRow) : Bytes :=
  Bytes.join [9]
    ([r.command, r.kind, r.input, r.output, r.error, r.createdAt].map escapeField)

/-- Reads the line of a row. -/
def row? (line : Bytes) : Option JournalRow := do
  let fields ← (Bytes.splitOnByte 9 line).mapM unescapeField?
  match fields with
  | [command, kind, input, output, error, createdAt] =>
    some { command, kind, input, output, error, createdAt }
  | _ => none

/-- The text of a journal. -/
def encode (f : RowFile) : Bytes :=
  (header :: f.rows.map rowLine).flatMap fun line => line ++ [10]

/-- Reads the text of a journal. -/
def decode? (s : Bytes) : Option RowFile :=
  match Bytes.splitOnByte 10 s with
  | first :: lines =>
    if first = header ∧ lines.getLast? = some [] then do
      let rows ← lines.dropLast.mapM row?
      some { rows }
    else none
  | [] => none

end RowFile

end SqlDialect
