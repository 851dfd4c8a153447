import SqlDialect.Journal.Basic
import SqlDialect.Text.Space

set_option autoImplicit false

/-! # Showing journal entries

Each entry takes a line for its time, kind and command, one for either form of the statement, and one
for its error if there is one. -/

namespace SqlDialect

/-- The text with spaces behind it up to so many characters. -/
def Bytes.padRight (width : Nat) (s : Bytes) : Bytes :=
  s ++ List.replicate (width - (Utf8.glyphs s).length) 32

namespace JournalEntry

/-- The lines that show an entry. -/
def render (e : JournalEntry) : Bytes :=
  let line (label text : Bytes) : Bytes := label ++ text ++ [10]
  line (e.createdAt.shortText ++ ascii "  ") (Bytes.padRight 7 e.kind ++ ascii " " ++ e.command) ++
    line (ascii "  in:  ") (Bytes.oneLine e.input) ++
    line (ascii "  out: ") (Bytes.oneLine e.output) ++
    if e.error.isEmpty then [] else line (ascii "  err: ") e.error

end JournalEntry

/-- The lines that show entries in the given order. -/
def renderEntries (entries : List JournalEntry) : Bytes :=
  entries.flatMap JournalEntry.render

end SqlDialect
