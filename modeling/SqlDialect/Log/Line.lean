import SqlDialect.Log.Basic
import SqlDialect.Text.Quoted

set_option autoImplicit false

/-! # Log lines

The two ways in which a log entry is shown: a line for people, with tabs between its parts and the
named values in braces, and a line that is an object as a whole. -/

namespace SqlDialect

/-- How entries are shown. -/
inductive LogStyle where
  | lines
  | objects
deriving Repr, DecidableEq

/-- A character of a text inside an object. -/
def Glyph.inObject (g : Glyph) : Bytes :=
  if g.code = Utf8.replacement ∧ g.raw.length = 1 then ascii "\\ufffd"
  else
    match g.code with
    | 34 => ascii "\\\""
    | 92 => ascii "\\\\"
    | 10 => ascii "\\n"
    | 13 => ascii "\\r"
    | 9 => ascii "\\t"
    | code => if code < 32 then ascii "\\u" ++ Bytes.hex 4 code else g.raw

/-- A text inside an object. -/
def Bytes.inObject (s : Bytes) : Bytes :=
  34 :: (Utf8.glyphs s).flatMap Glyph.inObject ++ [34]

namespace LogLevel

/-- The name of a level. -/
def name : LogLevel → Bytes
  | debug => ascii "debug"
  | info => ascii "info"
  | warn => ascii "warn"

/-- The name of a level in capitals. -/
def label : LogLevel → Bytes
  | debug => ascii "DEBUG"
  | info => ascii "INFO"
  | warn => ascii "WARN"

end LogLevel

namespace LogValue

/-- A value inside an object; `gap` follows each comma and `elapsed` stands for lengths of time. -/
def inObject (gap elapsed : Bytes) : LogValue → Bytes
  | text s => s.inObject
  | texts ss => ascii "[" ++ Bytes.join (ascii "," ++ gap) (ss.map Bytes.inObject) ++ ascii "]"
  | number n => Bytes.decimal n
  | LogValue.elapsed => elapsed.inObject

end LogValue

/-- An object with the given members, `gap` following each colon and comma. -/
def objectText (gap : Bytes) (members : List (Bytes × Bytes)) : Bytes :=
  ascii "\x7b" ++
    Bytes.join (ascii "," ++ gap)
      (members.map fun (name, value) => name.inObject ++ ascii ":" ++ gap ++ value) ++
    ascii "\x7d"

namespace LogEntry

/-- The line for people, without its time. -/
def line (elapsed : Bytes) (e : LogEntry) : Bytes :=
  let members := e.fields.map fun (name, v) => (name, v.inObject [32] elapsed)
  Bytes.join [9]
    ([e.level.label] ++ (if e.logger.isEmpty then [] else [e.logger]) ++ [e.message] ++
      if members.isEmpty then [] else [objectText [32] members])

/-- The line that is an object. -/
def object (time elapsed : Bytes) (e : LogEntry) : Bytes :=
  objectText []
    ([(ascii "level", e.level.name.inObject), (ascii "time", time.inObject)] ++
      (if e.logger.isEmpty then [] else [(ascii "logger", e.logger.inObject)]) ++
      [(ascii "msg", e.message.inObject)] ++
      e.fields.map fun (name, v) => (name, v.inObject [] elapsed))

/-- An entry in a style; the time is part of objects only. -/
def text (style : LogStyle) (time elapsed : Bytes) (e : LogEntry) : Bytes :=
  match style with
  | .lines => e.line elapsed
  | .objects => e.object time elapsed

end LogEntry

end SqlDialect
