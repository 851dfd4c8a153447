import SqlDialect.Text.Named
import SqlDialect.Toml.Grammar

set_option autoImplicit false

/-! # Documents

What the lines of a settings file mean together: a tree of tables. A header or a dotted key brings
the tables above it into being; such a table may later get a header of its own, once, while anything
that was defined on purpose may not be defined again. The keys are also listed in the order of the
file: one for each header and one for each pair, those in braces included. -/

namespace SqlDialect

/-- A value of a document. -/
inductive TomlValue where
  | text (s : Bytes)
  | integer (n : Int)
  | float
  | bool (b : Bool)
  | datetime
  | list (items : List TomlValue)
  | table (entries : List (Bytes × TomlValue))
  /-- A list of tables, each item of which has a header of its own. -/
  | tables (items : List (List (Bytes × TomlValue)))

/-- The entries of a table. -/
abbrev TomlTable := Named TomlValue

namespace TomlTable

/-- Changes the table at a path; in a list of tables the path goes through the last of them. None if
there is no table at the path. -/
def changeAt? : TomlKey → (TomlTable → Option TomlTable) → TomlTable → Option TomlTable
  | [], f, t => f t
  | name :: path, f, t =>
    match t.lookup name with
    | some (.table inner) => do
      let inner ← changeAt? path f inner
      some (Named.assign t name (.table inner))
    | some (.tables items) =>
      match items.getLast? with
      | some last => do
        let last ← changeAt? path f last
        some (Named.assign t name (.tables (items.dropLast ++ [last])))
      | none => none
    | _ => none

/-- The table at a path. -/
def at? : TomlKey → TomlTable → Option TomlTable
  | [], t => some t
  | name :: path, t =>
    match t.lookup name with
    | some (.table inner) => at? path inner
    | some (.tables items) => items.getLast?.bind (at? path)
    | _ => none

/-- Puts a value under a dotted key, bringing tables into being. None if the key goes through
something else. -/
def insert? : TomlKey → TomlValue → TomlTable → Option TomlTable
  | [], _, _ => none
  | [name], v, t => some (Named.assign t name v)
  | name :: path, v, t =>
    match t.lookup name with
    | none => do
      let inner ← insert? path v []
      some (Named.assign t name (.table inner))
    | some (.table inner) => do
      let inner ← insert? path v inner
      some (Named.assign t name (.table inner))
    | some _ => none

end TomlTable

/-- A document, and what is remembered while it is read. -/
structure TomlDocument where
  root : TomlTable := []
  /-- The keys in the order of the file. -/
  keys : List TomlKey := []
  /-- The tables that were not yet defined on purpose. -/
  implicit : List TomlKey := []
  /-- The keys whose value is a list in brackets. -/
  lists : List TomlKey := []
  /-- The table that a pair belongs to. -/
  context : TomlKey := []

namespace TomlDocument

/-! ## Marks -/

/-- Marks a table as not yet defined on purpose. -/
def markImplicit (d : TomlDocument) (key : TomlKey) : TomlDocument :=
  { d with implicit := key :: d.implicit }

/-- Takes that mark away. -/
def unmarkImplicit (d : TomlDocument) (key : TomlKey) : TomlDocument :=
  { d with implicit := d.implicit.filter (· != key) }

/-- Notes whether the value of a name in the current table is a list in brackets. An empty name is
noted under its table. -/
def noteList (d : TomlDocument) (name : Bytes) (isList : Bool) : TomlDocument :=
  let key := d.context ++ (if name.isEmpty then [] else [name])
  let key := if key.isEmpty then [[]] else key
  let others := d.lists.filter (· != key)
  { d with lists := if isList then key :: others else others }

/-! ## Definitions -/

/-- Puts a value under a name of the current table. -/
def write? (d : TomlDocument) (name : Bytes) (value : TomlValue) : Option TomlDocument := do
  let root ← d.root.changeAt? d.context fun t => some (Named.assign t name value)
  some { d with root }

/-- Defines a name of the current table. A table that was brought into being by a key below it is left
as it is, and a list in brackets whose items were tables is replaced. -/
def define? (d : TomlDocument) (name : Bytes) (value : TomlValue) : Option TomlDocument := do
  let key := d.context ++ [name]
  let table ← d.root.at? d.context
  match table.lookup name with
  | none => d.write? name value
  | some _ =>
    if d.implicit.contains key then
      let d := d.unmarkImplicit key
      if d.lists.contains key then d.write? name value else some d
    else none

/-- Goes into the table of a name, which is brought into being if need be. -/
def descend? (d : TomlDocument) (name : Bytes) : Option TomlDocument := do
  let key := d.context ++ [name]
  let table ← d.root.at? d.context
  match table.lookup name with
  | none =>
    let d ← d.write? name (.table [])
    some { d.markImplicit key with context := key }
  | some (.table _) | some (.tables _) => some { d with context := key }
  | some _ => none

/-- Makes a table the current one: one that is defined by this, or a new item of a list of tables. -/
def openTable? (d : TomlDocument) (key : TomlKey) (isItem : Bool) : Option TomlDocument := do
  let name ← key.getLast?
  let d ← key.dropLast.foldlM descend? { d with context := [] }
  let d ←
    if isItem then do
      let table ← d.root.at? d.context
      match table.lookup name with
      | none => d.write? name (.tables [[]])
      | some (.tables items) => d.write? name (.tables (items ++ [[]]))
      | some _ => none
    else d.define? name (.table [])
  some { d with context := key }

/-- Makes the table of a name in the current table the current one, whether it was defined before by a
dotted key or not at all. -/
def openDotted? (d : TomlDocument) (name : Bytes) : Option TomlDocument :=
  let key := d.context ++ [name]
  (d.markImplicit key).openTable? key false

/-- Reads a key of a pair: the tables of its first names become current ones, and the last is
listed. -/
def openKey? (d : TomlDocument) (key : TomlKey) : Option (TomlDocument × Bytes) := do
  let name ← key.getLast?
  let d ← key.dropLast.foldlM openDotted? d
  some ({ d with keys := d.keys ++ [d.context ++ [name]] }, name)

/-! ## Values -/

mutual

/-- Reads the value of a name in the current table. A table in braces defines its entries on the
way. -/
def evaluate? (d : TomlDocument) (name : Bytes) (isItem : Bool) :
    TomlExpr → Option (TomlDocument × TomlValue)
  | .text s => some (d, .text s)
  | .integer n => some (d, .integer n)
  | .float => some (d, .float)
  | .bool b => some (d, .bool b)
  | .datetime => some (d, .datetime)
  | .list items => do
    let (d, values) ← evaluateItems? (d.noteList name true) name items
    some (d, .list values)
  | .table keys values => do
    let key := d.context ++ [name]
    let inner ← (d.markImplicit key).openTable? key isItem
    let (inner, entries) ← evaluatePairs? inner key keys values []
    some ({ inner with context := d.context }, .table entries)

/-- Reads the items of a list. -/
def evaluateItems? (d : TomlDocument) (name : Bytes) :
    List TomlExpr → Option (TomlDocument × List TomlValue)
  | [] => some (d, [])
  | item :: items => do
    let (d, value) ← evaluate? d name true item
    let (d, values) ← evaluateItems? d name items
    some (d, value :: values)

/-- Reads the pairs of a table in braces; `entries` are those read so far. -/
def evaluatePairs? (d : TomlDocument) (context : TomlKey) (keys : List TomlKey) :
    List TomlExpr → TomlTable → Option (TomlDocument × TomlTable)
  | [], entries => some (d, entries)
  | expr :: exprs, entries => do
    let key ← keys.head?
    let (d, name) ← openKey? d key
    let (d, value) ← evaluate? d name false expr
    let d ← d.define? name value
    let d := d.noteList name (value matches .list _)
    let entries ← entries.insert? key value
    evaluatePairs? { d with context } context keys.tail exprs entries

end

/-! ## Lines -/

/-- The document with one more line. -/
def addLine? (d : TomlDocument) : TomlLine → Option TomlDocument
  | .header key => do
    let d ← d.openTable? key false
    some { d.noteList [] false with keys := d.keys ++ [key] }
  | .itemHeader key => do
    let d ← d.openTable? key true
    some { d.noteList [] false with keys := d.keys ++ [key] }
  | .pair key expr => do
    let (inner, name) ← d.openKey? key
    let (inner, value) ← inner.evaluate? name false expr
    let inner ← inner.define? name value
    some { inner.noteList name (value matches .list _) with context := d.context }

/-- The document of a file; none if the file is malformed. -/
def parse? (file : Bytes) : Option TomlDocument := do
  let lines ← Toml.lines? file
  lines.foldlM addLine? {}

end TomlDocument

/-! ## The text of a key -/

namespace TomlKey

/-- A byte of a name between quotes. -/
def escapedByte (b : UInt8) : Bytes :=
  match b with
  | 34 => ascii "\\\""
  | 92 => ascii "\\\\"
  | 8 => ascii "\\b"
  | 9 => ascii "\\t"
  | 10 => ascii "\\n"
  | 12 => ascii "\\f"
  | 13 => ascii "\\r"
  | b =>
    if b < 32 ∨ b = 127 then
      ascii "\\u00" ++ [Bytes.hexDigit (b.toNat / 16), Bytes.hexDigit (b.toNat % 16)].map fun d =>
        if Bytes.isUpper d then d + 32 else d
    else [b]

/-- A name, between quotes unless it can stand bare. -/
def nameText (name : Bytes) : Bytes :=
  if !name.isEmpty && name.all Toml.isBareByte then name
  else 34 :: name.flatMap escapedByte ++ [34]

/-- The names of a key, joined by dots. -/
def text (key : TomlKey) : Bytes :=
  Bytes.join [46] (key.map nameText)

end TomlKey

end SqlDialect
