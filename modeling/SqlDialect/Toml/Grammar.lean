import SqlDialect.Toml.Number
import SqlDialect.Toml.Text

set_option autoImplicit false

/-! # The grammar of a settings file

A settings file is a sequence of lines: headers of tables and of items of lists of tables, and pairs
of a key and a value. Names in a key are joined by dots. Lists and tables in braces may span lines
and may end with a comma. What the lines mean together is the business of `SqlDialect.Toml.Document`. -/

namespace SqlDialect

/-- A key: names joined by dots. -/
abbrev TomlKey := List Bytes

/-- A value as it is written. -/
inductive TomlExpr where
  | text (s : Bytes)
  | integer (n : Int)
  | float
  | bool (b : Bool)
  | datetime
  | list (items : List TomlExpr)
  /-- A table in braces: its keys and, in the same order, their values. -/
  | table (keys : List TomlKey) (values : List TomlExpr)

/-- A line with a meaning. -/
inductive TomlLine where
  | header (key : TomlKey)
  | itemHeader (key : TomlKey)
  | pair (key : TomlKey) (value : TomlExpr)

namespace Toml

/-! ## Blanks and comments -/

/-- Whether the byte is a space or a tab. -/
def isSpaceOrTab (b : UInt8) : Bool :=
  b == 32 || b == 9

/-- The text without leading spaces and tabs. -/
def skipSpaces (s : Bytes) : Bytes :=
  s.dropWhile isSpaceOrTab

/-- The text without leading blanks, line breaks and comments. -/
def skipGaps (inComment : Bool) : Bytes → Bytes
  | [] => []
  | b :: s =>
    if b = 10 then skipGaps false s
    else if inComment ∨ isGap b then skipGaps inComment s
    else if b = 35 then skipGaps true s
    else b :: s

/-- What follows the end of a line; none if something stands before it that is no comment. -/
def lineEnd? (s : Bytes) : Option Bytes :=
  match skipSpaces s with
  | [] => some []
  | 10 :: rest => some rest
  | 13 :: 10 :: rest => some rest
  | 35 :: rest => some (rest.dropWhile (· != 10))
  | _ => none

/-! ## Keys -/

/-- Whether the byte may stand in a bare name. -/
def isBareByte (b : UInt8) : Bool :=
  Bytes.isWord b || b == 45

/-- Reads one name of a key. -/
def name? (s : Bytes) : Option (Bytes × Bytes) :=
  match s.head? with
  | some 34 | some 39 => lineText? s
  | _ =>
    let name := s.takeWhile isBareByte
    if name.isEmpty then none else some (name, s.dropWhile isBareByte)

/-- Reads a key of at most so many names, and the spaces behind it. -/
def keyUpTo? : Nat → Bytes → Option (TomlKey × Bytes)
  | 0, _ => none
  | count + 1, s => do
    let (name, rest) ← name? (skipSpaces s)
    match skipSpaces rest with
    | 46 :: rest =>
      let (names, rest) ← keyUpTo? count rest
      some (name :: names, rest)
    | rest => some ([name], rest)

/-- Reads a key and the spaces behind it. -/
def key? (s : Bytes) : Option (TomlKey × Bytes) :=
  keyUpTo? s.length s

/-! ## Values -/

/-- Whether the byte may stand in a date. -/
def isDateByte (b : UInt8) : Bool :=
  Bytes.isDigit b || (ascii "-:Tt .Zz+").contains b

/-- Whether the byte may stand in a float. -/
def isFloatByte (b : UInt8) : Bool :=
  Bytes.isDigit b || (ascii "_.+-eE").contains b

/-- Reads an integer or a float behind an optional sign. -/
def decimal? (sign digits : Bytes) : Option (TomlExpr × Bytes) :=
  let isPlain (b : UInt8) : Bool := Bytes.isDigit b || b == 95
  match (digits.dropWhile isPlain).head? with
  | some 46 | some 101 | some 69 =>
    if isFloat (sign ++ digits.takeWhile isFloatByte) then
      some (.float, digits.dropWhile isFloatByte)
    else none
  | _ =>
    (decimalInteger? (sign ++ digits.takeWhile isPlain)).map fun n =>
      (.integer n, digits.dropWhile isPlain)

/-- Reads a number or a date. -/
def numeral? (s : Bytes) : Option (TomlExpr × Bytes) :=
  let special (s : Bytes) : Option Bytes :=
    Bytes.dropLead? (ascii "inf") s <|> Bytes.dropLead? (ascii "nan") s
  let (sign, digits) := splitSign s
  match special digits with
  | some rest => some (.float, rest)
  | none =>
    if !(digits.head?.any Bytes.isDigit) then none
    else if sign.isSome then decimal? sign.toList digits
    else
      let afterDigits := s.dropWhile Bytes.isDigit
      let isDate := afterDigits.head? == some 45 || afterDigits.head? == some 58
      if isDate then
        let text := Bytes.dropTailWhile isSpaceOrTab (s.takeWhile isDateByte)
        if isDatetime text then some (.datetime, s.dropWhile isDateByte) else none
      else
        match s with
        | 48 :: b :: rest =>
          match base? b with
          | some base =>
            let isDigitOrMark (b : UInt8) : Bool := isBaseDigit base b || b == 95
            (basedInteger? base (rest.takeWhile isDigitOrMark)).map fun n =>
              (.integer n, rest.dropWhile isDigitOrMark)
          | none => decimal? [] s
        | _ => decimal? [] s

/-- Reads a value that is no list and no table. -/
def scalar? (s : Bytes) : Option (TomlExpr × Bytes) :=
  match s.head? with
  | some 34 | some 39 => (text? s).map fun (t, rest) => (.text t, rest)
  | _ =>
    match Bytes.dropLead? (ascii "true") s with
    | some rest => some (.bool true, rest)
    | none =>
      match Bytes.dropLead? (ascii "false") s with
      | some rest => some (.bool false, rest)
      | none => numeral? s

mutual

/-- Reads a value with at most `depth` steps of nesting and repetition. -/
def value? : Nat → Bytes → Option (TomlExpr × Bytes)
  | 0, _ => none
  | depth + 1, s =>
    match skipSpaces s with
    | 91 :: s => (items? depth s).map fun (items, rest) => (.list items, rest)
    | 123 :: s => (pairs? depth s).map fun (keys, values, rest) => (.table keys values, rest)
    | s => scalar? s

/-- Reads the items of a list and the bracket that ends it. -/
def items? : Nat → Bytes → Option (List TomlExpr × Bytes)
  | 0, _ => none
  | depth + 1, s =>
    match skipGaps false s with
    | 93 :: rest => some ([], rest)
    | s => do
      let (item, rest) ← value? depth s
      match skipGaps false rest with
      | 93 :: rest => some ([item], rest)
      | 44 :: rest =>
        let (items, rest) ← items? depth rest
        some (item :: items, rest)
      | _ => none

/-- Reads the pairs of a table and the brace that ends it. -/
def pairs? : Nat → Bytes → Option (List TomlKey × List TomlExpr × Bytes)
  | 0, _ => none
  | depth + 1, s =>
    match skipGaps false s with
    | 125 :: rest => some ([], [], rest)
    | s => do
      let (key, rest) ← key? s
      let (value, rest) ← value? depth (← Bytes.dropLead? [61] rest)
      match skipGaps false rest with
      | 125 :: rest => some ([key], [value], rest)
      | 44 :: rest =>
        let (keys, values, rest) ← pairs? depth rest
        some (key :: keys, value :: values, rest)
      | _ => none

end

/-! ## Lines -/

/-- Reads a line with a meaning and what follows the line. Every two steps of nesting or repetition in
a value take at least one byte. -/
def line? (s : Bytes) : Option (TomlLine × Bytes) :=
  match s with
  | 91 :: 91 :: s => do
    let (key, rest) ← key? s
    some (.itemHeader key, ← lineEnd? (← Bytes.dropLead? (ascii "]]") rest))
  | 91 :: s => do
    let (key, rest) ← key? s
    some (.header key, ← lineEnd? (← Bytes.dropLead? (ascii "]") rest))
  | s => do
    let (key, rest) ← key? s
    let (value, rest) ← value? (2 * s.length) (← Bytes.dropLead? [61] rest)
    some (.pair key value, ← lineEnd? rest)

/-- Reads lines up to the end of the text, at most so many. -/
def linesUpTo? : Nat → Bytes → Option (List TomlLine)
  | 0, _ => none
  | count + 1, s =>
    match skipGaps false s with
    | [] => some []
    | s => do
      let (line, rest) ← line? s
      let lines ← linesUpTo? count rest
      some (line :: lines)

/-! ## The file -/

/-- The text without a mark of its byte order. -/
def dropMark (s : Bytes) : Bytes :=
  let marks : List Bytes := [[0xFF, 0xFE], [0xFE, 0xFF], [0xEF, 0xBB, 0xBF]]
  (marks.findSome? fun mark => Bytes.dropLead? mark s).getD s

/-- Whether the text has no control characters but tabs and line breaks. -/
def hasPlainControls : Bytes → Bool
  | [] => true
  | 13 :: s => s.head? == some 10 && hasPlainControls s
  | b :: s => (32 ≤ b && b != 127 || b == 9 || b == 10) && hasPlainControls s

/-- The lines of a file; none if it is malformed. -/
def lines? (file : Bytes) : Option (List TomlLine) :=
  let s := dropMark file
  if Utf8.isValid s && hasPlainControls s then linesUpTo? (s.length + 1) s else none

end Toml

end SqlDialect
