import SqlDialect.Literal
import SqlDialect.Text.Case
import SqlDialect.Text.Space

set_option autoImplicit false

/-! # Splitting scripts

A script is cut into statements at its delimiter, a semicolon unless a DELIMITER line names another.
Quoted text is kept whole; comments are dropped, leaving a newline or a space behind.

The script is read piece by piece: `Piece.ofText` reads one piece, and `Splitter.add` says what the
piece does to the statement being read. -/

namespace SqlDialect

/-- How many bytes of the text behind an opening quote `q` belong to the quoted text, its closing
quote included. A doubled quote stands for itself, and a backslash escapes the byte after it unless
the quote is a backtick. -/
def quotedLength (q : UInt8) : Bytes → Nat
  | [] => 0
  | [_] => 1
  | b :: c :: s =>
    if b = backslash ∧ q ≠ backtick then quotedLength q s + 2
    else if b = q then if c = q then quotedLength q s + 2 else 1
    else quotedLength q (c :: s) + 1

/-- A piece of a script. -/
inductive Piece where
  /-- A DELIMITER line and what follows the word. -/
  | directive (argument : Bytes)
  /-- Text between quotes or backticks. -/
  | quoted (text : Bytes)
  /-- A comment, and what it leaves behind. -/
  | comment (trace : Bytes)
  /-- The delimiter. -/
  | delimiter
  /-- Any other byte. -/
  | byte (b : UInt8)
deriving Repr, DecidableEq

namespace Piece

/-- Whether the text starts with two dashes that open a comment: a blank or the end must follow. -/
def isDashComment (s : Bytes) : Bool :=
  match Bytes.dropLead? (ascii "--") s with
  | some [] => true
  | some (b :: _) => Bytes.isBlank b
  | none => false

/-- The word that opens a DELIMITER line. -/
def directiveWord : Bytes := ascii "DELIMITER "

/-- Whether the text starts with the word that opens a DELIMITER line, in any letter case. -/
def isDirective (s : Bytes) : Bool :=
  directiveWord.length ≤ s.length &&
    Bytes.equalFold (s.take directiveWord.length) directiveWord

/-- The length of the first line, without its newline. -/
def lineLength (s : Bytes) : Nat :=
  (s.takeWhile (· != 10)).length

/-- The piece that starts a text and its length. `fresh` tells whether a DELIMITER line may start
here, `delimiter` is the delimiter in force. -/
def ofText (fresh : Bool) (delimiter : Bytes) (b : UInt8) (s : Bytes) : Piece × Nat :=
  let text := b :: s
  if fresh && isDirective text then
    let line := lineLength text
    (directive (Bytes.trimSpace ((text.take line).drop directiveWord.length)), line + 1)
  else if b = singleQuote ∨ b = doubleQuote ∨ b = backtick then
    let n := quotedLength b s + 1
    (quoted (text.take n), n)
  else if b = 35 ∨ isDashComment text then
    let line := lineLength text
    (comment (if line < text.length then [10] else []), line + 1)
  else if Bytes.startsWith text (ascii "/*") then
    match Bytes.cut? (ascii "*/") (text.drop 2) with
    | some (inner, _) => (comment [32], inner.length + 4)
    | none => (comment [], text.length)
  else if Bytes.startsWith text delimiter then (Piece.delimiter, delimiter.length)
  else (byte b, 1)

end Piece

/-- The state of reading a script. -/
structure Splitter where
  delimiter : Bytes := ascii ";"
  /-- The statement so far. -/
  current : Bytes := []
  /-- Whether the statement so far holds nothing but blanks. -/
  blank : Bool := true
  /-- Whether only blanks precede on the line. -/
  lineStart : Bool := true
deriving Repr, DecidableEq

namespace Splitter

/-- Whether a DELIMITER line may start here. -/
def fresh (p : Splitter) : Bool :=
  p.blank && p.lineStart

/-- The statement so far, if it holds anything. -/
def statement (p : Splitter) : List Bytes :=
  let s := Bytes.trimSpace p.current
  if s.isEmpty then [] else [s]

/-- Whether only blanks precede on the line after reading some text. -/
def lineStartAfter (start : Bool) (s : Bytes) : Bool :=
  s.foldl (fun start b => b == 10 || (start && Bytes.isBlank b)) start

/-- The state after a piece, `raw` being its text, and the statements that the piece completes. -/
def add (p : Splitter) (piece : Piece) (raw : Bytes) : Splitter × List Bytes :=
  let p := { p with lineStart := lineStartAfter p.lineStart raw }
  match piece with
  | .directive argument =>
    ({ p with
        delimiter := if argument.isEmpty then p.delimiter else argument
        current := [] }, [])
  | .quoted text => ({ p with current := p.current ++ text, blank := false }, [])
  | .comment trace => ({ p with current := p.current ++ trace }, [])
  | .delimiter => ({ p with current := [], blank := true }, p.statement)
  | .byte b => ({ p with current := p.current ++ [b], blank := p.blank && Bytes.isBlank b }, [])

/-- The statements of the rest of a script. -/
def run (p : Splitter) : Bytes → List Bytes
  | [] => p.statement
  | b :: s =>
    let (piece, n) := Piece.ofText p.fresh p.delimiter b s
    let (next, done) := p.add piece ((b :: s).take n)
    done ++ next.run (s.drop (n - 1))
termination_by s => s.length
decreasing_by
  rw [List.length_drop, List.length_cons]
  omega

end Splitter

/-- The statements of a script. -/
def splitStatements (script : Bytes) : List Bytes :=
  Splitter.run {} script

/-- A statement with a semicolon at its end; an empty one stays empty. -/
def terminate (sql : Bytes) : Bytes :=
  let sql := Bytes.trimSpace sql
  if sql.isEmpty || Bytes.endsWith sql (ascii ";") then sql else sql ++ ascii ";"

end SqlDialect
