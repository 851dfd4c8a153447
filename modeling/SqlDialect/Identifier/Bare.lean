import SqlDialect.Identifier.Basic
import SqlDialect.Pattern.Search

set_option autoImplicit false

/-! # Bare names that need quotes

Outside table definitions four words may be column names without any quotes around them: the
case-significant `ID` and the type names `date`, `time` and `timestamp`. Each is quoted where it is
used as a name, and left alone where the words around it show that it is part of an expression: a
cast, a call, a typed literal, `AS date` or `time zone`. -/

namespace SqlDialect

/-- The words that may be names to quote. -/
def bareNamePattern : Pattern :=
  .seqs [.wordEdge, .keywords ["id", "date", "time", "timestamp"], .wordEdge]

/-- The word bytes at the end of a text. -/
def lastWord (s : Bytes) : Bytes :=
  (s.reverse.takeWhile Bytes.isWord).reverse

/-- The word bytes at the start of a text. -/
def firstWord (s : Bytes) : Bytes :=
  s.takeWhile Bytes.isWord

/-- What the word between `left` and `right` is quoted as, if it is used as a name. -/
def bareNameFor? (left word right : Bytes) : Option Bytes :=
  let lower := Bytes.toLower word
  let isId := lower == ascii "id"
  let before := Bytes.trimRight left
  let after := Bytes.trimLeft right
  if isId && !caseSensitiveNames.contains word then none
  else if left.getLast? == some doubleQuote || right.head? == some doubleQuote then none
  else if Bytes.endsWith before (ascii "::") then none
  else if Bytes.startsWith after (ascii "(") || Bytes.startsWith after marker then none
  else if isId then some word
  else if [ascii "AS", ascii "AT"].contains (Bytes.toUpper (lastWord before)) then none
  else if [ascii "ZONE", ascii "WITH", ascii "WITHOUT"].contains
      (Bytes.toUpper (firstWord after)) then none
  else some lower

/-- Writes the text up to the end of the last match with quoted names; `left` is the text before the
first match's gap. -/
def quoteMatches (left : Bytes) : List Match → Bytes
  | [] => []
  | m :: ms =>
    let name :=
      match bareNameFor? (left ++ m.before) m.text m.after with
      | some name => doubleQuote :: name ++ [doubleQuote]
      | none => m.text
    m.before ++ name ++ quoteMatches (left ++ m.before ++ m.text) ms

/-- Quotes the words `ID`, `date`, `time` and `timestamp` wherever they are used as names. -/
def quoteBareIdentifiers (s : Bytes) : Bytes :=
  let hits := bareNamePattern.all s
  quoteMatches [] hits ++ ((hits.getLast?.map Match.after).getD s)

end SqlDialect
