import SqlDialect.Identifier.Basic
import SqlDialect.Pattern.Search
import SqlDialect.Text.Space

set_option autoImplicit false

/-! # Clauses and lists

Clauses are found and lists are cut outside parentheses. Everything here works on text whose
literals have been taken out, so no parenthesis or comma stands inside one. The depth of a place
never drops below zero: a closing parenthesis without partner counts for nothing. -/

namespace SqlDialect

/-- The opening parenthesis. -/
def openParen : UInt8 := 40

/-- The closing parenthesis. -/
def closeParen : UInt8 := 41

/-- The comma. -/
def comma : UInt8 := 44

/-! ## Depth -/

/-- The depth after a byte, from the depth before it. -/
def stepDepth (depth : Nat) (b : UInt8) : Nat :=
  if b = openParen then depth + 1 else if b = closeParen then depth - 1 else depth

/-- The depth after a text, from the depth before it. -/
def depthAfter (depth : Nat) (s : Bytes) : Nat :=
  s.foldl stepDepth depth

/-- The place, counted from `pos`, of the parenthesis that brings the balance `depth` to zero. -/
def scanParen (depth : Int) (pos : Nat) : Bytes → Option Nat
  | [] => none
  | b :: s =>
    if b = openParen then scanParen (depth + 1) (pos + 1) s
    else if b = closeParen then
      if depth = 1 then some pos else scanParen (depth - 1) (pos + 1) s
    else scanParen depth (pos + 1) s

/-- The place of the parenthesis that closes the one at `start`. -/
def matchParen? (s : Bytes) (start : Nat) : Option Nat :=
  scanParen 0 start (s.drop start)

/-- Splits the text after an opening parenthesis into what the parenthesis encloses and what follows
its partner. -/
def splitParen? (s : Bytes) : Option (Bytes × Bytes) :=
  (scanParen 1 0 s).map fun i => (s.take i, s.drop (i + 1))

theorem lt_of_scanParen {depth : Int} {pos i : Nat} {s : Bytes}
    (h : scanParen depth pos s = some i) : pos ≤ i ∧ i < pos + s.length := by
  induction s generalizing depth pos with
  | nil => simp [scanParen] at h
  | cons b s ih =>
    simp only [scanParen] at h
    split at h
    · have := ih h; simp only [List.length_cons]; omega
    · split at h
      · split at h
        · simp only [Option.some.injEq] at h; simp only [List.length_cons]; omega
        · have := ih h; simp only [List.length_cons]; omega
      · have := ih h; simp only [List.length_cons]; omega

theorem length_of_splitParen? {s arg rest : Bytes} (h : splitParen? s = some (arg, rest)) :
    rest.length < s.length := by
  simp only [splitParen?, Option.map_eq_some_iff, Prod.mk.injEq] at h
  obtain ⟨i, hi, _, rfl⟩ := h
  have := lt_of_scanParen hi
  simp only [List.length_drop]
  omega

/-! ## Lists -/

/-- Puts a byte in front of the first part. -/
def consPart (b : UInt8) : List Bytes → List Bytes
  | [] => [[b]]
  | part :: parts => (b :: part) :: parts

/-- The parts between the commas at depth zero, starting at a given depth. -/
def splitTopFrom : Nat → Bytes → List Bytes
  | _, [] => [[]]
  | depth, b :: s =>
    if b = comma ∧ depth = 0 then [] :: splitTopFrom depth s
    else consPart b (splitTopFrom (stepDepth depth b) s)

/-- The parts between the commas outside parentheses, blanks included. -/
def splitTop (s : Bytes) : List Bytes :=
  splitTopFrom 0 s

/-- A text between its blanks. -/
structure Spaced where
  lead : Bytes
  core : Bytes
  trail : Bytes
deriving Repr, DecidableEq

namespace Spaced

/-- Separates the blanks at both ends. -/
def ofText (s : Bytes) : Spaced :=
  let core := Bytes.trimLeft s
  let trimmed := Bytes.trimRight core
  ⟨s.takeWhile Bytes.isBlank, trimmed, core.drop trimmed.length⟩

/-- The text it came from. -/
def text (p : Spaced) : Bytes :=
  p.lead ++ p.core ++ p.trail

/-- Changes what is between the blanks. -/
def map (f : Bytes → Bytes) (p : Spaced) : Spaced :=
  { p with core := f p.core }

end Spaced

/-- The items of a list, each between its blanks. -/
def items (list : Bytes) : List Spaced :=
  (splitTop list).map Spaced.ofText

/-- The list with the given items. -/
def ofItems (ps : List Spaced) : Bytes :=
  Bytes.join [comma] (ps.map Spaced.text)

/-- Changes every item of a list and keeps the blanks around it. -/
def mapItems (f : Bytes → Bytes) (list : Bytes) : Bytes :=
  ofItems ((items list).map (Spaced.map f))

/-- The text without blanks and semicolons at its end, and whether there was a semicolon. -/
def trimStatementEnd (s : Bytes) : Bytes × Bool :=
  let trimmed := Bytes.dropTailWhile (fun b => Bytes.isBlank b || b == 59) s
  (trimmed, (s.drop trimmed.length).contains 59)

/-- A semicolon if there was one. -/
def semicolonIf (had : Bool) : Bytes :=
  if had then [59] else []

/-! ## Clauses -/

/-- The first of the matches that starts at depth zero, seen from the start of the text; `depth` is
the depth there and `left` what precedes the first match's gap. -/
def firstTop (left : Bytes) (depth : Nat) : List Match → Option Match
  | [] => none
  | m :: ms =>
    let here := depthAfter depth m.before
    if here = 0 then some { m with before := left ++ m.before }
    else firstTop (left ++ m.before ++ m.text) (depthAfter here m.text) ms

/-- The first match outside parentheses in a text that starts outside parentheses. -/
def findTop? (p : Pattern) (s : Bytes) : Option Match :=
  firstTop [] 0 (p.all s)

/-- Where the first match of any of the patterns outside parentheses starts; the end of the text if
there is none. -/
def topIndex (ps : List Pattern) (s : Bytes) : Nat :=
  ps.foldl (fun n p => ((findTop? p s).map fun m => min n m.before.length).getD n) s.length

/-- Splits the text before the first clause that one of the patterns opens. -/
def splitAtClause (ps : List Pattern) (s : Bytes) : Bytes × Bytes :=
  s.splitAt (topIndex ps s)

namespace Clause

/-- Opens the FROM clause. -/
def fromPattern : Pattern := .wholeWord "FROM"

/-- Opens the WHERE clause. -/
def wherePattern : Pattern := .wholeWord "WHERE"

/-- Opens the GROUP BY clause. -/
def groupByPattern : Pattern := .wholePhrase ["GROUP", "BY"]

/-- Opens the HAVING clause. -/
def havingPattern : Pattern := .wholeWord "HAVING"

/-- Opens the ORDER BY clause. -/
def orderByPattern : Pattern := .wholePhrase ["ORDER", "BY"]

/-- Opens the LIMIT clause. -/
def limitPattern : Pattern := .wholeWord "LIMIT"

/-- Opens the OFFSET clause. -/
def offsetPattern : Pattern := .wholeWord "OFFSET"

/-- Opens a locking clause. -/
def lockPattern : Pattern :=
  .seqs [.wordEdge, .keyword "FOR", .blanks1, .keywords ["UPDATE", "SHARE"], .wordEdge]

/-- Opens the RETURNING clause. -/
def returningPattern : Pattern := .wholeWord "RETURNING"

/-- The clauses that may follow ORDER BY. -/
def afterOrder : List Pattern := [limitPattern, offsetPattern, lockPattern]

end Clause

/-! ## The select list -/

/-- The words that may stand between SELECT and the select list. -/
def selectModifiers : List String :=
  ["DISTINCT", "DISTINCTROW", "ALL", "HIGH_PRIORITY", "STRAIGHT_JOIN", "SQL_NO_CACHE", "SQL_CACHE",
    "SQL_SMALL_RESULT", "SQL_BIG_RESULT", "SQL_BUFFER_RESULT"]

/-- SELECT and its modifiers at the start of a statement. -/
def selectHeadPattern : Pattern :=
  .seqs [.textStart, .blanks, .keyword "SELECT", .blanks1,
    .many (.seqs [.keywords selectModifiers, .blanks1])]

/-- SELECT DISTINCT at the start of a statement. -/
def selectDistinctPattern : Pattern :=
  .seqs [.textStart, .blanks, .phrase ["SELECT", "DISTINCT"], .wordEdge]

/-- A SELECT statement cut around its select list: the text is `head ++ list ++ tail`, and `tail` is
empty or starts with FROM. -/
structure SelectParts where
  head : Bytes
  list : Bytes
  tail : Bytes
deriving Repr, DecidableEq

namespace SelectParts

/-- Cuts a SELECT statement around its select list. -/
def ofText? (s : Bytes) : Option SelectParts :=
  (selectHeadPattern.find? s).map fun m =>
    match findTop? Clause.fromPattern m.after with
    | some f => ⟨m.text, f.before, f.text ++ f.after⟩
    | none => ⟨m.text, m.after, []⟩

/-- The statement it came from. -/
def text (p : SelectParts) : Bytes :=
  p.head ++ p.list ++ p.tail

end SelectParts

/-- Whether the statement is a SELECT that reads from a table. -/
def readsTable (s : Bytes) : Bool :=
  (SelectParts.ofText? s).any fun p => !p.tail.isEmpty

/-! ## Plain columns -/

/-- A name, bare or between double quotes. -/
def namePattern : Pattern :=
  .alt
    (.seq (.one CharSet.nameStart) (.many (.one (CharSet.word.union (CharSet.ofString "$")))))
    (.seqs [.text "\"", .many1 (.one (CharSet.ofString "\"").compl), .text "\""])

/-- A name or several joined by dots, and nothing else. -/
def plainColumnPattern : Pattern :=
  .seqs [.textStart, namePattern, .many (.seq (.text ".") namePattern), .textEnd]

/-- The words of name shape that are values. -/
def valueWords : List Bytes :=
  ["NULL", "TRUE", "FALSE", "CURRENT_TIMESTAMP", "CURRENT_DATE", "CURRENT_TIME", "NOW"].map ascii

/-- Whether the item is a bare or qualified column name. -/
def isPlainColumn (item : Bytes) : Bool :=
  plainColumnPattern.occursIn item && !Bytes.containsText item marker &&
    !valueWords.contains (Bytes.toUpper item)

end SqlDialect
