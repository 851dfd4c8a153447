import SqlDialect.Log.Basic
import SqlDialect.Statement.Insert

set_option autoImplicit false

/-! # Inserts that may collide

`ON DUPLICATE KEY UPDATE`, `INSERT IGNORE` and `REPLACE` become `ON CONFLICT` clauses, and every
insert returns the rows it wrote. -/

namespace SqlDialect

/-! ## ON DUPLICATE KEY UPDATE -/

/-- Opens the clause that says what to do with an existing row. -/
def onDuplicatePattern : Pattern :=
  .wholePhrase ["ON", "DUPLICATE", "KEY", "UPDATE"]

/-- The target form of such a clause. -/
def onConflictPattern : Pattern :=
  .wholePhrase ["ON", "CONFLICT"]

/-- An assignment: group 1 is the column, group 2 the value. -/
def assignmentPattern : Pattern :=
  .seqs [.textStart, .group 1 (.many1 (.one (CharSet.blank.union (CharSet.ofString "=")).compl)),
    .blanks, .text "=", .blanks, .group 2 (.many (.one CharSet.any)), .textEnd]

/-- A reference to the value that was to be inserted; group 1 is the column. -/
def valuesRefPattern : Pattern :=
  .seqs [callValues, .blanks,
    .group 1 (.many1 (.one (CharSet.blank.union (CharSet.ofString "()")).compl)), .blanks,
    .text ")"]
where
  /-- The word VALUES and an opening parenthesis. -/
  callValues : Pattern := .seqs [.wordEdge, .keyword "VALUES", .blanks, .text "("]

/-- An operation on a name: group 1 is the name, group 2 the operator, group 3 the other operand. -/
def selfOpPattern : Pattern :=
  .seqs [.textStart,
    .group 1 (.many1 (.one (CharSet.blank.union (CharSet.ofString "+-*/")).compl)), .blanks,
    .group 2 (.one (CharSet.ofString "-+*/")), .blanks, .group 3 (.many (.one CharSet.any)),
    .textEnd]

/-- The value that an assignment to a column has in an upsert: references to inserted values and an
operation on the column itself take the row that was to be inserted. -/
def excludedExpr (col expr : Bytes) (lits : LiteralTable) : Bytes :=
  let expr := valuesRefPattern.replaceWith
    (fun m => ascii "EXCLUDED." ++ normalizeName (m.group 1)) expr
  match selfOpPattern.find? expr with
  | none => expr
  | some m =>
    if bareName (normalizeName (m.group 1)) lits = bareName col lits then
      ascii "EXCLUDED." ++ col ++ ascii " " ++ m.group 2 ++ ascii " " ++ m.group 3
    else expr

/-- An assignment as it appears in an upsert. -/
def upsertAssignment (lits : LiteralTable) (text : Bytes) : Bytes :=
  let text := Bytes.trimSpace text
  match assignmentPattern.find? text with
  | none => text
  | some m =>
    let col := normalizeName (m.group 1)
    col ++ ascii " = " ++ excludedExpr col (Bytes.trimSpace (m.group 2)) lits

/-- The clause that makes an insert return its rows. -/
def returningAll : Bytes := ascii " RETURNING *"

/-- Whether the statement says what to do with an existing row. -/
def hasOnDuplicate (s : Bytes) : Bool :=
  (findTop? onDuplicatePattern s).isSome

/-- A converted insert: its text and what there is to log. -/
structure Upserted where
  text : Bytes
  log : List LogEntry := []

/-- Writes ON DUPLICATE KEY UPDATE as an upsert. Without columns that identify a row the update is
dropped. -/
def convertOnDuplicate? (s : Bytes) (lits : LiteralTable) (catalog : KeyCatalog) :
    Option Upserted := do
  let ins ← Insert.ofText? s
  let m ← findTop? onDuplicatePattern ins.withoutIgnore
  let (assignments, had) := trimStatementEnd m.after
  let sets := (splitTop assignments).map (upsertAssignment lits)
  let target := ins.conflictTarget catalog lits
  let head := Bytes.trimRight m.before
  if target.isEmpty then
    some
      { text := head ++ ascii " ON CONFLICT DO NOTHING" ++ returningAll ++ semicolonIf had
        log :=
          [{ level := .debug
             message := ascii "no conflict target, update dropped"
             fields := [(ascii "table", .text ins.table), (ascii "set", .texts sets)] }] }
  else
    some
      { text :=
          head ++ ascii " ON CONFLICT (" ++ Bytes.join (ascii ", ") target ++
            ascii ") DO UPDATE SET " ++ Bytes.join (ascii ", ") sets ++ returningAll ++
            semicolonIf had }

/-! ## INSERT IGNORE -/

/-- The insert whose conflicts are to be ignored, if the statement is one and does not say so yet. -/
def ignoringInsert? (s : Bytes) : Option Insert :=
  (Insert.ofText? s).filter fun ins => ins.ignore && !onConflictPattern.occursIn s

/-- Writes INSERT IGNORE with a clause that does nothing on a conflict. -/
def convertInsertIgnore (ins : Insert) : Bytes :=
  let (body, had) := trimStatementEnd ins.withoutIgnore
  body ++ ascii " ON CONFLICT DO NOTHING" ++ returningAll ++ semicolonIf had

/-! ## REPLACE -/

/-- The head of a REPLACE; group 1 is leading space. -/
def replaceHeadPattern : Pattern :=
  .seqs [.textStart, .group 1 .blanks, .keyword "REPLACE", .blanks1,
    .opt (.seq (.keywords ["LOW_PRIORITY", "DELAYED"]) .blanks1),
    .opt (.seq (.keyword "INTO") .blanks1)]

/-- The clause that overwrites the row that shares the first column. -/
def overwriteClause : List Bytes → Bytes
  | [] => ascii " ON CONFLICT DO NOTHING"
  | [col] => ascii " ON CONFLICT (" ++ col ++ ascii ") DO NOTHING"
  | col :: cols =>
    ascii " ON CONFLICT (" ++ col ++ ascii ") DO UPDATE SET " ++
      Bytes.join (ascii ", ") (cols.map fun c => c ++ ascii " = EXCLUDED." ++ c)

/-- Writes REPLACE as an insert that overwrites the row that shares the first listed column. -/
def convertReplace? (s : Bytes) : Option Bytes := do
  let m ← replaceHeadPattern.find? s
  let s := m.group 1 ++ ascii "INSERT INTO " ++ m.after
  let ins ← Insert.ofText? s
  let (body, had) := trimStatementEnd s
  some (body ++ overwriteClause ins.columns ++ returningAll ++ semicolonIf had)

/-! ## RETURNING -/

/-- Whether the statement says what it returns. -/
def hasReturning (s : Bytes) : Bool :=
  Clause.returningPattern.occursIn s

/-- Makes an insert return its rows. -/
def appendReturning (s : Bytes) : Bytes :=
  let (body, had) := trimStatementEnd s
  body ++ returningAll ++ semicolonIf had

end SqlDialect
