import SqlDialect.Journal.Print
import SqlDialect.Journal.RowFile

set_option autoImplicit false

/-! # Working with a journal step by step

The operations on a journal as values, and their answers. Where there is no journal every entry is
discarded and nothing is found. -/

namespace SqlDialect

/-- An operation on a journal. -/
inductive JournalStep where
  | record (e : JournalEntry)
  | recent (limit : Int)
  | print (limit : Int)
  | close
  | reopen
deriving Repr, DecidableEq

/-- The answer to an operation on a journal. -/
inductive JournalAnswer where
  | done
  | entries (es : List JournalEntry)
  | printed (text : Bytes)
  | failed (e : JournalError)
deriving Repr, DecidableEq

namespace Journal

section

variable {δ : Type} [Database δ]

/-- The database after an operation that takes place at the instant `now`. -/
def after (now : Instant) (db : δ) : JournalStep → δ
  | .record e => (record db now e).1
  | .recent _ | .print _ => db
  | .close => Database.close db
  | .reopen => Database.reopen db

/-- The answer to a reading of the journal. -/
def answerRecent (db : δ) (limit : Int) (shown : List JournalEntry → JournalAnswer) :
    JournalAnswer :=
  match recent db limit with
  | .ok es => shown es
  | .error e => .failed e

/-- The answer to an operation that takes place at the instant `now`. -/
def answer (now : Instant) (db : δ) : JournalStep → JournalAnswer
  | .record e =>
    match (record db now e).2 with
    | none => .done
    | some e => .failed e
  | .recent limit => answerRecent db limit .entries
  | .print limit => answerRecent db limit fun es => .printed (renderEntries es)
  | .close | .reopen => .done

/-- Carries out an operation where there may be no journal. -/
def stepOn (now : Instant) (db : Option δ) (s : JournalStep) : Option δ × JournalAnswer :=
  match db with
  | some db => (some (after now db s), answer now db s)
  | none => (none, answer now ({} : RowFile) s)

end

end Journal

end SqlDialect
