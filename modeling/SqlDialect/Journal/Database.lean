import SqlDialect.Journal.Basic

set_option autoImplicit false

/-! # The journal and its database

The journal is a table of a database. It adds rows to it and asks for the newest ones; how the rows
are kept is the database's business. What the journal relies on is said in `LawfulDatabase`: rows
stay as they are, each new one gets a greater id than those before it, and a query gives the rows in
the order of their ids. A database may refuse any single row. -/

namespace SqlDialect

/-- A database with a table of rows, opened or not. -/
class Database (δ : Type) where
  /-- The rows of the table with their ids, in no particular order. -/
  rows : δ → List (Int × JournalRow)
  isOpen : δ → Bool
  /-- Adds a row: the error, if the row is refused. -/
  insert : δ → JournalRow → Option Bytes × δ
  /-- The rows with the greatest ids, the greatest first: at most so many, or all for a negative
  number. -/
  select : δ → Int → Except Bytes (List JournalRow)
  close : δ → δ
  /-- Opens a closed database again. -/
  reopen : δ → δ

/-- What the journal relies on. -/
class LawfulDatabase (δ : Type) [Database δ] : Prop where
  /-- A closed database refuses every row. -/
  insert_closed (db : δ) (row : JournalRow) (h : Database.isOpen db = false) :
    ∃ error, (Database.insert db row).1 = some error
  /-- A row that is refused changes nothing. -/
  insert_refused (db : δ) (row : JournalRow) {error : Bytes}
    (h : (Database.insert db row).1 = some error) :
    (Database.rows (Database.insert db row).2).Perm (Database.rows db)
  /-- Any other row is added with an id that is greater than all others. -/
  insert_accepted (db : δ) (row : JournalRow) (h : (Database.insert db row).1 = none) :
    ∃ id, (∀ r ∈ Database.rows db, r.1 < id) ∧
      (Database.rows (Database.insert db row).2).Perm (Database.rows db ++ [(id, row)])
  isOpen_insert (db : δ) (row : JournalRow) :
    Database.isOpen (Database.insert db row).2 = Database.isOpen db
  select_closed (db : δ) (limit : Int) (h : Database.isOpen db = false) :
    ∃ error, Database.select db limit = .error error
  /-- The query reads all rows in descending order of their ids and stops at the limit. -/
  select_open (db : δ) (limit : Int) (h : Database.isOpen db = true) :
    ∃ sorted : List (Int × JournalRow),
      sorted.Perm (Database.rows db) ∧ sorted.Pairwise (fun r r' => r'.1 < r.1) ∧
      Database.select db limit
        = .ok ((if limit < 0 then sorted else sorted.take limit.toNat).map Prod.snd)
  rows_close (db : δ) : (Database.rows (Database.close db)).Perm (Database.rows db)
  isOpen_close (db : δ) : Database.isOpen (Database.close db) = false
  rows_reopen (db : δ) : (Database.rows (Database.reopen db)).Perm (Database.rows db)
  isOpen_reopen (db : δ) : Database.isOpen (Database.reopen db) = true

namespace Journal

variable {δ : Type} [Database δ]

/-- Adds an entry: the database afterwards and the error, if there is one. -/
def record (db : δ) (now : Instant) (e : JournalEntry) : δ × Option JournalError :=
  let (error, db) := Database.insert db (.ofEntry now e)
  (db, error.map .insert)

/-- The newest entries, newest first: at most `limit`, or all for a negative limit. -/
def recent (db : δ) (limit : Int) : Except JournalError (List JournalEntry) :=
  match Database.select db limit with
  | .ok rows => rows.mapM JournalRow.toEntry
  | .error e => .error (.query e)

end Journal

end SqlDialect
