import SqlDialect.Journal.Step
import SqlDialect.Proofs.Time.Timestamp

set_option autoImplicit false

/-! # The journal as a log

What was recorded is read back as it was, newest first, whatever was done to the journal in between.
One entry stands in the way: the time of a row is read together with the row, and a time whose year
does not have four digits is written but not read. The first such entry among those asked for makes the
reading fail. -/

namespace SqlDialect

open Bytes

/-! ## Rows -/

namespace JournalEntry

/-- The entry as it is recorded at an instant, which becomes its time if it has none. -/
def stampedAt (now : Instant) (e : JournalEntry) : JournalEntry :=
  { e with createdAt := if e.createdAt = .unset then now else e.createdAt }

/-- The row that keeps an entry with its time. -/
def row (e : JournalEntry) : JournalRow :=
  { command := e.command
    kind := e.kind
    input := e.input
    output := e.output
    error := e.error
    createdAt := e.createdAt.timestamp }

end JournalEntry

theorem JournalRow.ofEntry_eq_row (now : Instant) (e : JournalEntry) :
    ofEntry now e = (e.stampedAt now).row :=
  rfl

/-- A row gives its entry back if the time of the entry can be read. -/
theorem JournalEntry.toEntry_row (e : JournalEntry) :
    e.row.toEntry = if e.createdAt.HasFourDigitYear then .ok e
      else .error (.badTimestamp e.createdAt.timestamp) := by
  unfold JournalRow.toEntry
  by_cases hyear : e.createdAt.HasFourDigitYear
  · simp only [row, Instant.ofTimestamp?_timestamp hyear, hyear, if_true]
  · simp only [row, Instant.ofTimestamp?_timestamp_eq_none hyear, hyear, if_false]

namespace JournalEntry

/-- The outcome of reading the rows of entries in turn: all of them, or the first time that cannot be
read. -/
def reading (es : List JournalEntry) : Except JournalError (List JournalEntry) :=
  match es.find? fun e => !decide e.createdAt.HasFourDigitYear with
  | none => .ok es
  | some e => .error (.badTimestamp e.createdAt.timestamp)

theorem reading_of_forall {es : List JournalEntry}
    (h : ∀ e ∈ es, e.createdAt.HasFourDigitYear) : reading es = .ok es := by
  have hnone : (es.find? fun e => !decide e.createdAt.HasFourDigitYear) = none := by
    simpa using h
  rw [reading, hnone]

/-- Reading fails if one of the entries has a time that cannot be read, and the error names that
time. -/
theorem reading_of_exists {es : List JournalEntry}
    (h : ∃ e ∈ es, ¬ e.createdAt.HasFourDigitYear) :
    ∃ e ∈ es, ¬ e.createdAt.HasFourDigitYear ∧
      reading es = .error (.badTimestamp e.createdAt.timestamp) := by
  have hsome : (es.find? fun e => !decide e.createdAt.HasFourDigitYear).isSome = true := by
    simpa using h
  obtain ⟨e, he⟩ := Option.isSome_iff_exists.1 hsome
  refine ⟨e, List.mem_of_find?_eq_some he, by simpa using List.find?_some he, ?_⟩
  rw [reading, he]

theorem reading_eq_error_iff {es : List JournalEntry} :
    (∃ text, reading es = .error (.badTimestamp text)) ↔
      ∃ e ∈ es, ¬ e.createdAt.HasFourDigitYear := by
  constructor
  · rintro ⟨text, herror⟩
    by_contra hnone
    have hall : ∀ e ∈ es, e.createdAt.HasFourDigitYear := by simpa using hnone
    rw [reading_of_forall hall] at herror
    cases herror
  · intro h
    obtain ⟨e, -, -, herror⟩ := reading_of_exists h
    exact ⟨_, herror⟩

theorem mapM_toEntry_row (es : List JournalEntry) :
    (es.map row).mapM JournalRow.toEntry = reading es := by
  induction es with
  | nil => rfl
  | cons e es ih =>
    rw [List.map_cons, List.mapM_cons, ih, toEntry_row]
    unfold reading
    by_cases hyear : e.createdAt.HasFourDigitYear
    · simp only [hyear, List.find?_cons, if_true, decide_true, Bool.not_true]
      cases es.find? fun e => !decide e.createdAt.HasFourDigitYear <;> rfl
    · simp only [hyear, List.find?_cons, if_false, decide_false, Bool.not_false]
      rfl

end JournalEntry

/-! ## The table -/

namespace Journal

variable {δ : Type} [Database δ]

/-- The table holds the rows of entries that were added in this order: their ids ascend. -/
def Holds (db : δ) (es : List JournalEntry) : Prop :=
  ∃ kept : List (Int × JournalEntry), kept.map Prod.snd = es ∧
    kept.Pairwise (fun k k' => k.1 < k'.1) ∧
    (Database.rows db).Perm (kept.map fun k => (k.1, k.2.row))

theorem holds_nil {db : δ} (h : Database.rows db = []) : Holds db [] :=
  ⟨[], rfl, .nil, by rw [h]; exact .nil⟩

theorem Holds.of_perm {db db' : δ} {es : List JournalEntry} (h : Holds db es)
    (hrows : (Database.rows db').Perm (Database.rows db)) : Holds db' es := by
  obtain ⟨kept, hkept, hascend, hperm⟩ := h
  exact ⟨kept, hkept, hascend, hrows.trans hperm⟩

/-- The newest of entries in the order of their recording: at most `limit`, or all for a negative
limit. -/
def newestOf (limit : Int) (es : List JournalEntry) : List JournalEntry :=
  if limit < 0 then es.reverse else es.reverse.take limit.toNat

theorem length_newestOf (limit : Int) (es : List JournalEntry) :
    (newestOf limit es).length = if limit < 0 then es.length else min limit.toNat es.length := by
  unfold newestOf
  split <;> simp

section Lawful

variable [LawfulDatabase δ]

/-- A row that is accepted comes behind those that are there. -/
theorem Holds.insert {db : δ} {es : List JournalEntry} (h : Holds db es) (e : JournalEntry)
    (haccepted : (Database.insert db e.row).1 = none) :
    Holds (Database.insert db e.row).2 (es ++ [e]) := by
  obtain ⟨kept, hkept, hascend, hperm⟩ := h
  obtain ⟨id, hgreater, hrows⟩ := LawfulDatabase.insert_accepted db e.row haccepted
  refine ⟨kept ++ [(id, e)], by rw [List.map_append, hkept]; rfl, ?_, ?_⟩
  · rw [List.pairwise_append]
    refine ⟨hascend, List.pairwise_singleton _ _, fun k hk k' hk' => ?_⟩
    obtain rfl := List.mem_singleton.1 hk'
    exact hgreater _ (hperm.mem_iff.2 (List.mem_map.2 ⟨k, hk, rfl⟩))
  · rw [List.map_append]
    exact hrows.trans (hperm.append_right _)

/-- The newest rows are those of the newest entries. -/
theorem Holds.select {db : δ} {es : List JournalEntry} (h : Holds db es)
    (hopen : Database.isOpen db = true) (limit : Int) :
    Database.select db limit = .ok ((newestOf limit es).map JournalEntry.row) := by
  obtain ⟨kept, rfl, hascend, hperm⟩ := h
  obtain ⟨sorted, hsorted, hdescend, hselect⟩ := LawfulDatabase.select_open db limit hopen
  -- there is only one way to put the rows in descending order
  have hreverse : sorted = (kept.map fun k => (k.1, k.2.row)).reverse := by
    refine List.Perm.eq_of_pairwise ?_ hdescend ?_ ?_
    · intro r r' _ _ hlt hgt
      exact absurd (Int.lt_trans hlt hgt) (Int.lt_irrefl _)
    · rw [List.pairwise_reverse, List.pairwise_map]
      exact hascend
    · exact (hsorted.trans hperm).trans (List.reverse_perm _).symm
  rw [hselect, hreverse, newestOf]
  split <;> simp [← List.map_reverse, ← List.map_take]

theorem Holds.recent {db : δ} {es : List JournalEntry} (h : Holds db es)
    (hopen : Database.isOpen db = true) (limit : Int) :
    recent db limit = JournalEntry.reading (newestOf limit es) := by
  simp only [Journal.recent, h.select hopen limit, JournalEntry.mapM_toEntry_row]

end Lawful

end Journal

/-! ## Runs -/

/-- Whether a journal is open after an operation. -/
def JournalStep.leavesOpen (isOpen : Bool) : JournalStep → Bool
  | close => false
  | reopen => true
  | record _ | recent _ | print _ => isOpen

namespace Journal

variable {δ : Type} [Database δ]

/-- The entries that an operation adds: one if something is recorded and the database takes its
row. -/
def added (db : δ) (now : Instant) : JournalStep → List JournalEntry
  | .record e =>
    if (Database.insert db (e.stampedAt now).row).1 = none then [e.stampedAt now] else []
  | .recent _ | .print _ | .close | .reopen => []

/-- The database after operations, each at its instant. -/
def run (db : δ) (steps : List (Instant × JournalStep)) : δ :=
  steps.foldl (fun db step => after step.1 db step.2) db

/-- Whether a journal is open after operations. -/
def isOpenAfter (isOpen : Bool) (steps : List (Instant × JournalStep)) : Bool :=
  steps.foldl (fun isOpen step => step.2.leavesOpen isOpen) isOpen

/-- The entries that operations record, in their order. -/
def recorded (db : δ) : List (Instant × JournalStep) → List JournalEntry
  | [] => []
  | (now, s) :: steps => added db now s ++ recorded (after now db s) steps

variable [LawfulDatabase δ]

/-- What is recorded on a closed journal is refused and changes nothing. -/
theorem record_closed {db : δ} (h : Database.isOpen db = false) (now : Instant) (e : JournalEntry) :
    (∃ error, (record db now e).2 = some (.insert error)) ∧
      (Database.rows (record db now e).1).Perm (Database.rows db) := by
  obtain ⟨error, herror⟩ := LawfulDatabase.insert_closed db (.ofEntry now e) h
  exact ⟨⟨error, congrArg (Option.map _) herror⟩, LawfulDatabase.insert_refused db _ herror⟩

theorem isOpen_after (now : Instant) (db : δ) (s : JournalStep) :
    Database.isOpen (after now db s) = s.leavesOpen (Database.isOpen db) := by
  cases s with
  | record e => exact LawfulDatabase.isOpen_insert db _
  | recent limit => rfl
  | print limit => rfl
  | close => exact LawfulDatabase.isOpen_close db
  | reopen => exact LawfulDatabase.isOpen_reopen db

theorem isOpen_run (db : δ) (steps : List (Instant × JournalStep)) :
    Database.isOpen (run db steps) = isOpenAfter (Database.isOpen db) steps := by
  unfold run isOpenAfter
  induction steps generalizing db with
  | nil => rfl
  | cons step steps ih => rw [List.foldl_cons, ih, isOpen_after, List.foldl_cons]

/-- One operation: the table holds what it held and what the operation adds. -/
theorem Holds.after {db : δ} {es : List JournalEntry} (h : Holds db es) (now : Instant)
    (s : JournalStep) : Holds (after now db s) (es ++ added db now s) := by
  cases s with
  | record e =>
    change Holds (Database.insert db (.ofEntry now e)).2 _
    rw [JournalRow.ofEntry_eq_row, added]
    split
    · rename_i haccepted
      exact h.insert _ haccepted
    · rename_i hrefused
      obtain ⟨error, herror⟩ := Option.ne_none_iff_exists'.1 hrefused
      rw [List.append_nil]
      exact h.of_perm (LawfulDatabase.insert_refused db _ herror)
  | recent limit =>
    rw [added, List.append_nil]
    exact h
  | print limit =>
    rw [added, List.append_nil]
    exact h
  | close =>
    rw [added, List.append_nil]
    exact h.of_perm (LawfulDatabase.rows_close db)
  | reopen =>
    rw [added, List.append_nil]
    exact h.of_perm (LawfulDatabase.rows_reopen db)

/-- A run: the table holds what it held and what was recorded. -/
theorem Holds.run {db : δ} {es : List JournalEntry} (h : Holds db es)
    (steps : List (Instant × JournalStep)) : Holds (run db steps) (es ++ recorded db steps) := by
  induction steps generalizing db es with
  | nil =>
    rw [recorded, List.append_nil]
    exact h
  | cons step steps ih =>
    obtain ⟨now, s⟩ := step
    rw [recorded, ← List.append_assoc]
    exact ih (h.after now s)

/-- **The journal is a log.** Take any database that keeps its rows, numbers them upwards and is asked
by number, with an empty table, and any operations on it. The newest entries of those whose rows it
took are read back as they were, newest first and at most so many as are asked for, with the
instants at which they were recorded, unless one of them has a time whose year does not have four
digits. A closed journal is neither read nor written. -/
theorem recent_run (db : δ) (hnew : Database.rows db = []) (steps : List (Instant × JournalStep))
    (limit : Int) (now : Instant) (e : JournalEntry) :
    let db' := run db steps
    let entries := recorded db steps
    let newest := newestOf limit entries
    newest.length = (if limit < 0 then entries.length else min limit.toNat entries.length) ∧
    if isOpenAfter (Database.isOpen db) steps then
      ((∀ e ∈ newest, e.createdAt.HasFourDigitYear) → recent db' limit = .ok newest) ∧
      ((∃ text, recent db' limit = .error (.badTimestamp text)) ↔
        ∃ e ∈ newest, ¬ e.createdAt.HasFourDigitYear)
    else
      (∃ error, recent db' limit = .error (.query error)) ∧
      (∃ error, (record db' now e).2 = some (.insert error)) ∧
      (Database.rows (record db' now e).1).Perm (Database.rows db') := by
  intro db' entries newest
  refine ⟨length_newestOf limit _, ?_⟩
  have hopen : Database.isOpen db' = isOpenAfter (Database.isOpen db) steps := isOpen_run db steps
  by_cases h : isOpenAfter (Database.isOpen db) steps = true
  · have hholds : Holds db' entries := (holds_nil hnew).run steps
    have hrecent := hholds.recent (hopen.trans h) limit
    rw [if_pos h, hrecent]
    exact ⟨JournalEntry.reading_of_forall, JournalEntry.reading_eq_error_iff⟩
  · have hclosed : Database.isOpen db' = false := by
      rw [hopen]
      exact Bool.not_eq_true _ ▸ h
    obtain ⟨error, herror⟩ := LawfulDatabase.select_closed db' limit hclosed
    rw [if_neg h]
    exact ⟨⟨error, by simp only [recent, herror]⟩, record_closed hclosed now e⟩

end Journal

/-! ## Rows in a file -/

namespace RowFile

theorem insert_eq (f : RowFile) (row : JournalRow) :
    (∃ error, (f.insert row).1 = some error ∧ (f.insert row).2.rows = f.rows) ∨
      f.isOpen = true ∧ (f.insert row).1 = none ∧ (f.insert row).2.rows = f.rows ++ [row] := by
  unfold insert
  split
  · exact Or.inl ⟨_, rfl, rfl⟩
  · rename_i hopen
    split
    · exact Or.inl ⟨_, rfl, rfl⟩
    · split
      · exact Or.inl ⟨_, rfl, rfl⟩
      · exact Or.inr ⟨by simpa using hopen, rfl, rfl⟩

/-- The numbers of the rows are less than the next one. -/
theorem lt_of_mem_rows {f : RowFile} {r : Int × JournalRow} (h : r ∈ Database.rows f) :
    r.1 < (f.rows.length : Int) + 1 := by
  obtain ⟨i, hi, rfl⟩ := List.mem_mapIdx.1 h
  show (i : Int) + 1 < f.rows.length + 1
  omega

instance : LawfulDatabase RowFile where
  insert_closed f row h := by
    rcases f.insert_eq row with ⟨error, herror, -⟩ | ⟨hopen, -⟩
    · exact ⟨error, herror⟩
    · exact absurd (h.symm.trans hopen) Bool.false_ne_true
  insert_refused f row error h := by
    rcases f.insert_eq row with ⟨-, -, hrows⟩ | ⟨-, hnone, -⟩
    · exact .of_eq (congrArg (List.mapIdx _) hrows)
    · exact absurd (hnone.symm.trans h) (by simp)
  insert_accepted f row h := by
    rcases f.insert_eq row with ⟨error, herror, -⟩ | ⟨-, -, hrows⟩
    · exact absurd (h.symm.trans herror) (by simp)
    · refine ⟨f.rows.length + 1, fun r hr => lt_of_mem_rows hr, .of_eq ?_⟩
      show (f.insert row).2.rows.mapIdx _ = f.rows.mapIdx _ ++ _
      rw [hrows, List.mapIdx_append]
      simp
  isOpen_insert f row := by
    show (f.insert row).2.isOpen = f.isOpen
    unfold insert
    repeat' split
    all_goals rfl
  select_closed f limit h := ⟨_, if_neg (ne_true_of_eq_false h)⟩
  select_open f limit h := by
    have hrows : (Database.rows f).map Prod.snd = f.rows := by
      apply List.ext_getElem
      · simp [Database.rows]
      · intro i _ _
        simp [Database.rows]
    refine ⟨(Database.rows f).reverse, List.reverse_perm _, ?_, ?_⟩
    · rw [List.pairwise_reverse, List.pairwise_iff_getElem]
      intro i j hi hj hlt
      simp only [Database.rows, List.getElem_mapIdx]
      omega
    · show f.select limit = _
      rw [select, if_pos (show f.isOpen = true from h)]
      split
      · rw [List.map_reverse, hrows]
      · rw [List.map_take, List.map_reverse, hrows]
  rows_close f := .refl _
  isOpen_close f := rfl
  rows_reopen f := .refl _
  isOpen_reopen f := rfl

end RowFile

/-- An entry of a command with its time. -/
def JournalEntry.sample (input : Bytes) (createdAt : Instant) : JournalEntry :=
  { command := ascii "rewrite", kind := ascii "SELECT", input, output := input, createdAt }

/-- Four entries on a file that is locked when the second is to be added; the third comes while the
journal is closed, the fourth, after it was opened again, has a year with five digits. The first one
is read back, the fourth makes the reading fail. -/
theorem Journal.recent_run_reopened :
    let file : RowFile := { locked := [false, true] }
    let first := JournalEntry.sample (ascii "SELECT 1") (.ofUnix 1772366400 5)
    let fourth := JournalEntry.sample (ascii "SELECT 4") (.ofUnix 253402300800 0)
    let steps : List (Instant × JournalStep) := [(.ofUnix 0 0, .record first),
      (.ofUnix 0 0, .record (.sample (ascii "SELECT 2") .unset)), (.ofUnix 0 0, .close),
      (.ofUnix 0 0, .record (.sample (ascii "SELECT 3") .unset)), (.ofUnix 0 0, .reopen)]
    let all := steps ++ [(.ofUnix 0 0, .record fourth)]
    Database.rows file = [] ∧ Journal.recorded file all = [first, fourth] ∧
      Journal.recent (Journal.run file steps) 2 = .ok [first] ∧
      (∃ text, Journal.recent (Journal.run file all) (-1) = .error (.badTimestamp text)) ∧
      ∃ error, (Journal.record (Journal.run file (steps.take 3)) (.ofUnix 0 0) fourth).2
        = some (.insert error) := by
  intro file first fourth steps all
  have hnew : Database.rows file = [] := rfl
  have hrecorded : Journal.recorded file all = [first, fourth] := by decide +kernel
  have hsteps : Journal.recorded file steps = [first] := by decide +kernel
  have hyear : first.createdAt.HasFourDigitYear := by decide +kernel
  have hbad : ¬ fourth.createdAt.HasFourDigitYear := by decide +kernel
  refine ⟨hnew, hrecorded, ?_, ?_, ?_⟩
  · have h := (Journal.recent_run file hnew steps 2 (.ofUnix 0 0) fourth).2
    rw [if_pos (by decide), hsteps] at h
    exact h.1 fun e he => by rwa [List.mem_singleton.1 he]
  · have h := (Journal.recent_run file hnew all (-1) (.ofUnix 0 0) fourth).2
    rw [if_pos (by decide), hrecorded] at h
    exact h.2.2 ⟨fourth, List.mem_cons_self, hbad⟩
  · have h := (Journal.recent_run file hnew (steps.take 3) 2 (.ofUnix 0 0) fourth).2
    rw [if_neg (by decide)] at h
    exact h.2.1

end SqlDialect
