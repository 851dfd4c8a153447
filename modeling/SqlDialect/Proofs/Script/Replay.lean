import SqlDialect.Script.Replay

set_option autoImplicit false

/-! # What a replay executes

A replay goes through the statements of its files, converts them in one session and executes what
comes out. Its two nested loops come down to one list, `handled`: every statement in its place with
its conversion and the executor's answer. Of that list the replay goes through all or, if it stops
at failures, through the part that ends with the first failure (`processed`). `Extends` says what a
stretch of handled statements does to a replay: to its counters, its calls, its journal and the
reports on a journal that cannot be written. One step extends a replay by one statement, stretches
compose, and so the whole run is an extension. -/

namespace SqlDialect

/-! ## Statements, outputs and answers -/

namespace Converter

variable {κ : Type} [Cache κ]

/-- The outputs of statements that are converted in order in one session. -/
def outputs (c : Converter κ) (s : Session) : List Bytes → List Bytes
  | [] => []
  | sql :: rest =>
    let r := c.convert (some s) sql
    r.output :: r.converter.outputs (r.session.getD s) rest

/-- The converter and the session after some statements. -/
def afterAll (c : Converter κ) (s : Session) : List Bytes → Converter κ × Session
  | [] => (c, s)
  | sql :: rest =>
    let r := c.convert (some s) sql
    r.converter.afterAll (r.session.getD s) rest

theorem length_outputs (c : Converter κ) (s : Session) (sqls : List Bytes) :
    (c.outputs s sqls).length = sqls.length := by
  induction sqls generalizing c s with
  | nil => rfl
  | cons sql rest ih => rw [outputs, List.length_cons, ih, List.length_cons]

theorem outputs_append (c : Converter κ) (s : Session) (sqls rest : List Bytes) :
    c.outputs s (sqls ++ rest)
      = c.outputs s sqls ++ (c.afterAll s sqls).1.outputs (c.afterAll s sqls).2 rest := by
  induction sqls generalizing c s with
  | nil => rfl
  | cons sql sqls ih =>
    rw [List.cons_append, outputs, ih]
    rfl

theorem afterAll_append (c : Converter κ) (s : Session) (sqls rest : List Bytes) :
    c.afterAll s (sqls ++ rest)
      = (c.afterAll s sqls).1.afterAll (c.afterAll s sqls).2 rest := by
  induction sqls generalizing c s with
  | nil => rfl
  | cons sql sqls ih =>
    rw [List.cons_append, afterAll, ih]
    rfl

end Converter

namespace Replay

/-- A statement in its place: the file that holds it and its number there, counted from 1. -/
structure Placed where
  file : Bytes
  index : Nat
  sql : Bytes
deriving Repr, DecidableEq

/-- The statements of a file from the given number on. -/
def placedIn (file : Bytes) (index : Nat) (sqls : List Bytes) : List Placed :=
  sqls.mapIdx fun i sql => ⟨file, index + i, sql⟩

/-- The statements of the files in front of the first that cannot be read. -/
def placed : List (Bytes × Except FileError Bytes) → List Placed
  | [] => []
  | (_, .error _) :: _ => []
  | (file, .ok script) :: rest => placedIn file 1 (splitStatements script) ++ placed rest

/-- The error about the first file that cannot be read. -/
def unreadable? : List (Bytes × Except FileError Bytes) → Option ReplayError
  | [] => none
  | (file, .error e) :: _ => some (.unreadable file e)
  | (_, .ok _) :: rest => unreadable? rest

/-- A statement in its place with its conversion and the executor's answer. -/
structure Handled where
  statement : Placed
  output : Bytes
  error : Option Bytes
deriving Repr, DecidableEq

namespace Handled

/-- Whether the statement has failed. -/
def hasFailed (h : Handled) : Bool :=
  h.error.isSome

/-- The error that ends a replay at a failure. -/
def failure? (h : Handled) : Option ReplayError :=
  h.error.map fun e => .failed h.statement.file h.statement.index e h.output

end Handled

variable {κ : Type} [Cache κ]

/-- The statements with their conversions and the executor's answers. -/
def handled (exec : Option Executor) (c : Converter κ) (s : Session) (ps : List Placed) :
    List Handled :=
  List.zipWith (fun p out => ⟨p, out, exec.bind fun execute => execute out⟩) ps
    (c.outputs s (ps.map Placed.sql))

/-- The part of the handled statements that a replay goes through. -/
def processed : OnError → List Handled → List Handled
  | .goOn, hs => hs
  | .stop, hs => hs.take (hs.findIdx Handled.hasFailed + 1)

/-- The failure that ends a replay. -/
def stoppedBy? : OnError → List Handled → Option ReplayError
  | .goOn, _ => none
  | .stop, hs => hs.findSome? Handled.failure?

theorem placedIn_cons (file : Bytes) (index : Nat) (sql : Bytes) (sqls : List Bytes) :
    placedIn file index (sql :: sqls)
      = ⟨file, index, sql⟩ :: placedIn file (index + 1) sqls := by
  simp only [placedIn, List.mapIdx_cons, Nat.add_zero]
  congr 2
  funext i sql
  rw [Nat.add_assoc, Nat.add_comm 1 i]

theorem handled_cons (exec : Option Executor) (c : Converter κ) (s : Session) (p : Placed)
    (ps : List Placed) :
    handled exec c s (p :: ps)
      = ⟨p, (c.convert (some s) p.sql).output,
          exec.bind fun execute => execute (c.convert (some s) p.sql).output⟩
        :: handled exec (c.convert (some s) p.sql).converter
            ((c.convert (some s) p.sql).session.getD s) ps :=
  rfl

theorem handled_append (exec : Option Executor) (c : Converter κ) (s : Session)
    (ps qs : List Placed) :
    handled exec c s (ps ++ qs)
      = handled exec c s ps ++ handled exec (c.afterAll s (ps.map Placed.sql)).1
          (c.afterAll s (ps.map Placed.sql)).2 qs := by
  rw [handled, List.map_append, Converter.outputs_append, List.zipWith_append]
  · rfl
  · rw [Converter.length_outputs, List.length_map]

theorem map_statement_handled (exec : Option Executor) (c : Converter κ) (s : Session)
    (ps : List Placed) : (handled exec c s ps).map Handled.statement = ps := by
  induction ps generalizing c s with
  | nil => rfl
  | cons p ps ih => rw [handled_cons, List.map_cons, ih]

theorem map_output_handled (exec : Option Executor) (c : Converter κ) (s : Session)
    (ps : List Placed) :
    (handled exec c s ps).map Handled.output = c.outputs s (ps.map Placed.sql) := by
  induction ps generalizing c s with
  | nil => rfl
  | cons p ps ih =>
    rw [handled_cons, List.map_cons, ih]
    rfl

theorem processed_cons (onError : OnError) (h : Handled) (hs : List Handled) :
    processed onError (h :: hs)
      = if onError = .stop ∧ h.hasFailed = true then [h] else h :: processed onError hs := by
  cases onError with
  | goOn => simp [processed]
  | stop => cases hfail : h.hasFailed <;> simp [processed, List.findIdx_cons, hfail]

theorem stoppedBy?_cons (onError : OnError) (h : Handled) (hs : List Handled) :
    stoppedBy? onError (h :: hs)
      = if onError = .stop ∧ h.hasFailed = true then h.failure? else stoppedBy? onError hs := by
  cases onError with
  | goOn => simp [stoppedBy?]
  | stop =>
    cases hfail : h.error <;>
      simp [stoppedBy?, Handled.hasFailed, Handled.failure?, hfail]

/-- What follows a failure at which the replay stops is not reached. -/
theorem processed_append (onError : OnError) (hs more : List Handled) :
    processed onError (hs ++ more)
      = if stoppedBy? onError hs = none then hs ++ processed onError more
        else processed onError hs := by
  induction hs with
  | nil => cases onError <;> simp [stoppedBy?]
  | cons h hs ih =>
    rw [List.cons_append, processed_cons, ih, processed_cons, stoppedBy?_cons]
    by_cases hstop : onError = .stop ∧ h.hasFailed = true
    · have hfail : h.failure? ≠ none := by
        simpa [Handled.hasFailed, Handled.failure?, Option.isSome_iff_ne_none] using hstop.2
      simp [hstop, hfail]
    · simp only [hstop, if_false]
      split <;> rfl

theorem processed_of_not_stopped {onError : OnError} {hs : List Handled}
    (h : stoppedBy? onError hs = none) : processed onError hs = hs := by
  have happend := processed_append onError hs []
  rw [List.append_nil, if_pos h] at happend
  rw [happend]
  cases onError <;> exact List.append_nil hs

theorem stoppedBy?_append (onError : OnError) (hs more : List Handled) :
    stoppedBy? onError (hs ++ more)
      = (stoppedBy? onError hs).or (stoppedBy? onError more) := by
  cases onError with
  | goOn => rfl
  | stop => exact List.findSome?_append

end Replay

/-! ## The journal -/

namespace Journal

variable {δ : Type} [Database δ]

/-- The database after an attempt to add some rows, one after the other. -/
def insertAll (db : δ) (rows : List JournalRow) : δ :=
  rows.foldl (fun db row => (Database.insert db row).2) db

/-- How many of the rows are refused. -/
def refusals (db : δ) : List JournalRow → Nat
  | [] => 0
  | row :: rows =>
    (if (Database.insert db row).1.isSome then 1 else 0) + refusals (Database.insert db row).2 rows

theorem insertAll_append (db : δ) (rows more : List JournalRow) :
    insertAll db (rows ++ more) = insertAll (insertAll db rows) more :=
  List.foldl_append

theorem refusals_append (db : δ) (rows more : List JournalRow) :
    refusals db (rows ++ more) = refusals db rows + refusals (insertAll db rows) more := by
  induction rows generalizing db with
  | nil => exact (Nat.zero_add _).symm
  | cons row rows ih =>
    rw [List.cons_append, refusals, ih, refusals, Nat.add_assoc]
    rfl

end Journal

namespace Job

variable {κ δ : Type}

/-- The row for a statement; `error` is the error that the target has reported. -/
def row (j : Job κ δ) (input output : Bytes) (error : Option Bytes) : JournalRow :=
  .ofEntry j.now (j.entry input output error)

/-- How many of the rows the journal of a job refuses; none if there is no journal. -/
def refusals [Database δ] (j : Job κ δ) (rows : List JournalRow) : Nat :=
  j.journal.elim 0 (Journal.refusals · rows)

/-- Whether the entry reports that the journal could not be written. -/
def reportsJournal (e : LogEntry) : Bool :=
  e.level == .warn && e.logger.isEmpty && e.message == ascii "journal write failed"

/-- How often the job has reported that its journal could not be written. -/
def journalReports (j : Job κ δ) : Nat :=
  j.log.countP reportsJournal

theorem journalReports_report (j : Job κ δ) {e : LogEntry} (he : reportsJournal e = false) :
    (j.report e).journalReports = j.journalReports := by
  simp [journalReports, report, he]

/-- The converter speaks under a name of its own. -/
theorem journalReports_convert [Cache κ] (j : Job κ δ) (sql : Bytes) :
    (j.convert sql).1.journalReports = j.journalReports := by
  have hname : converterLogger.isEmpty = false := rfl
  simp [journalReports, convert, List.countP_map, Function.comp_def, reportsJournal, hname]

/-- A note is an attempt to add a row to the journal; it is reported if the row is refused. -/
theorem note_eq [Database δ] (j : Job κ δ) (input output : Bytes) (error : Option Bytes) :
    ∃ log, j.note input output error
        = { j with
            journal := j.journal.map (Journal.insertAll · [j.row input output error])
            log } ∧
      log.countP reportsJournal
        = j.journalReports + j.refusals [j.row input output error] := by
  obtain ⟨converter, session, journal, command, now, log⟩ := j
  cases journal with
  | none => exact ⟨log, rfl, rfl⟩
  | some db =>
    let j : Job κ δ := ⟨converter, session, some db, command, now, log⟩
    rcases hinsert : Database.insert db (j.row input output error) with ⟨failure, db'⟩
    have hrecord : Journal.record db now (j.entry input output error)
        = (db', failure.map .insert) := by
      rw [Journal.record, show JournalRow.ofEntry now (j.entry input output error)
        = j.row input output error from rfl, hinsert]
    cases failure with
    | none =>
      refine ⟨log, ?_, ?_⟩
      · simp [j, note, hrecord, Journal.insertAll, hinsert]
      · simp [j, journalReports, refusals, Journal.refusals, hinsert]
    | some text =>
      refine ⟨(j.report
        { level := .warn
          message := ascii "journal write failed"
          fields := [(ascii "error", .text (JournalError.insert text).message)] }).log, ?_, ?_⟩
      · simp [j, note, hrecord, Journal.insertAll, hinsert, report]
      · simp [j, journalReports, refusals, Journal.refusals, hinsert, reportsJournal, report]

end Job

/-! ## Steps and runs -/

namespace Replay

/-- The row for a handled statement. -/
def Handled.row {κ δ : Type} (h : Handled) (job : Job κ δ) : JournalRow :=
  job.row h.statement.sql h.output h.error

variable {κ δ : Type} [Cache κ] [Database δ]

/-- What has changed in a replay after some more handled statements. -/
structure Extends (exec : Option Executor) (r : Replay κ δ) (done : List Handled) (r' : Replay κ δ) :
    Prop where
  command : r'.job.command = r.job.command
  now : r'.job.now = r.job.now
  state : (r'.job.converter, r'.job.session)
    = r.job.converter.afterAll r.job.session (done.map (·.statement.sql))
  calls : r'.calls = if exec.isSome then r.calls ++ done.map Handled.output else r.calls
  statements : r'.statements = r.statements + done.length
  failed : r'.failed = r.failed + done.countP Handled.hasFailed
  journal : r'.job.journal
    = r.job.journal.map (Journal.insertAll · (done.map (Handled.row · r.job)))
  reports : r'.job.journalReports
    = r.job.journalReports + r.job.refusals (done.map (Handled.row · r.job))

namespace Extends

variable {exec : Option Executor} {r r₁ r₂ : Replay κ δ} {done₁ done₂ : List Handled}

theorem row_eq (h : Extends exec r done₁ r₁) (x : Handled) : x.row r₁.job = x.row r.job := by
  rw [Handled.row, Job.row, Job.entry, h.command, h.now]
  rfl

theorem trans (h₁ : Extends exec r done₁ r₁) (h₂ : Extends exec r₁ done₂ r₂) :
    Extends exec r (done₁ ++ done₂) r₂ where
  command := h₂.command.trans h₁.command
  now := h₂.now.trans h₁.now
  state := by
    rw [List.map_append, Converter.afterAll_append, ← h₁.state, h₂.state]
  calls := by
    rw [h₂.calls, h₁.calls]
    split <;> simp
  statements := by rw [h₂.statements, h₁.statements, List.length_append, Nat.add_assoc]
  failed := by rw [h₂.failed, h₁.failed, List.countP_append, Nat.add_assoc]
  journal := by
    rw [h₂.journal, h₁.journal, Option.map_map, List.map_append]
    simp only [h₁.row_eq, Function.comp_def, Journal.insertAll_append]
  reports := by
    rw [h₂.reports, h₁.reports, Nat.add_assoc, List.map_append]
    simp only [h₁.row_eq, Job.refusals, h₁.journal]
    cases r.job.journal with
    | none => rfl
    | some db =>
      simp only [Option.map_some, Option.elim_some, Journal.refusals_append]

theorem refl (r : Replay κ δ) : Extends exec r [] r where
  command := rfl
  now := rfl
  state := rfl
  calls := by simp
  statements := rfl
  failed := rfl
  journal := by simp [Journal.insertAll]
  reports := by cases h : r.job.journal <;> simp [Job.refusals, Journal.refusals, h]

/-- Reporting and counting files handles no statement. -/
theorem report (r : Replay κ δ) (files : Nat) {e : LogEntry} (he : Job.reportsJournal e = false) :
    Extends exec r [] { r with job := r.job.report e, files } where
  command := rfl
  now := rfl
  state := rfl
  calls := by simp
  statements := rfl
  failed := rfl
  journal := by simp [Journal.insertAll, Job.report]
  reports := by
    rw [r.job.journalReports_report he]
    cases h : r.job.journal <;> simp [Job.refusals, Journal.refusals, h]

end Extends

/-- A step converts a statement, executes it and makes a note of it. -/
theorem step_eq (r : Replay κ δ) (exec : Option Executor) (sql : Bytes) :
    let conversion := r.job.converter.convert (some r.job.session) sql
    let error := exec.bind fun execute => execute conversion.output
    ∃ log,
      r.step exec sql
        = ({ r with
              job := { r.job with
                converter := conversion.converter
                session := conversion.session.getD r.job.session
                journal := r.job.journal.map
                  (Journal.insertAll · [r.job.row sql conversion.output error])
                log }
              statements := r.statements + 1
              failed := if error.isSome then r.failed + 1 else r.failed
              calls := if exec.isSome then r.calls ++ [conversion.output] else r.calls },
            conversion.output, error) ∧
      log.countP Job.reportsJournal
        = r.job.journalReports + r.job.refusals [r.job.row sql conversion.output error] := by
  intro conversion error
  obtain ⟨log, hnote, hlog⟩ := (r.job.convert sql).1.note_eq sql conversion.output error
  rw [r.job.journalReports_convert sql] at hlog
  refine ⟨log, ?_, hlog⟩
  calc r.step exec sql
      = ({ r with
            job := (r.job.convert sql).1.note sql conversion.output error
            statements := r.statements + 1
            failed := if error.isSome then r.failed + 1 else r.failed
            calls := if exec.isSome then r.calls ++ [conversion.output] else r.calls },
          conversion.output, error) := rfl
    _ = _ := by rw [hnote]; rfl

/-- The statement that a step handles. -/
def handledBy (r : Replay κ δ) (exec : Option Executor) (p : Placed) : Handled :=
  ⟨p, (r.step exec p.sql).2.1, (r.step exec p.sql).2.2⟩

theorem handled_step (r : Replay κ δ) (exec : Option Executor) (p : Placed) (ps : List Placed) :
    handled exec r.job.converter r.job.session (p :: ps)
      = r.handledBy exec p :: handled exec (r.step exec p.sql).1.job.converter
          (r.step exec p.sql).1.job.session ps := by
  obtain ⟨log, hstep, -⟩ := r.step_eq exec p.sql
  rw [handled_cons, handledBy, hstep]

theorem extends_step (r : Replay κ δ) (exec : Option Executor) (p : Placed) :
    Extends exec r [r.handledBy exec p] (r.step exec p.sql).1 := by
  obtain ⟨log, hstep, hlog⟩ := r.step_eq exec p.sql
  rw [handledBy, hstep]
  exact
    { command := rfl
      now := rfl
      state := rfl
      calls := rfl
      statements := rfl
      failed := by
        rw [List.countP_singleton, Handled.hasFailed]
        split <;> simp_all
      journal := rfl
      reports := hlog }

/-- The statements of a file are processed in order. -/
theorem extends_runStatements (exec : Option Executor) (onError : OnError) (file : Bytes)
    (index : Nat) (r : Replay κ δ) (sqls : List Bytes) :
    Extends exec r
        (processed onError
          (handled exec r.job.converter r.job.session (placedIn file index sqls)))
        (runStatements exec onError file index r sqls).1 ∧
      (runStatements exec onError file index r sqls).2
        = stoppedBy? onError
            (handled exec r.job.converter r.job.session (placedIn file index sqls)) := by
  induction sqls generalizing index r with
  | nil => cases onError <;> exact ⟨.refl r, rfl⟩
  | cons sql rest ih =>
    have hone := r.extends_step exec ⟨file, index, sql⟩
    rw [placedIn_cons, handled_step, processed_cons, stoppedBy?_cons, runStatements]
    rcases hstep : r.step exec sql with ⟨r', out, error⟩
    simp only [handledBy, hstep] at hone ⊢
    cases error with
    | none =>
      obtain ⟨hrest, herror⟩ := ih (index + 1) r'
      simpa [Handled.hasFailed] using ⟨hone.trans hrest, herror⟩
    | some e =>
      cases onError with
      | stop => simpa [Handled.hasFailed, Handled.failure?] using hone
      | goOn =>
        have hreport : Extends exec r' [] { r' with job := r'.job.report _ } :=
          .report r' r'.files (e := failure file index e out) rfl
        obtain ⟨hrest, herror⟩ := ih (index + 1) { r' with job := r'.job.report _ }
        simpa [Handled.hasFailed, stoppedBy?] using
          ⟨hone.trans (hreport.trans hrest), herror⟩

/-- A file that can be read is announced, counted and processed. -/
theorem extends_file (exec : Option Executor) (onError : OnError) (file message : Bytes)
    (r : Replay κ δ) (sqls : List Bytes) :
    let hs := handled exec r.job.converter r.job.session (placedIn file 1 sqls)
    let ran := runStatements exec onError file 1
      { r with job := r.job.inform message, files := r.files + 1 } sqls
    Extends exec r (processed onError hs) ran.1 ∧ ran.2 = stoppedBy? onError hs := by
  intro hs ran
  have hfile : Extends exec r [] { r with job := r.job.inform message, files := r.files + 1 } :=
    Extends.report r (r.files + 1) (e := { level := .info, message }) rfl
  obtain ⟨hstatements, herror⟩ := extends_runStatements exec onError file 1
    { r with job := r.job.inform message, files := r.files + 1 } sqls
  exact ⟨hfile.trans hstatements, herror⟩

/-- The files are processed in order, up to the first that cannot be read. -/
theorem extends_runFiles (exec : Option Executor) (onError : OnError) (r : Replay κ δ)
    (files : List (Bytes × Except FileError Bytes)) :
    let hs := handled exec r.job.converter r.job.session (placed files)
    Extends exec r (processed onError hs) (runFiles exec onError r files).1 ∧
      (runFiles exec onError r files).2 = (stoppedBy? onError hs).or (unreadable? files) := by
  fun_induction placed files generalizing r with
  | case1 => cases onError <;> exact ⟨.refl r, rfl⟩
  | case2 => cases onError <;> exact ⟨.refl r, rfl⟩
  | case3 file script rest ih =>
    obtain ⟨hfile, herror⟩ := extends_file exec onError file
      (ascii "    " ++ file ++ ascii ": " ++ Bytes.decimal (splitStatements script).length ++
        ascii " statements") r (splitStatements script)
    dsimp only
    rw [handled_append, processed_append, stoppedBy?_append, runFiles]
    generalize runStatements exec onError file 1 (_ : Replay κ δ) (splitStatements script) = ran
      at hfile herror ⊢
    obtain ⟨r', error⟩ := ran
    have hplaced := map_statement_handled exec r.job.converter r.job.session
      (placedIn file 1 (splitStatements script))
    generalize handled exec r.job.converter r.job.session
      (placedIn file 1 (splitStatements script)) = hs at hfile herror hplaced ⊢
    dsimp only at herror
    cases error with
    | some e => simpa [← herror] using hfile
    | none =>
      rw [processed_of_not_stopped herror.symm] at hfile
      have hstate := hfile.state
      rw [show hs.map (·.statement.sql) = (hs.map Handled.statement).map Placed.sql by simp,
        hplaced] at hstate
      obtain ⟨hrest, herror'⟩ := ih r'
      rw [← herror, if_pos rfl, ← hstate]
      exact ⟨hfile.trans hrest, by simpa [unreadable?] using herror'⟩

theorem extends_run (exec : Option Executor) (onError : OnError) (job : Job κ δ)
    (files : List (Bytes × Except FileError Bytes)) :
    let hs := handled exec job.converter job.session (placed files)
    Extends exec { job } (processed onError hs) (run exec onError job files).1 ∧
      (run exec onError job files).2 = (stoppedBy? onError hs).or (unreadable? files) := by
  rw [run]
  split
  · rename_i hfiles
    rw [List.isEmpty_iff] at hfiles
    subst hfiles
    cases onError <;> exact ⟨.refl _, rfl⟩
  · let started : Replay κ δ :=
      { job := job.inform (ascii "  replaying " ++ Bytes.decimal files.length ++
          ascii " files...") }
    have hstart : Extends exec { job } [] started :=
      Extends.report { job } 0 (e := { level := .info, message := _ }) rfl
    obtain ⟨hrun, herror⟩ := extends_runFiles exec onError started files
    exact ⟨hstart.trans hrun, herror⟩

/-! ## Any journal -/

/-- Two replays that differ in nothing but their journals and their logs. -/
structure Agree (r r' : Replay κ δ) : Prop where
  converter : r'.job.converter = r.job.converter
  session : r'.job.session = r.job.session
  files : r'.files = r.files
  statements : r'.statements = r.statements
  failed : r'.failed = r.failed
  calls : r'.calls = r.calls

omit [Cache κ] [Database δ] in
theorem Agree.report {r r' : Replay κ δ} (h : Agree r r') (e e' : LogEntry) (files : Nat) :
    Agree { r with job := r.job.report e, files := r.files + files }
      { r' with job := r'.job.report e', files := r'.files + files } :=
  ⟨h.converter, h.session, by rw [h.files], h.statements, h.failed, h.calls⟩

theorem Agree.step {r r' : Replay κ δ} (h : Agree r r') (exec : Option Executor) (sql : Bytes) :
    Agree (r.step exec sql).1 (r'.step exec sql).1 ∧
      (r'.step exec sql).2 = (r.step exec sql).2 := by
  obtain ⟨log, hstep, -⟩ := r.step_eq exec sql
  obtain ⟨log', hstep', -⟩ := r'.step_eq exec sql
  rw [hstep, hstep', h.converter, h.session, h.statements, h.failed, h.calls]
  exact ⟨⟨rfl, rfl, h.files, rfl, rfl, rfl⟩, rfl⟩

theorem Agree.runStatements {r r' : Replay κ δ} (h : Agree r r') (exec : Option Executor)
    (onError : OnError) (file : Bytes) (index : Nat) (sqls : List Bytes) :
    Agree (runStatements exec onError file index r sqls).1
        (runStatements exec onError file index r' sqls).1 ∧
      (runStatements exec onError file index r' sqls).2
        = (runStatements exec onError file index r sqls).2 := by
  induction sqls generalizing index r r' with
  | nil => exact ⟨h, rfl⟩
  | cons sql rest ih =>
    obtain ⟨hstep, hanswer⟩ := h.step exec sql
    rw [Replay.runStatements, Replay.runStatements]
    generalize r.step exec sql = ran at hstep hanswer ⊢
    generalize r'.step exec sql = ran' at hstep hanswer ⊢
    obtain ⟨r₁, out, error⟩ := ran
    obtain ⟨r₁', out', error'⟩ := ran'
    obtain ⟨rfl, rfl⟩ := Prod.mk.inj hanswer
    cases error' with
    | none => exact ih hstep (index + 1)
    | some e =>
      cases onError with
      | stop => exact ⟨hstep, rfl⟩
      | goOn => exact ih (hstep.report _ _ 0) (index + 1)

theorem Agree.runFiles {r r' : Replay κ δ} (h : Agree r r') (exec : Option Executor)
    (onError : OnError) (files : List (Bytes × Except FileError Bytes)) :
    Agree (runFiles exec onError r files).1 (runFiles exec onError r' files).1 ∧
      (runFiles exec onError r' files).2 = (runFiles exec onError r files).2 := by
  fun_induction placed files generalizing r r' with
  | case1 => exact ⟨h, rfl⟩
  | case2 => exact ⟨h, rfl⟩
  | case3 file script rest ih =>
    rw [Replay.runFiles, Replay.runFiles]
    generalize ascii "    " ++ file ++ ascii ": " ++
      Bytes.decimal (splitStatements script).length ++ ascii " statements" = message
    have hfile : Agree { r with job := r.job.inform message, files := r.files + 1 }
        { r' with job := r'.job.inform message, files := r'.files + 1 } :=
      h.report { level := .info, message } { level := .info, message } 1
    obtain ⟨hran, herror⟩ := hfile.runStatements exec onError file 1 (splitStatements script)
    generalize Replay.runStatements exec onError file 1
      { r with job := r.job.inform message, files := r.files + 1 } _ = ran at hran herror ⊢
    generalize Replay.runStatements exec onError file 1
      { r' with job := r'.job.inform message, files := r'.files + 1 } _ = ran' at hran herror ⊢
    obtain ⟨r₁, error⟩ := ran
    obtain ⟨r₁', error'⟩ := ran'
    obtain rfl : error' = error := herror
    cases error' with
    | some e => exact ⟨hran, rfl⟩
    | none => exact ih hran

theorem agree_run (exec : Option Executor) (onError : OnError) (job : Job κ δ)
    (journal : Option δ) (files : List (Bytes × Except FileError Bytes)) :
    Agree (run exec onError job files).1 (run exec onError { job with journal } files).1 ∧
      (run exec onError { job with journal } files).2 = (run exec onError job files).2 := by
  rw [run, run]
  split
  · exact ⟨⟨rfl, rfl, rfl, rfl, rfl, rfl⟩, rfl⟩
  · have hstart : Agree { job } { job := { job with journal } } := ⟨rfl, rfl, rfl, rfl, rfl, rfl⟩
    exact (hstart.report { level := .info, message := _ } { level := .info, message := _ }
      0).runFiles exec onError files

/-! ## The whole replay -/

theorem processed_eq_take (onError : OnError) (hs : List Handled) :
    processed onError hs = hs.take (processed onError hs).length := by
  cases onError with
  | goOn => exact List.take_length.symm
  | stop => rw [processed, List.length_take, ← List.take_eq_take_min]

theorem countP_processed_stop (hs : List Handled) :
    (processed .stop hs).countP Handled.hasFailed ≤ 1 := by
  induction hs with
  | nil => exact Nat.zero_le 1
  | cons h hs ih =>
    rw [processed_cons]
    by_cases hfail : h.hasFailed = true
    · simp [hfail]
    · simpa [hfail] using ih

section

variable (exec : Option Executor) (c : Converter κ) (s : Session) (ps : List Placed)

theorem handled_eq_map :
    handled exec c s ps
      = (ps.zip (c.outputs s (ps.map Placed.sql))).map
          fun x => ⟨x.1, x.2, exec.bind fun execute => execute x.2⟩ := by
  rw [handled, List.zip, List.map_zipWith]

theorem length_handled : (handled exec c s ps).length = ps.length := by
  rw [← List.length_map Handled.statement, map_statement_handled]

theorem countP_handled (execute : Executor) :
    (handled (some execute) c s ps).countP Handled.hasFailed
      = (c.outputs s (ps.map Placed.sql)).countP fun out => (execute out).isSome := by
  rw [← map_output_handled (some execute), List.countP_map, handled_eq_map, List.countP_map,
    List.countP_map]
  rfl

theorem map_output_processed_stop (execute : Executor) :
    (processed .stop (handled (some execute) c s ps)).map Handled.output
      = (c.outputs s (ps.map Placed.sql)).take
          ((c.outputs s (ps.map Placed.sql)).findIdx (fun out => (execute out).isSome) + 1) := by
  have hindex : (handled (some execute) c s ps).findIdx Handled.hasFailed
      = (c.outputs s (ps.map Placed.sql)).findIdx fun out => (execute out).isSome := by
    rw [← map_output_handled (some execute), List.findIdx_map, handled_eq_map, List.findIdx_map,
      List.findIdx_map]
    rfl
  rw [processed, List.map_take, map_output_handled, hindex]

theorem stoppedBy?_stop_handled (execute : Executor) :
    stoppedBy? .stop (handled (some execute) c s ps)
      = (ps.zip (c.outputs s (ps.map Placed.sql))).findSome? fun x =>
          (execute x.2).map fun e => .failed x.1.file x.1.index e x.2 := by
  rw [stoppedBy?, handled_eq_map, List.findSome?_map]
  rfl

/-- Nothing fails that is not executed. -/
theorem not_hasFailed_handled_none : ∀ h ∈ handled none c s ps, ¬ h.hasFailed = true := by
  intro h hh
  rw [handled_eq_map] at hh
  obtain ⟨x, -, rfl⟩ := List.mem_map.1 hh
  exact Bool.false_ne_true

theorem processed_handled_none (onError : OnError) :
    stoppedBy? onError (handled none c s ps) = none ∧
      processed onError (handled none c s ps) = handled none c s ps := by
  have hstopped : stoppedBy? onError (handled none c s ps) = none := by
    cases onError with
    | goOn => rfl
    | stop =>
      rw [stoppedBy?, List.findSome?_eq_none_iff]
      intro h hh
      simpa [Handled.hasFailed, Handled.failure?] using not_hasFailed_handled_none c s ps h hh
  exact ⟨hstopped, processed_of_not_stopped hstopped⟩

end

omit [Database δ] in
/-- The rows of the handled statements. -/
theorem map_row_handled (exec : Option Executor) (job : Job κ δ) (ps : List Placed) (n : Nat) :
    ((handled exec job.converter job.session ps).take n).map (Handled.row · job)
      = ((ps.zip (job.converter.outputs job.session (ps.map Placed.sql))).take n).map fun x =>
          ⟨job.command, (Kind.ofStatement x.1.sql).name, x.1.sql, x.2,
            (exec.bind fun execute => execute x.2).getD [], job.now.timestamp⟩ := by
  rw [handled_eq_map, ← List.map_take, List.map_map]
  apply List.map_congr_left
  intro x _
  simp only [Function.comp_apply, Handled.row, Job.row, JournalRow.ofEntry, Job.entry, if_true]

/-- **A replay executes exactly what it should.** With `W` the statements of the files in front of the
first unreadable one and `O` their conversions in one session: a replay that goes on executes all of
`O` and counts the failures; one that stops executes `O` up to the first failure and returns it;
without an executor nothing is executed, and what the journal is given is, but for the errors, what a
replay that goes on gives it. In every mode one row is given to the journal for each statement that
was gone through, in order and with the error of that statement's own execution. The rows that the
journal refuses, be it all of them or single ones, are reported; and whatever the journal is, calls,
counters and error are the same. -/
theorem run_exact (execute : Executor) (exec : Option Executor) (onError : OnError) (job : Job κ δ)
    (files : List (Bytes × Except FileError Bytes)) :
    let W := placed files
    let O := job.converter.outputs job.session (W.map Placed.sql)
    let fails := fun out => (execute out).isSome
    let all := run (some execute) .goOn job files
    let first := run (some execute) .stop job files
    let dry := run none onError job files
    let any := run exec onError job files
    let row := fun (exec : Option Executor) (x : Placed × Bytes) =>
      ({ command := job.command
         kind := (Kind.ofStatement x.1.sql).name
         input := x.1.sql
         output := x.2
         error := (exec.bind fun execute => execute x.2).getD []
         createdAt := job.now.timestamp } : JournalRow)
    let content := fun row : JournalRow => (row.kind, row.input, row.output)
    let attempts := ((W.zip O).take any.1.statements).map (row exec)
    let dryRows := (W.zip O).map (row none)
    let allRows := (W.zip O).map (row (some execute))
    (all.1.calls = O ∧ all.1.statements = W.length ∧ all.1.failed = O.countP fails ∧
      all.2 = unreadable? files) ∧
    (first.1.calls = O.take (O.findIdx fails + 1) ∧ first.1.statements = first.1.calls.length ∧
      first.1.failed ≤ 1 ∧
      first.2 = ((W.zip O).findSome? fun x =>
        (execute x.2).map fun e => .failed x.1.file x.1.index e x.2).or (unreadable? files)) ∧
    (dry.1.calls = [] ∧ dry.1.failed = 0 ∧ dry.2 = unreadable? files ∧
      dry.1.job.journal = job.journal.map (Journal.insertAll · dryRows) ∧
      all.1.job.journal = job.journal.map (Journal.insertAll · allRows) ∧
      dryRows.map content = allRows.map content) ∧
    (attempts.length = any.1.statements ∧
      any.1.job.journal = job.journal.map (Journal.insertAll · attempts) ∧
      any.1.job.journalReports = job.journalReports + job.refusals attempts) ∧
    ∀ journal : Option δ, let other := run exec onError { job with journal } files
      other.1.calls = any.1.calls ∧ other.1.files = any.1.files ∧
        other.1.statements = any.1.statements ∧ other.1.failed = any.1.failed ∧
        other.2 = any.2 := by
  intro W O fails all first dry any row content attempts dryRows allRows
  obtain ⟨hall, hallError⟩ := extends_run (some execute) .goOn job files
  obtain ⟨hfirst, hfirstError⟩ := extends_run (some execute) .stop job files
  obtain ⟨hdry, hdryError⟩ := extends_run none onError job files
  obtain ⟨hany, -⟩ := extends_run exec onError job files
  have hrows : ∀ exec, (handled exec job.converter job.session W).map (Handled.row · job)
      = (W.zip O).map (row exec) := by
    intro exec
    have h := map_row_handled exec job W (handled exec job.converter job.session W).length
    rwa [List.take_length, length_handled, ← show (W.zip O).length = W.length by
      rw [List.length_zip, Converter.length_outputs, List.length_map, Nat.min_self],
      List.take_length] at h
  -- the rows are those of the statements that were processed, with the answers they got
  have hattempts : attempts
      = (processed onError (handled exec job.converter job.session W)).map
          (Handled.row · job) := by
    have hstatements : any.1.statements = (processed onError
        (handled exec job.converter job.session W)).length :=
      hany.statements.trans (Nat.zero_add _)
    rw [processed_eq_take, ← hstatements, map_row_handled]
  have hlength : attempts.length = any.1.statements := by
    rw [hattempts, List.length_map, hany.statements, Nat.zero_add]
  refine ⟨⟨?_, ?_, ?_, hallError⟩, ⟨?_, ?_, ?_, ?_⟩, ⟨?_, ?_, ?_, ?_, ?_, ?_⟩,
    ⟨hlength, ?_, ?_⟩, ?_⟩
  · rw [hall.calls, processed, map_output_handled]
    rfl
  · rw [hall.statements, processed, length_handled]
    exact Nat.zero_add _
  · rw [hall.failed, processed, countP_handled]
    exact Nat.zero_add _
  · rw [hfirst.calls, map_output_processed_stop]
    rfl
  · rw [hfirst.statements, hfirst.calls]
    simp
  · rw [hfirst.failed]
    simpa using countP_processed_stop _
  · rw [hfirstError, stoppedBy?_stop_handled]
  · rw [hdry.calls]
    rfl
  · rw [hdry.failed, (processed_handled_none _ _ _ onError).2,
      List.countP_eq_zero.2 (not_hasFailed_handled_none _ _ _)]
  · rw [hdryError, (processed_handled_none _ _ _ onError).1]
    rfl
  · rw [hdry.journal, (processed_handled_none _ _ _ onError).2, hrows]
  · rw [hall.journal, processed, hrows]
  · rw [List.map_map, List.map_map]
    rfl
  · rw [hany.journal, hattempts]
  · rw [hany.reports, hattempts]
  · intro journal
    obtain ⟨h, herror⟩ := agree_run exec onError job journal files
    exact ⟨h.calls, h.files, h.statements, h.failed, herror⟩

/-- Three files of which the second cannot be read, an executor that refuses one statement, and a
journal whose file is locked for the first row. A replay that goes on executes the three statements of
the first file and reports the row that was refused; one that stops executes two; without an
executor the journal gets the same rows but for the error. -/
theorem run_exact_failing :
    let missing : FileError := ⟨ascii "b.sql", .noSuchFile⟩
    let files : List (Bytes × Except FileError Bytes) :=
      [(ascii "a.sql", .ok (ascii "SELECT a FROM t LIMIT 1, 2; DELETE FROM u; SELECT 3")),
        (ascii "b.sql", .error missing), (ascii "c.sql", .ok (ascii "SELECT 4"))]
    let execute : Executor := fun sql =>
      if sql = ascii "DELETE FROM u" then some (ascii "no table u") else none
    let job : Job :=
      { command := ascii "replay", now := .ofUnix 0 0, journal := some { locked := [true] } }
    let row := fun kind input output error =>
      ({ command := ascii "replay", kind, input, output, error
         createdAt := ascii "1970-01-01T00:00:00Z" } : JournalRow)
    let paged := ascii "SELECT a FROM t LIMIT 2 OFFSET 1"
    let delete := ascii "DELETE FROM u"
    let three := ascii "SELECT 3"
    let all := run (some execute) .goOn job files
    let first := run (some execute) .stop job files
    let dry := run none .goOn job files
    all.1.calls = [paged, delete, three] ∧ all.1.statements = 3 ∧ all.1.failed = 1 ∧
      all.2 = some (.unreadable (ascii "b.sql") missing) ∧
      all.1.job.journal.map RowFile.rows
        = some [row (ascii "DELETE") delete delete (ascii "no table u"),
          row (ascii "SELECT") three three []] ∧
      all.1.job.journalReports = 1 ∧
      first.1.calls = [paged, delete] ∧
      first.2 = some (.failed (ascii "a.sql") 2 (ascii "no table u") delete) ∧
      dry.1.calls = [] ∧
      dry.1.job.journal.map RowFile.rows
        = some [row (ascii "DELETE") delete delete [], row (ascii "SELECT") three three []] := by
  intro missing files execute job row paged delete three all first dry
  have hW : placed files = [⟨ascii "a.sql", 1, ascii "SELECT a FROM t LIMIT 1, 2"⟩,
      ⟨ascii "a.sql", 2, delete⟩, ⟨ascii "a.sql", 3, three⟩] := by decide +kernel
  have hO : job.converter.outputs job.session ((placed files).map Placed.sql)
      = [paged, delete, three] := by
    rw [hW]
    simp only [job, paged, delete, three]
    repeat rw [ascii_ofList]
    decide +kernel
  obtain ⟨⟨hcalls, hstatements, hfailed, herror⟩, ⟨hcalls', -, -, herror'⟩,
    ⟨hcallsDry, -, -, hjournalDry, hjournal, -⟩, ⟨-, -, hreports⟩, -⟩ :=
    run_exact execute (some execute) .goOn job files
  simp only [hO] at hcalls hfailed hcalls' herror' hjournalDry hjournal hreports
  rw [hW] at hstatements herror' hjournalDry hjournal hreports
  refine ⟨hcalls, hstatements, hfailed.trans ?_, herror, ?_, ?_, hcalls'.trans ?_, herror'.trans ?_,
    hcallsDry, ?_⟩
  · decide +kernel
  · rw [hjournal]
    simp only [job, row, execute, paged, delete, three]
    repeat rw [ascii_ofList]
    decide +kernel
  · rw [hreports, hstatements]
    decide +kernel
  · decide +kernel
  · decide +kernel
  · rw [hjournalDry]
    simp only [job, row, paged, delete, three]
    repeat rw [ascii_ofList]
    decide +kernel

end Replay

end SqlDialect
