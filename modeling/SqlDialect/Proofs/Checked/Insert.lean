import SqlDialect.Proofs.Checked.Catalog
import SqlDialect.Proofs.Checked.Match
import SqlDialect.Proofs.Checked.Name
import SqlDialect.Proofs.Query.UpsertClauses

set_option autoImplicit false

/-! # Inserts by place

The head of an insert is read by the places of its groups, and IGNORE is cut out by them. The
clauses of an upsert are put together from texts that are cut out between places. -/

namespace SqlDialect.Checked

/-! ## The head of an insert -/

/-- The head of an insert: the table and the columns as they appear in the output, and where IGNORE
stands. -/
structure InsertHead where
  table : Bytes
  columns : List Bytes
  ignore : Option (Int × Int)

/-- Whether a parenthesis opens at a place. -/
def opensAt (s : Bytes) (i : Int) : Except Fault Bool :=
  if i < s.length then do
    let b ← elementAt s i
    return b == openParen
  else return false

/-- The columns of a list; none if it is a query. -/
def insertColumns (list : Bytes) : Except Fault (List Bytes) :=
  if selectHeadPattern.occursIn list then return []
  else do
    let parts ← splitTopLevel list
    parts.mapM fun col => normalizeName (Bytes.trimSpace col)

/-- The columns of the list that opens at a place, if one does. -/
def columnsAt (s : Bytes) (stop : Int) : Except Fault (Option (List Bytes)) := do
  if ← opensAt s stop then
    let closing ← matchParen s stop
    if closing < 0 then return none
    else
      let list ← slice s (stop + 1) closing
      let columns ← insertColumns list
      return some columns
  else return some []

/-- Reads the table and the columns of an insert. -/
def parseInsert (s : Bytes) : Except Fault (Option InsertHead) :=
  match insertPattern.locate? s with
  | none => return none
  | some places => do
    let low ← Pattern.groupStart places 3
    let high ← Pattern.groupEnd places 3
    let table ← slice s low high
    let low ← Pattern.groupStart places 2
    let high ← Pattern.groupEnd places 2
    let stop ← Pattern.groupEnd places 0
    match ← columnsAt s stop with
    | none => return none
    | some columns =>
      return some { table, columns, ignore := if 0 ≤ low then some (low, high) else none }

/-- The statement without IGNORE. -/
def withoutIgnore (head : InsertHead) (s : Bytes) : Except Fault Bytes :=
  match head.ignore with
  | none => return s
  | some (low, high) => do
    let before ← sliceTo s low
    let after ← sliceFrom s high
    return before ++ after

/-- The head says the same as the insert that is read by texts. -/
structure InsertHead.Reads (head : InsertHead) (s : Bytes) (ins : Insert) : Prop where
  table : head.table = ins.table
  columns : head.columns = ins.columns
  ignore : head.ignore.isSome = ins.ignore
  text : withoutIgnore head s = .ok ins.withoutIgnore

theorem insertColumns_ok (list : Bytes) :
    insertColumns list = .ok (if selectHeadPattern.occursIn list then []
      else (splitTop list).map fun col => SqlDialect.normalizeName (Bytes.trimSpace col)) := by
  rw [insertColumns]
  split
  · rfl
  · rw [splitTopLevel_ok, ok_bind]
    exact mapM_ok fun col _ => normalizeName_ok (Bytes.trimSpace col)

theorem columnsAt_ok (a rest : Bytes) :
    columnsAt (a ++ rest) a.length = .ok (Insert.columnsOf? rest) := by
  cases rest with
  | nil =>
    rw [columnsAt, opensAt, if_neg (by simp)]
    rfl
  | cons b inner =>
    have hin : (a.length : Int) < (a ++ b :: inner).length := by
      rw [List.length_append, List.length_cons]
      omega
    rw [columnsAt, opensAt, if_pos hin, elementAt_eq (a := a) rfl rfl, ok_bind,
      Insert.columnsOf?]
    by_cases hb : b = openParen
    · subst hb
      rw [if_pos rfl, pure_eq_ok, ok_bind, beq_self_eq_true, if_pos rfl, matchParen_ok, ok_bind]
      cases hclose : splitParen? inner with
      | none => rfl
      | some parts =>
        obtain ⟨list, after⟩ := parts
        have hlist : slice (a ++ openParen :: inner) ((a.length : Int) + 1)
            ((a.length + 1 + list.length : Nat) : Int) = .ok list :=
          slice_eq (a := a ++ [openParen]) (c := closeParen :: after)
            (by rw [eq_append_of_splitParen? hclose]; simp) (by simp) (by simp)
        dsimp only [Option.map_some, Option.getD_some]
        rw [if_neg (Int.not_lt.2 (Int.natCast_nonneg _)), hlist, ok_bind, insertColumns_ok]
        rfl
    · rw [if_neg hb, pure_eq_ok, ok_bind, beq_false_of_ne hb]
      rfl

/-- IGNORE lies behind the lead of the statement if there is any, and is cut out there. -/
theorem ignore_of_recordsHead {lead ign rest s : Bytes} (hs : s = lead ++ ign ++ rest) {m : Match}
    (hbefore : m.before = []) {gs : List Pattern.Recorded} (h : RecordsHead lead ign gs) :
    ∃ low high, Pattern.groupStart (insertPattern.placesOf m gs) 2 = .ok low ∧
      Pattern.groupEnd (insertPattern.placesOf m gs) 2 = .ok high ∧
      (0 ≤ low ∧ sliceTo s low = .ok lead ∧ sliceFrom s high = .ok rest ∧
          (gs.find? (·.number == 2)).isSome ∨
        low < 0 ∧ ign = [] ∧ (gs.find? (·.number == 2)).isSome = false) := by
  have hlow := insertPattern.elementAt_placesOf m gs (n := 2) (i := 0) (by decide) (by decide)
    (by decide)
  have hhigh := insertPattern.elementAt_placesOf m gs (n := 2) (i := 1) (by decide) (by decide)
    (by decide)
  rw [hbefore] at hlow hhigh
  obtain ⟨i, n, rfl | ⟨rfl, rfl⟩⟩ := h
  · refine ⟨_, _, hlow, hhigh, Or.inl ⟨Int.natCast_nonneg _, ?_, ?_, rfl⟩⟩
    · exact sliceTo_eq (hs.trans (List.append_assoc _ _ _)) (by simp)
    · exact sliceFrom_eq hs (by simp)
  · exact ⟨-1, -1, hlow, hhigh, Or.inr ⟨by decide, rfl, rfl⟩⟩

theorem parseInsert_of_find? {s : Bytes} {m : Match} (h : insertPattern.find? s = some m) :
    ∃ ignore : Option (Int × Int),
      parseInsert s = .ok ((Insert.columnsOf? m.after).map fun columns =>
        { table := m.group 3, columns, ignore }) ∧
      ignore.isSome = (m.group? 2).isSome ∧
      ∀ head : InsertHead, head.ignore = ignore →
        withoutIgnore head s
          = .ok (m.group 1 ++ s.drop ((m.group 1).length + (m.group 2).length)) := by
  have hbefore := Pattern.before_eq_nil h
  have htext := Pattern.text_of_find? h
  rw [hbefore, List.nil_append] at htext
  obtain ⟨c, hleads, hgroups, hplaces⟩ := Pattern.exists_locate? h
  obtain ⟨places, hplaces', hlocated⟩ := Pattern.locate?_of_find? h
  obtain rfl := Option.some.inj (hplaces'.symm.trans hplaces)
  rw [hbefore, htext] at hleads
  rw [htext] at hgroups
  obtain ⟨lead, ign, rest, hs, -, -, hrecorded⟩ := leads_insertPattern hleads
  obtain ⟨hone, htwo⟩ := hrecorded.group hs hgroups
  have hsome : (m.group? 2).isSome = (c.groups.find? (·.number == 2)).isSome := by
    rw [Match.group?, hgroups, Pattern.lookup_recorded, Option.isSome_map]
  have hdrop : s.drop (lead.length + ign.length) = rest := by
    rw [hs, List.drop_left' (List.length_append)]
  obtain ⟨low, high, hlow, hhigh, hcut⟩ := ignore_of_recordsHead hs hbefore hrecorded
  obtain ⟨low₃, high₃, hlow₃, hhigh₃, htable⟩ :=
    hlocated.group h (n := 3) (by decide) (by decide) (by decide)
  have hstop := hlocated.matchEnd
  rw [hbefore, List.length_nil, Nat.zero_add] at hstop
  have hcolumns := columnsAt_ok m.text m.after
  rw [htext] at hcolumns
  refine ⟨if 0 ≤ low then some (low, high) else none, ?_, ?_, ?_⟩
  · rw [parseInsert, hplaces]
    dsimp only
    rw [hlow₃, ok_bind, hhigh₃, ok_bind, htable, ok_bind, hlow, ok_bind, hhigh, ok_bind, hstop,
      ok_bind, hcolumns, ok_bind]
    cases Insert.columnsOf? m.after <;> rfl
  · rw [hsome]
    rcases hcut with ⟨hnonneg, -, -, hfound⟩ | ⟨hneg, -, hfound⟩
    · rw [if_pos hnonneg, hfound]
      rfl
    · rw [if_neg (Int.not_le.2 hneg), hfound]
      rfl
  · intro head hhead
    rw [withoutIgnore, hhead, hone, htwo, hdrop]
    rcases hcut with ⟨hnonneg, hleft, hright, -⟩ | ⟨hneg, rfl, -⟩
    · rw [if_pos hnonneg]
      dsimp only
      rw [hleft, ok_bind, hright]
      rfl
    · rw [if_neg (Int.not_le.2 hneg), hs, List.append_nil]
      rfl

theorem parseInsert_none {s : Bytes} (h : Insert.ofText? s = none) : parseInsert s = .ok none := by
  cases hm : insertPattern.find? s with
  | none =>
    rw [parseInsert, Pattern.locate?_of_none hm]
    rfl
  | some m =>
    obtain ⟨ignore, hparse, -⟩ := parseInsert_of_find? hm
    rw [hparse]
    cases hcolumns : Insert.columnsOf? m.after with
    | none => rfl
    | some columns => simp [Insert.ofText?, hm, hcolumns] at h

theorem parseInsert_some {s : Bytes} {ins : Insert} (h : Insert.ofText? s = some ins) :
    ∃ head, parseInsert s = .ok (some head) ∧ head.Reads s ins := by
  obtain ⟨m, hm, hrest⟩ := Option.bind_eq_some_iff.1 h
  obtain ⟨columns, hcolumns, hins⟩ := Option.bind_eq_some_iff.1 hrest
  obtain rfl := Option.some.inj hins
  obtain ⟨ignore, hparse, hignore, htext⟩ := parseInsert_of_find? hm
  rw [hcolumns] at hparse
  exact ⟨_, hparse, rfl, rfl, hignore, htext _ rfl⟩

/-! ## The row that an insert collides with -/

/-- The first of the columns whose bare name is the given one; the bare names are those from a place
on. -/
def columnNamed (columns : List Bytes) (name : Bytes) (i : Nat) :
    List Bytes → Except Fault (Option Bytes)
  | [] => return none
  | b :: bare =>
    if Bytes.equalFold b name then do
      let column ← elementAt columns i
      return some column
    else columnNamed columns name (i + 1) bare

/-- The columns that identify the row an insert collides with. -/
def conflictTarget (head : InsertHead) (catalog : KeyCatalog) (lits : LiteralTable) :
    Except Fault (List Bytes) := do
  let table ← lastSegment head.table
  let table ← bareName table lits
  if head.columns.isEmpty then
    let known ← keys catalog table
    if 0 < known.length then
      let key ← elementAt known 0
      writeEach [] quoteIdent key.columns
    else return []
  else
    let bare ← writeEach [] (fun column => bareName column lits) head.columns
    match ← coveredKey catalog table bare with
    | none => sliceTo head.columns 1
    | some target =>
      let found ← target.mapM fun name => columnNamed head.columns name 0 bare
      return found.filterMap id

theorem columnNamed_ok (bareOf : Bytes → Bytes) (name : Bytes) (a columns : List Bytes) :
    columnNamed (a ++ columns) name a.length (columns.map bareOf)
      = .ok (columns.find? fun c => Bytes.equalFold (bareOf c) name) := by
  induction columns generalizing a with
  | nil => rfl
  | cons c columns ih =>
    have hnext := ih (a ++ [c])
    rw [List.append_assoc, List.length_append] at hnext
    rw [List.map_cons, columnNamed, elementAt_eq (a := a) rfl rfl, ok_bind, List.find?_cons]
    cases hfold : Bytes.equalFold (bareOf c) name with
    | true => rfl
    | false => exact hnext

theorem conflictTarget_ok {head : InsertHead} {s : Bytes} {ins : Insert} (hhead : head.Reads s ins)
    (catalog : KeyCatalog) {lits : LiteralTable} (hlits : Delimited lits) :
    conflictTarget head catalog lits = .ok (ins.conflictTarget catalog lits) := by
  rw [conflictTarget, hhead.table, hhead.columns, lastSegment_ok, ok_bind, bareName_ok _ hlits,
    ok_bind, Insert.conflictTarget]
  generalize SqlDialect.bareName (SqlDialect.lastSegment ins.table) lits = table
  by_cases hempty : ins.columns.isEmpty = true
  · rw [if_pos hempty, if_pos hempty, keys_ok, ok_bind]
    cases catalog.keys table with
    | nil => rfl
    | cons key known =>
      rw [if_pos (List.length_pos_of_mem List.mem_cons_self), elementAt_cons, ok_bind]
      exact writeEach_ok [] fun column _ => quoteIdent_ok column
  · rw [if_neg hempty, if_neg hempty, writeEach_ok [] fun column _ => bareName_ok column hlits, ok_bind,
      coveredKey_ok, ok_bind]
    cases catalog.conflictTarget? table (ins.columns.map fun c => SqlDialect.bareName c lits) with
    | none =>
      obtain ⟨c, columns, hcolumns⟩ := List.exists_cons_of_ne_nil
        (List.isEmpty_eq_false_iff.1 (Bool.eq_false_iff.2 hempty))
      rw [hcolumns]
      exact sliceTo_eq (a := [c]) rfl rfl
    | some target =>
      have hfound := fun name (_ : name ∈ target) =>
        columnNamed_ok (fun c => SqlDialect.bareName c lits) name [] ins.columns
      dsimp only
      rw [List.nil_append, List.length_nil] at hfound
      rw [mapM_ok hfound, ok_bind, pure_eq_ok, List.filterMap_map]
      rfl

/-! ## Assignments -/

/-- Writes what `f` makes of each match, and keeps what is between the matches. -/
def replaceMatches (p : Pattern) (f : Bytes → Except Fault Bytes) (s : Bytes) :
    Except Fault Bytes := do
  let hits := p.all s
  let parts ← hits.mapM fun m => do
    let new ← f m.text
    return m.before ++ new
  return parts.flatten ++ ((hits.getLast?.map Match.after).getD s)

theorem replaceMatches_ok {p : Pattern} {s : Bytes} {f : Bytes → Except Fault Bytes}
    {g : Match → Bytes} (h : ∀ m ∈ p.all s, f m.text = .ok (g m)) :
    replaceMatches p f s = .ok (p.replaceWith g s) := by
  have hparts : ((p.all s).mapM fun m => do
      let new ← f m.text
      return m.before ++ new) = .ok ((p.all s).map fun m => m.before ++ g m) :=
    mapM_ok fun m hm => by rw [h m hm]; rfl
  rw [replaceMatches, hparts]
  rfl

/-- What is written for a reference to an inserted value. The reference is matched once more. -/
def excludedColumn (ref : Bytes) : Except Fault Bytes := do
  let groups := match valuesRefPattern.find? ref with
    | some m => valuesRefPattern.submatches m
    | none => []
  let name ← elementAt groups 1
  let name ← normalizeName name
  return ascii "EXCLUDED." ++ name

theorem excludedColumn_ok {s : Bytes} {m : Match} (hm : m ∈ valuesRefPattern.all s) :
    excludedColumn m.text = .ok (SqlDialect.excludedColumn m) := by
  obtain ⟨prev, t, hfind⟩ := Pattern.exists_findFrom?_of_mem_all hm
  have hps : (Pattern.seqs [valuesRefPattern.callValues, .blanks,
      .group 1 (.many1 (.one (CharSet.blank.union (CharSet.ofString "()")).compl)),
      .blanks]).avoids [closeParen] = true := by decide
  have hagain : valuesRefPattern.find? m.text = some { m with before := [], after := [] } :=
    Pattern.find?_text hps (by decide) startsOutside_valuesRef hfind
  have hname : elementAt (valuesRefPattern.submatches { m with before := [], after := [] }) 1
      = .ok (m.group 1) := Pattern.submatch_ok (n := 1) (by decide) (by decide) _
  rw [excludedColumn, hagain]
  dsimp only
  rw [hname, ok_bind, normalizeName_ok]
  rfl

/-- The value that an assignment to a column has in an upsert. -/
def excludedExpr (col expr : Bytes) (lits : LiteralTable) : Except Fault Bytes := do
  let expr ← replaceMatches valuesRefPattern excludedColumn expr
  match selfOpPattern.find? expr with
  | none => return expr
  | some m =>
    let name ← elementAt (selfOpPattern.submatches m) 1
    let name ← normalizeName name
    let name ← bareName name lits
    let own ← bareName col lits
    if name = own then
      let op ← elementAt (selfOpPattern.submatches m) 2
      let operand ← elementAt (selfOpPattern.submatches m) 3
      return ascii "EXCLUDED." ++ col ++ ascii " " ++ op ++ ascii " " ++ operand
    else return expr

theorem excludedExpr_ok (col expr : Bytes) {lits : LiteralTable} (hlits : Delimited lits) :
    excludedExpr col expr lits = .ok (SqlDialect.excludedExpr col expr lits) := by
  have hrefs := replaceMatches_ok (p := valuesRefPattern) (s := expr)
    (g := fun m => ascii "EXCLUDED." ++ SqlDialect.normalizeName (m.group 1))
    fun m hm => excludedColumn_ok hm
  rw [excludedExpr, hrefs, ok_bind, SqlDialect.excludedExpr]
  generalize valuesRefPattern.replaceWith _ expr = expr
  cases selfOpPattern.find? expr with
  | none => rfl
  | some m =>
    have hname : elementAt (selfOpPattern.submatches m) 1 = .ok (m.group 1) :=
      Pattern.submatch_ok (n := 1) (by decide) (by decide) m
    have hop : elementAt (selfOpPattern.submatches m) 2 = .ok (m.group 2) :=
      Pattern.submatch_ok (n := 2) (by decide) (by decide) m
    have hoperand : elementAt (selfOpPattern.submatches m) 3 = .ok (m.group 3) :=
      Pattern.submatch_ok (n := 3) (by decide) (by decide) m
    dsimp only
    rw [hname, ok_bind, normalizeName_ok, ok_bind, bareName_ok _ hlits, ok_bind,
      bareName_ok _ hlits, ok_bind, hop, ok_bind, hoperand]
    exact (apply_ite Except.ok _ _ _).symm

/-- An assignment as it appears in an upsert. -/
def upsertAssignment (lits : LiteralTable) (text : Bytes) : Except Fault Bytes :=
  let text := Bytes.trimSpace text
  match assignmentPattern.find? text with
  | none => return text
  | some m => do
    let col ← elementAt (assignmentPattern.submatches m) 1
    let col ← normalizeName col
    let value ← elementAt (assignmentPattern.submatches m) 2
    let value ← excludedExpr col (Bytes.trimSpace value) lits
    return col ++ ascii " = " ++ value

theorem upsertAssignment_ok {lits : LiteralTable} (hlits : Delimited lits) (text : Bytes) :
    upsertAssignment lits text = .ok (SqlDialect.upsertAssignment lits text) := by
  rw [upsertAssignment, SqlDialect.upsertAssignment]
  cases assignmentPattern.find? (Bytes.trimSpace text) with
  | none => rfl
  | some m =>
    have hcol : elementAt (assignmentPattern.submatches m) 1 = .ok (m.group 1) :=
      Pattern.submatch_ok (n := 1) (by decide) (by decide) m
    have hvalue : elementAt (assignmentPattern.submatches m) 2 = .ok (m.group 2) :=
      Pattern.submatch_ok (n := 2) (by decide) (by decide) m
    dsimp only
    rw [hcol, ok_bind, normalizeName_ok, ok_bind, hvalue, ok_bind, excludedExpr_ok _ _ hlits]
    rfl

/-! ## The clauses -/

/-- Whether the statement says what to do with an existing row. -/
def hasOnDuplicate (s : Bytes) : Except Fault Bool := do
  let found ← findTopLevel s onDuplicatePattern 0
  return found.isSome

/-- Writes ON DUPLICATE KEY UPDATE as an upsert. -/
def convertOnDuplicate (s : Bytes) (lits : LiteralTable) (catalog : KeyCatalog) :
    Except Fault (Option Upserted) := do
  match ← parseInsert s with
  | none => return none
  | some ins =>
    let s ← withoutIgnore ins s
    match ← findTopLevel s onDuplicatePattern 0 with
    | none => return none
    | some (low, high) =>
      let lead ← sliceTo s low
      let head := Bytes.trimRight lead
      let rest ← sliceFrom s high
      let (assignments, had) ← trimStatementEnd rest
      let parts ← splitTopLevel assignments
      let sets ← parts.mapM (upsertAssignment lits)
      let target ← conflictTarget ins catalog lits
      if target.isEmpty then
        return some
          { text := head ++ ascii " ON CONFLICT DO NOTHING" ++ returningAll ++ semicolonIf had
            log :=
              [{ level := .debug
                 message := ascii "no conflict target, update dropped"
                 fields := [(ascii "table", .text ins.table), (ascii "set", .texts sets)] }] }
      else
        return some
          { text :=
              head ++ ascii " ON CONFLICT (" ++ Bytes.join (ascii ", ") target ++
                ascii ") DO UPDATE SET " ++ Bytes.join (ascii ", ") sets ++ returningAll ++
                semicolonIf had }

theorem hasOnDuplicate_ok (s : Bytes) :
    hasOnDuplicate s = .ok (SqlDialect.hasOnDuplicate s) := by
  rw [hasOnDuplicate, findTopLevel_zero, ok_bind, Option.isSome_map]
  rfl

theorem convertOnDuplicate_ok (s : Bytes) {lits : LiteralTable} (hlits : Delimited lits)
    (catalog : KeyCatalog) :
    convertOnDuplicate s lits catalog = .ok (convertOnDuplicate? s lits catalog) := by
  rw [convertOnDuplicate, convertOnDuplicate?]
  cases hins : Insert.ofText? s with
  | none =>
    rw [parseInsert_none hins]
    rfl
  | some ins =>
    obtain ⟨head, hparse, hhead⟩ := parseInsert_some hins
    rw [hparse, ok_bind]
    dsimp only
    rw [hhead.text, ok_bind, findTopLevel_zero, ok_bind, Option.bind_eq_bind, Option.bind_some]
    cases hm : findTop? onDuplicatePattern ins.withoutIgnore with
    | none => rfl
    | some m =>
      obtain ⟨hlead, -, hrest⟩ := cuts_of_findTop? consumes_onDuplicate hm
      dsimp only [Option.map_some]
      rw [hlead, ok_bind, hrest, ok_bind, trimStatementEnd_ok, ok_bind]
      rw [splitTopLevel_ok, ok_bind, mapM_ok fun text _ => upsertAssignment_ok hlits text, ok_bind,
        conflictTarget_ok hhead catalog hlits, ok_bind, hhead.table]
      exact (apply_ite Except.ok _ _ _).symm

/-- Whether conflicts of the insert are to be ignored and it does not say so yet. -/
def isInsertIgnore (s : Bytes) : Except Fault Bool := do
  match ← parseInsert s with
  | none => return false
  | some ins => return ins.ignore.isSome && !onConflictPattern.occursIn s

/-- Writes INSERT IGNORE with a clause that does nothing on a conflict. -/
def convertInsertIgnore (s : Bytes) : Except Fault Bytes := do
  let ins ← parseInsert s
  let text ← withoutIgnore (ins.getD ⟨[], [], none⟩) s
  let (text, had) ← trimStatementEnd text
  return text ++ ascii " ON CONFLICT DO NOTHING" ++ returningAll ++ semicolonIf had

theorem isInsertIgnore_ok (s : Bytes) :
    isInsertIgnore s = .ok (ignoringInsert? s).isSome := by
  rw [isInsertIgnore, ignoringInsert?]
  cases hins : Insert.ofText? s with
  | none =>
    rw [parseInsert_none hins]
    rfl
  | some ins =>
    obtain ⟨head, hparse, hhead⟩ := parseInsert_some hins
    rw [hparse, ok_bind]
    dsimp only
    rw [hhead.ignore, Option.filter_some]
    split <;> simp_all

theorem convertInsertIgnore_ok {s : Bytes} {ins : Insert} (h : ignoringInsert? s = some ins) :
    convertInsertIgnore s = .ok (SqlDialect.convertInsertIgnore ins) := by
  obtain ⟨hins, -⟩ := Option.filter_eq_some_iff.1 h
  obtain ⟨head, hparse, hhead⟩ := parseInsert_some hins
  rw [convertInsertIgnore, hparse, ok_bind, Option.getD_some, hhead.text, ok_bind,
    trimStatementEnd_ok]
  rfl

/-- The clause that overwrites the row that shares the first column. -/
def overwriteClause (columns : List Bytes) : Except Fault Bytes :=
  if columns.length = 0 then return ascii " ON CONFLICT DO NOTHING"
  else if columns.length = 1 then do
    let column ← elementAt columns 0
    return ascii " ON CONFLICT (" ++ column ++ ascii ") DO NOTHING"
  else do
    let others ← sliceFrom columns 1
    let column ← elementAt columns 0
    return ascii " ON CONFLICT (" ++ column ++ ascii ") DO UPDATE SET " ++
      Bytes.join (ascii ", ") (others.map fun c => c ++ ascii " = EXCLUDED." ++ c)

theorem overwriteClause_ok (columns : List Bytes) :
    overwriteClause columns = .ok (SqlDialect.overwriteClause columns) := by
  rcases columns with _ | ⟨column, _ | ⟨other, columns⟩⟩
  · rfl
  · rfl
  · have hothers : sliceFrom (column :: other :: columns) 1 = .ok (other :: columns) :=
      sliceFrom_eq (a := [column]) rfl rfl
    rw [overwriteClause, if_neg (by simp), if_neg (by simp), hothers, ok_bind, elementAt_cons]
    rfl

/-- Writes REPLACE as an insert that overwrites the row that shares the first listed column. -/
def convertReplace (s : Bytes) : Except Fault (Option Bytes) :=
  match replaceHeadPattern.locate? s with
  | none => return none
  | some places => do
    let low ← Pattern.groupStart places 1
    let high ← Pattern.groupEnd places 1
    let lead ← slice s low high
    let stop ← Pattern.groupEnd places 0
    let rest ← sliceFrom s stop
    let s := lead ++ ascii "INSERT INTO " ++ rest
    match ← parseInsert s with
    | none => return none
    | some ins =>
      let (text, had) ← trimStatementEnd s
      let clause ← overwriteClause ins.columns
      return some (text ++ clause ++ returningAll ++ semicolonIf had)

theorem convertReplace_ok (s : Bytes) : convertReplace s = .ok (convertReplace? s) := by
  rw [convertReplace, convertReplace?]
  cases hm : replaceHeadPattern.find? s with
  | none =>
    rw [Pattern.locate?_of_none hm]
    rfl
  | some m =>
    obtain ⟨places, hplaces, hlocated⟩ := Pattern.locate?_of_find? hm
    obtain ⟨low, high, hlow, hhigh, hlead⟩ :=
      hlocated.group hm (n := 1) (by decide) (by decide) (by decide)
    have hrest : sliceFrom s ((m.before.length + m.text.length : Nat) : Int) = .ok m.after :=
      sliceFrom_eq (Pattern.text_of_find? hm).symm (by rw [List.length_append])
    rw [hplaces]
    dsimp only
    rw [hlow, ok_bind, hhigh, ok_bind, hlead, ok_bind, hlocated.matchEnd, ok_bind, hrest, ok_bind,
      Option.bind_eq_bind, Option.bind_some]
    generalize m.group 1 ++ ascii "INSERT INTO " ++ m.after = s
    cases hins : Insert.ofText? s with
    | none =>
      rw [parseInsert_none hins]
      rfl
    | some ins =>
      obtain ⟨head, hparse, hhead⟩ := parseInsert_some hins
      rw [hparse, ok_bind]
      dsimp only
      rw [trimStatementEnd_ok, ok_bind, hhead.columns]
      rw [overwriteClause_ok]
      rfl

/-- Makes an insert return its rows. -/
def appendReturning (s : Bytes) : Except Fault Bytes := do
  let (text, had) ← trimStatementEnd s
  return text ++ returningAll ++ semicolonIf had

theorem appendReturning_ok (s : Bytes) :
    appendReturning s = .ok (SqlDialect.appendReturning s) := by
  rw [appendReturning, trimStatementEnd_ok]
  rfl

end SqlDialect.Checked
