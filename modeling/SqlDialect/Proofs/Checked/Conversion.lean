import SqlDialect.Conversion.Converter
import SqlDialect.Proofs.Checked.Count
import SqlDialect.Proofs.Checked.Insert
import SqlDialect.Proofs.Checked.Kind
import SqlDialect.Proofs.Checked.Table
import SqlDialect.Proofs.Conversion.Rule

set_option autoImplicit false

/-! # Conversions by place

The rules of the chain and the conversion of a statement, with every access by place and nothing
that catches a fault. All rules keep the literals delimited, and on delimited literals each does
what the rule of the same name in `conversionRules` does. So the one fault of a run is that of a
sort item that reads as a placeholder without a literal (`run_eq`). -/

namespace SqlDialect.Checked

/-! ## Rules -/

/-- A rule that changes only the text. -/
def onText (name : String) (kinds : List Kind) (f : Bytes → Except Fault Bytes) : Rule :=
  ⟨name, kinds, fun d => do
    let text ← f d.text
    return { d with text }⟩

/-- A rule that changes only the literals, looking at the text. -/
def onLiterals (name : String) (kinds : List Kind)
    (f : Bytes → LiteralTable → Except Fault LiteralTable) : Rule :=
  ⟨name, kinds, fun d => do
    let literals ← f d.text d.literals
    return { d with literals }⟩

namespace Draft

/-- Converts SHOW TABLES, if the statement is that. -/
def showTables (d : Draft) : Except Fault Draft := do
  match ← convertShowTables d.text d.literals with
  | some (text, literals) => return { d with text, literals }
  | none => return d

/-- Converts CREATE TABLE and puts the table's keys into the catalog. -/
def createTable (d : Draft) : Except Fault Draft := do
  match ← Checked.createTable d.text d.literals d.options with
  | some t =>
    let table ← bareName t.definition.name d.literals
    let keys ← uniqueKeys t.definition
    let catalog ← setTable d.catalog table keys
    return { d with text := t.text, catalog, log := d.log ++ t.log }
  | none => return d

/-- Converts ALTER TABLE and adds the keys to the catalog. -/
def alterTable (d : Draft) : Except Fault Draft := do
  let (text, catalog) ← Checked.alterTable d.text d.literals d.options d.catalog
  return { d with text, catalog }

/-- Converts ON DUPLICATE KEY UPDATE, if the statement has it. -/
def onDuplicate (d : Draft) : Except Fault Draft := do
  if ← hasOnDuplicate d.text then
    match ← convertOnDuplicate d.text d.literals d.catalog with
    | some u => return { d with text := u.text, log := d.log ++ u.log }
    | none => return d
  else return d

/-- Converts INSERT IGNORE, if the statement is that. -/
def insertIgnore (d : Draft) : Except Fault Draft := do
  if ← isInsertIgnore d.text then
    let text ← convertInsertIgnore d.text
    return { d with text }
  else return d

end Draft

/-- The rules in the order in which they run. -/
def conversionRules : List Rule :=
  [onText "backticks" Kind.all replaceBackticks,
    ⟨"show-tables", [.other], Draft.showTables⟩,
    ⟨"create-table", [.createTable], Draft.createTable⟩,
    ⟨"alter-table", [.alterTable], Draft.alterTable⟩,
    .onText "sql-calc-found-rows" [.select] stripCalcFoundRows,
    .onText "like" Kind.exprKinds likeToILike,
    .onText "regexp" Kind.exprKinds regexpToTilde,
    onLiterals "pattern-literals" Kind.exprKinds singleQuotePatterns,
    onText "functions" Kind.rowKinds convertFunctions,
    onText "date-cast" [.select, .update, .delete] castDateCalls,
    onText "order-by-int-cast" [.select] castOrderByPlusZero,
    ⟨"order-by-literal", [.select], fun d => do
      let text ← unquoteOrderByLiteral d.text d.literals
      return { d with text }⟩,
    .onText "limit-offset" [.select] limitToOffset,
    .onText "dml-limit" [.update, .delete] stripFinalLimit,
    onText "count-group-by" [.select] aliasCountsAndGroup,
    onLiterals "zero-date" Kind.rowKinds replaceZeroDates,
    ⟨"on-duplicate-key", [.insert], Draft.onDuplicate⟩,
    ⟨"insert-ignore", [.insert], Draft.insertIgnore⟩,
    onText "replace-into" [.replace] fun s => do
      let converted ← convertReplace s
      return converted.getD s,
    onText "returning" [.insert] fun s => if hasReturning s then return s else appendReturning s,
    onText "bare-identifiers" Kind.exprKinds quoteBareIdentifiers]

/-- Both rules are for the same kinds, on delimited literals they do the same, and the literals stay
delimited. -/
structure Agrees (r' r : Rule) : Prop where
  kinds : r'.kinds = r.kinds
  apply : ∀ d : Draft, Delimited d.literals → r'.apply d = r.apply d
  keeps : ∀ d d' : Draft, Delimited d.literals → r.apply d = .ok d' → Delimited d'.literals

/-! ## Conversions -/

section

variable {κ : Type}

/-- Runs the rules and puts the literals back. -/
def run (c : Converter κ) (kind : Kind) (text : Bytes) (literals : LiteralTable) :
    Except Fault (Bytes × KeyCatalog × List LogEntry) := do
  let d ← SqlDialect.runRules conversionRules
    { kind, text, literals, options := c.options, catalog := c.catalog }
  let output ← restore d.text d.literals
  return (output, d.catalog, d.log)

/-- Remembers a query that reads from a table in the session. -/
def remember (session : Option Session) (sql : Bytes) (kind : Kind) (shielded : Bytes) :
    Except Fault (Option Session) := do
  if kind = .select then
    let reads ← readsTable shielded
    return if reads then session.map fun _ => ⟨sql⟩ else session
  else return session

/-- Converts a statement of a session. -/
def convert [Cache κ] (c : Converter κ) (session : Option Session) (sql : Bytes) :
    Except Fault (Conversion κ) := do
  let (shielded, literals) ← shield sql
  let kind ← classify shielded
  if kind = .select ∧ isFoundRowsLookup shielded then
    let (text, literals) ← foundRowsQuery ((session.map Session.lastQuery).getD [])
    let (output, catalog, log) ← run c .select text literals
    return ⟨{ c with catalog }, session, kind, output, log ++ [Converter.converted kind sql output]⟩
  else
    let session ← remember session sql kind shielded
    match c.lookUp kind sql with
    | (some output, c) =>
      return ⟨c, session, kind, output, [Converter.converted kind sql output]⟩
    | (none, c) =>
      let (output, catalog, log) ← run c kind shielded literals
      return ⟨Converter.store { c with catalog } kind sql output, session, kind, output,
        log ++ [Converter.converted kind sql output]⟩

end

/-! ## The rules agree -/

theorem agrees_onText (name : String) (kinds : List Kind) {f' : Bytes → Except Fault Bytes}
    {f : Bytes → Bytes} (h : ∀ s, f' s = .ok (f s)) :
    Agrees (onText name kinds f') (.onText name kinds f) where
  kinds := rfl
  apply d _ := by
    show (f' d.text >>= _) = _
    rw [h, ok_bind]
    rfl
  keeps d d' hd hrun := by
    obtain rfl := Except.ok.inj hrun
    exact hd

theorem agrees_plain (name : String) (kinds : List Kind) (f : Bytes → Bytes) :
    Agrees (.onText name kinds f) (.onText name kinds f) :=
  agrees_onText name kinds fun _ => rfl

theorem agrees_onLiterals (name : String) (kinds : List Kind)
    {f' : Bytes → LiteralTable → Except Fault LiteralTable}
    {f : Bytes → LiteralTable → LiteralTable}
    (h : ∀ s t, Delimited t → f' s t = .ok (f s t) ∧ Delimited (f s t)) :
    Agrees (onLiterals name kinds f') (.onLiterals name kinds f) where
  kinds := rfl
  apply d hd := by
    show (f' d.text d.literals >>= _) = _
    rw [(h d.text d.literals hd).1, ok_bind]
    rfl
  keeps d d' hd hrun := by
    obtain rfl := Except.ok.inj hrun
    exact (h d.text d.literals hd).2

theorem agrees_total (name : String) (kinds : List Kind) {f' : Draft → Except Fault Draft}
    {f : Draft → Draft}
    (h : ∀ d, Delimited d.literals → f' d = .ok (f d) ∧ Delimited (f d).literals) :
    Agrees ⟨name, kinds, f'⟩ (.total name kinds f) where
  kinds := rfl
  apply d hd := (h d hd).1
  keeps d d' hd hrun := by
    obtain rfl := Except.ok.inj hrun
    exact (h d hd).2

theorem showTables_ok {d : Draft} (hd : Delimited d.literals) :
    Draft.showTables d = .ok d.showTables ∧ Delimited d.showTables.literals := by
  rw [Draft.showTables, convertShowTables_ok _ hd, ok_bind, SqlDialect.Draft.showTables]
  cases hshow : convertShowTables? d.text d.literals with
  | none => exact ⟨rfl, hd⟩
  | some p =>
    refine ⟨rfl, ?_⟩
    obtain ⟨m, -, rfl⟩ := Option.map_eq_some_iff.1 hshow
    dsimp only
    split
    · exact hd.singleQuote _
    · exact hd

theorem draft_createTable_ok {d : Draft} (hd : Delimited d.literals) :
    Draft.createTable d = .ok d.createTable ∧ Delimited d.createTable.literals := by
  rw [Draft.createTable, createTable_ok hd, ok_bind, SqlDialect.Draft.createTable]
  cases createTable? d.text d.literals d.options with
  | none => exact ⟨rfl, hd⟩
  | some t =>
    dsimp only
    rw [bareName_ok _ hd, ok_bind, uniqueKeys_ok, ok_bind, setTable_ok]
    exact ⟨rfl, hd⟩

theorem draft_alterTable_ok {d : Draft} (hd : Delimited d.literals) :
    Draft.alterTable d = .ok d.alterTable ∧ Delimited d.alterTable.literals := by
  rw [Draft.alterTable, alterTable_ok hd]
  exact ⟨rfl, hd⟩

theorem onDuplicate_ok {d : Draft} (hd : Delimited d.literals) :
    Draft.onDuplicate d = .ok d.onDuplicate ∧ Delimited d.onDuplicate.literals := by
  rw [Draft.onDuplicate, hasOnDuplicate_ok, ok_bind, SqlDialect.Draft.onDuplicate]
  split
  · rw [convertOnDuplicate_ok _ hd, ok_bind]
    cases convertOnDuplicate? d.text d.literals d.catalog with
    | none => exact ⟨rfl, hd⟩
    | some u => exact ⟨rfl, hd⟩
  · exact ⟨rfl, hd⟩

theorem insertIgnore_ok {d : Draft} (hd : Delimited d.literals) :
    Draft.insertIgnore d = .ok d.insertIgnore ∧ Delimited d.insertIgnore.literals := by
  rw [Draft.insertIgnore, isInsertIgnore_ok, ok_bind, SqlDialect.Draft.insertIgnore]
  cases hins : ignoringInsert? d.text with
  | none => exact ⟨rfl, hd⟩
  | some ins =>
    rw [Option.isSome_some, if_pos rfl, convertInsertIgnore_ok hins]
    exact ⟨rfl, hd⟩

theorem agrees_sortRule :
    Agrees ⟨"order-by-literal", [.select], fun d => do
      let text ← unquoteOrderByLiteral d.text d.literals
      return { d with text }⟩ sortRule where
  kinds := rfl
  apply d hd := by
    show (unquoteOrderByLiteral d.text d.literals >>= _)
      = (SqlDialect.unquoteOrderByLiteral d.text d.literals).map _
    rw [unquoteOrderByLiteral_eq _ hd]
    cases SqlDialect.unquoteOrderByLiteral d.text d.literals <;> rfl
  keeps d d' hd hrun := by
    obtain ⟨text, -, rfl⟩ : ∃ text, SqlDialect.unquoteOrderByLiteral d.text d.literals = .ok text ∧
        { d with text } = d' := by
      change (SqlDialect.unquoteOrderByLiteral _ _).map _ = _ at hrun
      cases htext : SqlDialect.unquoteOrderByLiteral d.text d.literals with
      | error f =>
        rw [htext] at hrun
        cases hrun
      | ok text =>
        rw [htext] at hrun
        exact ⟨text, rfl, Except.ok.inj hrun⟩
    exact hd

/-- The two chains agree rule by rule. -/
theorem conversionRules_agree :
    List.Forall₂ Agrees conversionRules SqlDialect.conversionRules := by
  rw [conversionRules, SqlDialect.conversionRules]
  refine .cons (agrees_onText _ _ replaceBackticks_ok) ?_
  refine .cons (agrees_total _ _ fun _ => showTables_ok) ?_
  refine .cons (agrees_total _ _ fun _ => draft_createTable_ok) ?_
  refine .cons (agrees_total _ _ fun _ => draft_alterTable_ok) ?_
  refine .cons (agrees_plain _ _ _) (.cons (agrees_plain _ _ _) (.cons (agrees_plain _ _ _) ?_))
  refine .cons (agrees_onLiterals _ _ fun s _ ht => singleQuotePatterns_ok s ht) ?_
  refine .cons (agrees_onText _ _ convertFunctions_ok) ?_
  refine .cons (agrees_onText _ _ castDateCalls_ok) ?_
  refine .cons (agrees_onText _ _ castOrderByPlusZero_ok) ?_
  refine .cons agrees_sortRule ?_
  refine .cons (agrees_plain _ _ _) (.cons (agrees_plain _ _ _) ?_)
  refine .cons (agrees_onText _ _ aliasCountsAndGroup_ok) ?_
  refine .cons (agrees_onLiterals _ _ fun s _ ht => replaceZeroDates_ok s ht) ?_
  refine .cons (agrees_total _ _ fun _ => onDuplicate_ok) ?_
  refine .cons (agrees_total _ _ fun _ => insertIgnore_ok) ?_
  refine .cons (agrees_onText _ _ fun s => ?_) (.cons (agrees_onText _ _ fun s => ?_) ?_)
  · rw [convertReplace_ok]
    rfl
  · rw [appendReturning_ok]
    split <;> rfl
  · exact .cons (agrees_onText _ _ quoteBareIdentifiers_ok) .nil

/-! ## Runs agree -/

theorem Agrees.run {r' r : Rule} (h : Agrees r' r) {d : Draft} (hd : Delimited d.literals) :
    r'.run d = r.run d ∧ ∀ d', r.run d = .ok d' → Delimited d'.literals := by
  by_cases hk : d.kind ∈ r.kinds
  · rw [Rule.run_of_mem hk, Rule.run_of_mem (h.kinds ▸ hk)]
    exact ⟨h.apply d hd, fun d' => h.keeps d d' hd⟩
  · rw [Rule.run_of_notMem hk, Rule.run_of_notMem (h.kinds ▸ hk)]
    refine ⟨rfl, fun d' hrun => ?_⟩
    obtain rfl := Except.ok.inj hrun
    exact hd

/-- Chains that agree rule by rule run alike, faults included. -/
theorem runRules_eq {rs' rs : List Rule} (h : List.Forall₂ Agrees rs' rs) {d : Draft}
    (hd : Delimited d.literals) : SqlDialect.runRules rs' d = SqlDialect.runRules rs d := by
  induction h generalizing d with
  | nil => rfl
  | @cons r' r rs' rs hr hrs ih =>
    obtain ⟨hrun, hkeeps⟩ := hr.run hd
    rw [runRules_cons, runRules_cons, hrun]
    cases hd' : r.run d with
    | error f => rfl
    | ok d' => exact ih (hkeeps d' hd')

theorem delimited_shield (sql : Bytes) : Delimited (SqlDialect.shield sql).2 := by
  intro l hl hnil
  obtain ⟨-, rest, htext⟩ := Shielding.quoted_of_mem_ofText sql l hl
  rw [hnil] at htext
  cases htext

theorem delimited_foundRowsQuery (last : Bytes) : Delimited (SqlDialect.foundRowsQuery last).2 := by
  have hnothing : Delimited countNothing.2 := fun l hl => absurd hl List.not_mem_nil
  rw [SqlDialect.foundRowsQuery]
  split
  · exact hnothing
  dsimp only
  split
  · exact hnothing
  · split
    · exact hnothing
    · split
      · exact delimited_shield last
      · exact delimited_shield last

section

variable {κ : Type}

/-- A run is that of the rules, and what it cannot do is what they cannot do. -/
theorem run_eq (c : Converter κ) (kind : Kind) (text : Bytes) {literals : LiteralTable}
    (hlits : Delimited literals) :
    run c kind text literals
      = (c.runRules kind text literals).map fun d => (d.result, d.catalog, d.log) := by
  rw [run, runRules_eq conversionRules_agree hlits, Converter.runRules]
  cases SqlDialect.runRules SqlDialect.conversionRules _ with
  | error f => rfl
  | ok d =>
    rw [ok_bind, restore_ok]
    rfl

theorem remember_ok (session : Option Session) (sql : Bytes) {kind : Kind} {shielded : Bytes}
    (h : ¬ (kind = .select ∧ isFoundRowsLookup shielded = true)) :
    remember session sql kind shielded
      = .ok (Converter.remember session sql kind shielded) := by
  rw [remember, Converter.remember, readsTable_ok]
  by_cases hk : kind = .select
  · have hlookup : isFoundRowsLookup shielded = false :=
      Bool.eq_false_iff.2 fun hlookup => h ⟨hk, hlookup⟩
    simp [hk, hlookup]
  · simp [hk]

end

end SqlDialect.Checked
