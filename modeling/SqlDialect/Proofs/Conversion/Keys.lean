import SqlDialect.Proofs.Catalog.Entry
import SqlDialect.Proofs.Conversion.Literals
import SqlDialect.Proofs.Conversion.Sessions
import SqlDialect.Proofs.Table.Items

set_option autoImplicit false

/-! # The keys of one table

What the catalog knows about a table changes only by operations on that table: by statements that
create or alter it and by operations of the catalog that name it. So what a statement has put into
the catalog about a table stays there until the table is touched again. -/

namespace SqlDialect

namespace KeyCatalog

/-! ## The order of keys -/

theorem foldl_place_secondary (acc : List TableKey) {keys : List TableKey}
    (h : ∀ k ∈ keys, k.primary = false) : keys.foldl place acc = acc ++ keys := by
  induction keys generalizing acc with
  | nil => simp
  | cons k keys ih =>
    obtain ⟨hk, hkeys⟩ := List.forall_mem_cons.1 h
    rw [List.foldl_cons, ih _ hkeys, place, hk]
    simp

/-- The keys of a table definition are kept in their order: the primary key stands in front. -/
theorem entry_setTable_uniqueKeys (c : KeyCatalog) (table : Bytes) (d : TableDef) :
    (c.setTable table d.uniqueKeys).entry (tableName table)
      = (d.uniqueKeys.filter fun k => !k.columns.isEmpty).map normalize := by
  rw [setTable, entry_setEntry_self]
  have hsecondary : ∀ ks : List TableIndex, ∀ k ∈ ((ks.map fun k =>
      (⟨k.name, k.columns.map KeyPart.name, false⟩ : TableKey)).filter
        fun k => !k.columns.isEmpty).map normalize, k.primary = false := by
    intro ks k hk
    obtain ⟨k', hk', rfl⟩ := List.mem_map.1 hk
    obtain ⟨i, -, rfl⟩ := List.mem_map.1 (List.mem_filter.1 hk').1
    rfl
  rw [TableDef.uniqueKeys]
  split
  · rw [List.nil_append, foldl_place_secondary _ (hsecondary _), List.nil_append]
  · rename_i hprimary
    have hcolumns : d.primaryKey.isEmpty = false := by simpa using hprimary
    rw [List.singleton_append, List.filter_cons]
    simp only [hcolumns, Bool.not_false, if_true, List.map_cons, List.foldl_cons]
    rw [foldl_place_secondary _ (hsecondary _)]
    rfl

end KeyCatalog

/-! ## What a run of the rules does with the catalog -/

/-- The draft is of the same kind and with the same catalog. -/
def Draft.SameTables (d d' : Draft) : Prop :=
  d'.kind = d.kind ∧ d'.catalog = d.catalog

theorem Draft.sameTables_showTables (d : Draft) : d.SameTables d.showTables := by
  rw [showTables]
  split <;> exact ⟨rfl, rfl⟩

/-- A rule that fails on queries only, and hands on kind and catalog as they were. -/
def Rule.Steady (r : Rule) : Prop :=
  ∀ d, d.kind ≠ .select → ∃ d', r.run d = .ok d' ∧ d.SameTables d'

theorem Rule.steady_total {f : Draft → Draft} (hf : ∀ d, Draft.SameTables d (f d)) (name : String)
    (kinds : List Kind) : (Rule.total name kinds f).Steady := by
  intro d _
  by_cases hmem : d.kind ∈ kinds
  · exact ⟨f d, Rule.run_of_mem (r := .total name kinds f) hmem, hf d⟩
  · exact ⟨d, Rule.run_of_notMem hmem, rfl, rfl⟩

/-- Only the rules for table definitions change the catalog, and only the one for sort columns can
fail. -/
theorem steady_of_mem : ∀ r ∈ conversionRules,
    r.name ∉ ["create-table", "alter-table"] → r.Steady := by
  apply forall_conversionRules
  case onText =>
    exact fun name kinds f _ => Rule.steady_total (f := Draft.mapText f) (fun _ => ⟨rfl, rfl⟩) _ _
  case patterns =>
    exact fun _ => Rule.steady_total
      (f := fun d => { d with literals := singleQuotePatterns d.text d.literals })
      (fun _ => ⟨rfl, rfl⟩) _ _
  case zeroDates =>
    exact fun _ => Rule.steady_total
      (f := fun d => { d with literals := replaceZeroDates d.text d.literals })
      (fun _ => ⟨rfl, rfl⟩) _ _
  case sortColumns =>
    intro _ d hk
    exact ⟨d, Rule.run_of_notMem (mt List.mem_singleton.1 hk), rfl, rfl⟩
  case showTables =>
    exact fun _ => Rule.steady_total Draft.sameTables_showTables _ _
  case createTable => exact fun h => absurd (by decide) h
  case alterTable => exact fun h => absurd (by decide) h
  case onDuplicate =>
    refine fun _ => Rule.steady_total (f := Draft.onDuplicate) (fun d => ?_) _ _
    rw [Draft.onDuplicate]
    repeat' split
    all_goals exact ⟨rfl, rfl⟩
  case insertIgnore =>
    refine fun _ => Rule.steady_total (f := Draft.insertIgnore) (fun d => ?_) _ _
    rw [Draft.insertIgnore]
    split <;> exact ⟨rfl, rfl⟩

theorem runRules_of_steady {rs : List Rule} (hrs : ∀ r ∈ rs, r.Steady) {d : Draft}
    (hk : d.kind ≠ .select) : ∃ d', runRules rs d = .ok d' ∧ d.SameTables d' := by
  induction rs generalizing d with
  | nil => exact ⟨d, rfl, rfl, rfl⟩
  | cons r rs ih =>
    obtain ⟨hr, hrs⟩ := List.forall_mem_cons.1 hrs
    obtain ⟨d₁, hrun, hkind, hcatalog⟩ := hr d hk
    obtain ⟨d₂, hrun₂, hkind₂, hcatalog₂⟩ := ih hrs (d := d₁) (by rwa [hkind])
    refine ⟨d₂, ?_, hkind₂.trans hkind, hcatalog₂.trans hcatalog⟩
    rw [runRules_cons, hrun]
    exact hrun₂

/-- The rules behind those for table definitions. -/
def rulesForRows : List Rule :=
  rulesAfter "alter-table"

theorem steady_of_mem_rulesForRows : ∀ r ∈ rulesForRows, r.Steady := by
  have hnames : ∀ r ∈ rulesForRows, r.name ∉ ["create-table", "alter-table"] := by decide
  intro r hr
  refine steady_of_mem r ?_ (hnames r hr)
  exact (List.dropWhile_suffix _).mem (List.mem_of_mem_drop hr)

/-- What the rules for table definitions do to a statement without backticks. -/
def Draft.define (d : Draft) : Draft :=
  match d.kind with
  | .other => d.showTables
  | .createTable => d.createTable
  | .alterTable => d.alterTable
  | _ => d

theorem Draft.kind_createTable (d : Draft) : d.createTable.kind = d.kind := by
  rw [createTable]
  split <;> rfl

theorem Rule.run_total_one (name : String) (k : Kind) (f : Draft → Draft) (d : Draft) :
    (Rule.total name [k] f).run d = .ok (if d.kind = k then f d else d) := by
  by_cases hk : d.kind = k
  · rw [if_pos hk, Rule.run_of_mem (List.mem_singleton.2 hk)]
    rfl
  · rw [if_neg hk, Rule.run_of_notMem (mt List.mem_singleton.1 hk)]

/-- A statement first loses its backticks, then goes through the rule for table definitions of its
kind, and then through rules that keep the catalog. -/
theorem runRules_conversionRules (d : Draft) :
    runRules conversionRules d = runRules rulesForRows (d.mapText replaceBackticks).define := by
  have hbackticks : (Rule.onText "backticks" Kind.all replaceBackticks).run d
      = .ok (d.mapText replaceBackticks) := by
    refine Rule.run_of_mem ?_
    cases d.kind <;> decide
  have hcut : conversionRules
      = .onText "backticks" Kind.all replaceBackticks ::
          ([.total "show-tables" [.other] Draft.showTables,
            .total "create-table" [.createTable] Draft.createTable,
            .total "alter-table" [.alterTable] Draft.alterTable] ++ rulesForRows) := rfl
  rw [hcut, runRules_cons, hbackticks]
  show runRules (_ ++ rulesForRows) _ = _
  generalize d.mapText replaceBackticks = d₀
  have hdefine : runRules [.total "show-tables" [.other] Draft.showTables,
      .total "create-table" [.createTable] Draft.createTable,
      .total "alter-table" [.alterTable] Draft.alterTable] d₀ = .ok d₀.define := by
    simp only [runRules_cons, Rule.run_total_one, Except.bind, Draft.define]
    -- each of the three rules is for a kind of its own and keeps the kind
    cases hk : d₀.kind with
    | other => simp [hk, d₀.sameTables_showTables.1, runRules, pure, Except.pure]
    | createTable => simp [hk, Draft.kind_createTable, runRules, pure, Except.pure]
    | _ => simp [hk, runRules, pure, Except.pure]
  rw [runRules_append, hdefine]
  rfl

theorem Draft.kind_define (d : Draft) : d.define.kind = d.kind := by
  rw [define]
  split
  · exact d.sameTables_showTables.1
  · exact d.kind_createTable
  · rfl
  · rfl

/-- What the rules make of the catalog, for every kind but queries: they always come to an end, and
the catalog is the one that the table definition leaves. -/
theorem runRules_catalog {d : Draft} (hk : d.kind ≠ .select) :
    ∃ d', runRules conversionRules d = .ok d' ∧
      d'.catalog = (d.mapText replaceBackticks).define.catalog := by
  rw [runRules_conversionRules]
  obtain ⟨d', hrun, -, hcatalog⟩ := runRules_of_steady steady_of_mem_rulesForRows
    (d := (d.mapText replaceBackticks).define) (by rwa [Draft.kind_define])
  exact ⟨d', hrun, hcatalog⟩

/-! ## The table that a statement defines -/

/-- The table whose keys a statement may change, by its name in the catalog: that of an accepted
CREATE TABLE or of an ALTER TABLE. -/
def changedTable? (opts : TypeOptions) (sql : Bytes) : Option Bytes :=
  let text := replaceBackticks (shield sql).1
  let lits := (shield sql).2
  match Kind.ofStatement sql with
  | .createTable =>
    (createTable? text lits opts).map fun t =>
      KeyCatalog.tableName (bareName t.definition.name lits)
  | .alterTable =>
    (alterTablePattern.find? text).map fun m =>
      KeyCatalog.tableName (bareName (lastSegment (normalizeName (m.group 2))) lits)
  | _ => none

theorem entry_alterTable {s : Bytes} {lits : LiteralTable} {name : Bytes}
    (h : (alterTablePattern.find? s).map (fun m =>
      KeyCatalog.tableName (bareName (lastSegment (normalizeName (m.group 2))) lits)) ≠ some name)
    (opts : TypeOptions) (c : KeyCatalog) :
    (alterTable s lits opts c).2.entry name = c.entry name := by
  cases hm : alterTablePattern.find? s with
  | none => simp only [alterTable, hm]
  | some m =>
    rw [hm, Option.map_some, ne_eq, Option.some.injEq] at h
    rw [snd_alterTable hm]
    exact KeyCatalog.entry_foldl_register_other (Ne.symm h) _ c

variable {κ : Type}

/-- A statement keeps what is known about every table but the one that it changes. -/
theorem entry_define {c : Converter κ} {sql name : Bytes}
    (h : changedTable? c.options sql ≠ some name) :
    ((c.draft sql).mapText replaceBackticks).define.catalog.entry name = c.catalog.entry name := by
  have hkind : ((c.draft sql).mapText replaceBackticks).kind = Kind.ofStatement sql := rfl
  rw [Draft.define, hkind]
  rw [changedTable?] at h
  cases hk : Kind.ofStatement sql with
  | other => exact congrArg (·.entry name) (Draft.sameTables_showTables _).2
  | createTable =>
    rw [hk] at h
    dsimp only [Draft.createTable]
    split
    · rename_i t ht
      have htable : KeyCatalog.tableName (bareName t.definition.name (shield sql).2) ≠ name := by
        intro heq
        apply h
        rw [← heq]
        exact congrArg (Option.map _) ht
      exact KeyCatalog.entry_setTable_other _ (Ne.symm htable) _
    · rfl
  | alterTable =>
    rw [hk] at h
    exact entry_alterTable h c.options c.catalog
  | _ => rfl

/-- After an accepted CREATE TABLE the catalog knows the keys of the table in their order. -/
theorem entry_define_createTable {c : Converter κ} {sql : Bytes} {t : CreatedTable}
    (hk : Kind.ofStatement sql = .createTable)
    (ht : createTable? (replaceBackticks (shield sql).1) (shield sql).2 c.options = some t) :
    ((c.draft sql).mapText replaceBackticks).define.catalog.entry
        (KeyCatalog.tableName (bareName t.definition.name (shield sql).2))
      = (t.definition.uniqueKeys.filter fun k => !k.columns.isEmpty).map KeyCatalog.normalize := by
  have hkind : ((c.draft sql).mapText replaceBackticks).kind = .createTable := hk
  have hcreate : createTable? ((c.draft sql).mapText replaceBackticks).text
      ((c.draft sql).mapText replaceBackticks).literals
      ((c.draft sql).mapText replaceBackticks).options = some t := ht
  simp only [Draft.define, hkind, Draft.createTable, hcreate]
  exact KeyCatalog.entry_setTable_uniqueKeys _ _ _

/-! ## Runs of a pool -/

variable [Cache κ]

/-- A statement of none of the plain kinds is never taken from the store: it becomes what the rules
make of it. -/
theorem Converter.convert_of_runRules (c : Converter κ) (session : Option Session) {sql : Bytes}
    (hk : Kind.ofStatement sql ∉ plainKinds) {d : Draft}
    (hrun : SqlDialect.runRules conversionRules (c.draft sql) = .ok d) :
    (c.convert session sql).output = d.result ∧
      (c.convert session sql).converter.catalog = d.catalog := by
  have hlookup : ¬ IsLookup sql := by
    rintro ⟨hselect, -⟩
    rw [hselect] at hk
    exact hk (by decide)
  have hstored := c.stored?_eq_none (mt mem_plainKinds_of_isMemoizable hk)
  have hsettle : c.settle sql (Kind.ofStatement sql) (shield sql).1 (shield sql).2
      = (d.result, d.catalog) := by
    rw [settle, convertFresh, show c.runRules (Kind.ofStatement sql) (shield sql).1 (shield sql).2
      = .ok d from hrun]
  obtain ⟨houtput, l, -, hconverter⟩ := c.convert_of_unstored session hlookup hstored
  rw [hsettle] at houtput hconverter
  refine ⟨houtput, ?_⟩
  rw [hconverter]
  rfl

/-- The catalog after a statement of a kind that is not a query is the one that its table definition
leaves. -/
theorem Converter.catalog_convert (c : Converter κ) (session : Option Session) {sql : Bytes}
    (hk : Kind.ofStatement sql ∉ plainKinds) :
    (c.convert session sql).converter.catalog
      = ((c.draft sql).mapText replaceBackticks).define.catalog := by
  have hselect : (c.draft sql).kind ≠ .select := by
    intro h
    apply hk
    rw [show Kind.ofStatement sql = .select from h]
    decide
  obtain ⟨d, hrun, hcatalog⟩ := runRules_catalog hselect
  rw [(c.convert_of_runRules session hk hrun).2, hcatalog]

/-- An ALTER TABLE statement registers the keys of its specifications. -/
theorem Converter.catalog_convert_alterTable (c : Converter κ) (session : Option Session) {sql : Bytes}
    (hk : Kind.ofStatement sql = .alterTable) {m : Match}
    (hm : alterTablePattern.find? (replaceBackticks (shield sql).1) = some m) :
    (c.convert session sql).converter.catalog
      = ((alterEffects m (shield sql).2 c.options).filterMap AlterEffect.key).foldl (fun k key =>
          k.register (bareName (lastSegment (normalizeName (m.group 2))) (shield sql).2) key)
        c.catalog := by
  have hplain : Kind.ofStatement sql ∉ plainKinds := by
    rw [hk]
    decide
  have hkind : ((c.draft sql).mapText replaceBackticks).kind = .alterTable := hk
  rw [c.catalog_convert session hplain, ← snd_alterTable hm (shield sql).2 c.options c.catalog]
  simp only [Draft.define, hkind]
  rfl

/-- Statements of the plain kinds leave the catalog alone. -/
theorem Converter.catalog_convert_plain (c : Converter κ) (session : Option Session) {sql : Bytes}
    (hk : Kind.ofStatement sql ∈ plainKinds) :
    (c.convert session sql).converter.catalog = c.catalog := by
  by_cases hlookup : IsLookup sql
  · rw [(c.convert_of_isLookup session hlookup).2]
    exact c.settle_snd (by decide) _ _ _
  · cases hstored : c.stored? sql with
    | some out =>
      rw [(c.convert_of_stored session hlookup hstored).2]
      rfl
    | none =>
      obtain ⟨-, l, -, h⟩ := c.convert_of_unstored session hlookup hstored
      rw [h]
      exact c.settle_snd hk _ _ _

/-- A statement keeps what is known about every table but the one that it changes. -/
theorem Converter.entry_convert (c : Converter κ) (session : Option Session) {sql name : Bytes}
    (h : changedTable? c.options sql ≠ some name) :
    (c.convert session sql).converter.catalog.entry name = c.catalog.entry name := by
  by_cases hk : Kind.ofStatement sql ∈ plainKinds
  · rw [c.catalog_convert_plain session hk]
  · rw [c.catalog_convert session hk, entry_define h]

/-- The table whose keys a step may change. -/
def PoolStep.changedTable? (opts : TypeOptions) : PoolStep → Option Bytes
  | .convert _ sql => SqlDialect.changedTable? opts sql
  | .reset _ => none
  | .catalog (.register table _) => some (KeyCatalog.tableName table)
  | .catalog (.setTable table _) => some (KeyCatalog.tableName table)
  | .catalog _ => none

namespace SessionPool

/-- One step keeps what is known about every table but the one that it changes. -/
theorem entry_step (p : SessionPool κ) {s : PoolStep} {name : Bytes}
    (h : s.changedTable? p.converter.options ≠ some name) :
    (p.step s).converter.catalog.entry name = p.converter.catalog.entry name := by
  cases s with
  | convert session sql =>
    rw [step_convert, converter_setSession]
    exact p.converter.entry_convert (p.session? session) h
  | reset session => exact congrArg (fun c : Converter κ => c.catalog.entry name) (converter_setSession _ _ _)
  | catalog s =>
    cases s with
    | register table key =>
      exact KeyCatalog.entry_register_other _ (fun heq => h (by rw [heq]; rfl)) key
    | setTable table keys =>
      exact KeyCatalog.entry_setTable_other _ (fun heq => h (by rw [heq]; rfl)) keys
    | _ => rfl

/-- Steps that do not change a table keep what is known about it. -/
theorem entry_run (p : SessionPool κ) {steps : List PoolStep} {name : Bytes}
    (h : ∀ s ∈ steps, s.changedTable? p.converter.options ≠ some name) :
    (p.run steps).converter.catalog.entry name = p.converter.catalog.entry name := by
  induction steps generalizing p with
  | nil => rfl
  | cons s steps ih =>
    obtain ⟨hs, hsteps⟩ := List.forall_mem_cons.1 h
    show ((p.step s).run steps).converter.catalog.entry name = _
    rw [ih (p.step s) (by rwa [options_step]), p.entry_step hs]

/-- After an accepted CREATE TABLE and steps that leave the table alone the catalog knows the keys of
the table in their order. -/
theorem entry_run_createTable (p : SessionPool κ) (session : Bytes) {sql : Bytes} {t : CreatedTable}
    (hk : Kind.ofStatement sql = .createTable)
    (ht : createTable? (replaceBackticks (shield sql).1) (shield sql).2 p.converter.options = some t)
    {name : Bytes} (hname : KeyCatalog.tableName (bareName t.definition.name (shield sql).2) = name)
    {steps : List PoolStep}
    (hsteps : ∀ s ∈ steps, s.changedTable? p.converter.options ≠ some name) :
    (p.run (.convert session sql :: steps)).converter.catalog.entry name
      = (t.definition.uniqueKeys.filter fun k => !k.columns.isEmpty).map KeyCatalog.normalize := by
  show ((p.step (.convert session sql)).run steps).converter.catalog.entry name = _
  rw [entry_run _ (by rwa [options_step]), step_convert, converter_setSession, ← hname,
    ← entry_define_createTable hk ht]
  have hplain : Kind.ofStatement sql ∉ plainKinds := by
    rw [hk]
    decide
  have hcatalog := p.converter.catalog_convert (p.session? session) hplain
  exact congrArg (fun c => KeyCatalog.entry c _) hcatalog

end SessionPool

end SqlDialect
