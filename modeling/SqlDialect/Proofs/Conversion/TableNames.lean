import SqlDialect.Proofs.Conversion.Report
import SqlDialect.Proofs.Identifier.TableName
import SqlDialect.Proofs.Query.Upsert

set_option autoImplicit false

/-! # The table that a statement means

CREATE TABLE, ALTER TABLE and upserts each find the catalog's entry for the table that they name, and
each in a way of its own. For a table name they all come to the same entry, with two exceptions: a
definition does not cut off the schema where the catalog cannot, and a bare schema in front of a
quoted table is taken for a part of one quoted name by the statements that define tables. -/

namespace SqlDialect

open Bytes

/-! ## Statements that name a table -/

namespace TableName

/-- The statement creates the table. -/
def CreatedBy (n : TableName) (sql : Bytes) : Prop :=
  Kind.ofStatement sql = .createTable ∧
    ∃ m ∈ createTablePattern.find? (replaceBackticks (shield sql).1),
      n.Written (shield sql).2 (m.group 3)

/-- The statement alters the table. -/
def AlteredBy (n : TableName) (sql : Bytes) : Prop :=
  Kind.ofStatement sql = .alterTable ∧
    ∃ m ∈ alterTablePattern.find? (replaceBackticks (shield sql).1),
      n.Written (shield sql).2 (m.group 2)

variable {κ : Type}

/-- The rule for upserts gets the statement as an insert into the table, with the literals that it
has by then. -/
def InsertedBy (n : TableName) (c : Converter κ) (sql : Bytes) (ins : Insert) (lits : LiteralTable) :
    Prop :=
  Kind.ofStatement sql = .insert ∧
    ∃ d, runRules (rulesBefore upsertRuleName) (c.draft sql) = .ok d ∧
      Insert.ofText? d.text = some ins ∧ d.literals = lits ∧ n.Written lits ins.table

end TableName

/-! ## What an insert reads -/

/-- For inserts every rule but the one for upserts carries the catalog along. -/
theorem carriesCatalog_insert_of_mem (k : KeyCatalog) :
    ∀ r ∈ conversionRules, r.name ≠ upsertRuleName →
      KeepsInStep (CarriesCatalog .insert k) r.run := by
  have hskip : ∀ (k' : Kind) (name : String) (f : Draft → Draft), k' ≠ .insert →
      KeepsInStep (CarriesCatalog .insert k) (Rule.total name [k'] f).run := by
    intro k' name f hk'
    apply keepsInStep_run
    intro hmem
    exact absurd (List.mem_singleton.1 hmem).symm hk'
  apply forall_conversionRules
  case onText => exact fun name kinds f _ => carriesCatalog_onText name kinds f _ k
  case patterns => exact fun _ => carriesCatalog_onLiterals _ _ _ _ k
  case zeroDates => exact fun _ => carriesCatalog_onLiterals _ _ _ _ k
  case sortColumns => exact fun _ => carriesCatalog_sortRule _ k
  case showTables => exact fun _ => carriesCatalog_showTables _ _ _ k
  case createTable => exact fun _ => hskip _ _ _ (by decide)
  case alterTable => exact fun _ => hskip _ _ _ (by decide)
  case onDuplicate => exact fun h => absurd rfl h
  case insertIgnore =>
    intro _
    apply keepsInStep_run
    rintro - d₁ d₂ ⟨hk, rfl⟩
    show CarriesCatalog .insert k d₁.insertIgnore (d₁.withCatalog k).insertIgnore
    simp only [Draft.insertIgnore, Draft.withCatalog]
    cases ignoringInsert? d₁.text with
    | none => exact ⟨hk, rfl⟩
    | some ins => exact ⟨hk, rfl⟩

/-- An insert with the same keys for its table has the same conflict target. -/
theorem Insert.conflictTarget_congr {ins : Insert} {lits : LiteralTable} {k k' : KeyCatalog}
    (h : k.keys (bareName (lastSegment ins.table) lits)
      = k'.keys (bareName (lastSegment ins.table) lits)) :
    ins.conflictTarget k lits = ins.conflictTarget k' lits := by
  simp only [conflictTarget, KeyCatalog.conflictTarget?, h]

theorem Draft.onDuplicate_withCatalog {d : Draft} {k : KeyCatalog}
    (h : ∀ ins, Insert.ofText? d.text = some ins →
      ins.conflictTarget k d.literals = ins.conflictTarget d.catalog d.literals) :
    (d.withCatalog k).onDuplicate = d.onDuplicate.withCatalog k := by
  have hconvert : convertOnDuplicate? d.text d.literals k
      = convertOnDuplicate? d.text d.literals d.catalog := by
    rw [convertOnDuplicate?, convertOnDuplicate?]
    cases hins : Insert.ofText? d.text with
    | none => rfl
    | some ins => simp only [Option.bind_eq_bind, Option.bind_some, h ins hins]
  simp only [Draft.onDuplicate, Draft.withCatalog, hconvert]
  split
  · split <;> rfl
  · rfl

/-- Two runs on an insert stay in step if the rule for upserts writes the same with either catalog. -/
theorem endAlike_insert {d : Draft} (hk : d.kind = .insert) {k : KeyCatalog}
    (h : ∀ d', runRules (rulesBefore upsertRuleName) d = .ok d' →
      (d'.withCatalog k).onDuplicate = d'.onDuplicate.withCatalog k) :
    EndAlike (CarriesCatalog .insert k) (runRules conversionRules d)
      (runRules conversionRules (d.withCatalog k)) := by
  -- only the rule for upserts reads the catalog, and the hypothesis says what it does
  have hkeeps : ∀ rs : List Rule, (∀ r ∈ rs, r ∈ conversionRules ∧ r.name ≠ upsertRuleName) →
      KeepsInStep (CarriesCatalog .insert k) (runRules rs) :=
    fun rs hrs => keepsInStep_runRules fun r hr =>
      carriesCatalog_insert_of_mem k r (hrs r hr).1 (hrs r hr).2
  have hrules : conversionRules = rulesBefore upsertRuleName ++
      .total upsertRuleName [.insert] Draft.onDuplicate :: rulesAfter upsertRuleName := rfl
  have hbefore : ∀ r ∈ rulesBefore upsertRuleName,
      r ∈ conversionRules ∧ r.name ≠ upsertRuleName := by
    have hnames : ∀ r ∈ rulesBefore upsertRuleName, r.name ≠ upsertRuleName := by decide
    exact fun r hr => ⟨by rw [hrules]; exact List.mem_append_left _ hr, hnames r hr⟩
  have hafter : ∀ r ∈ rulesAfter upsertRuleName,
      r ∈ conversionRules ∧ r.name ≠ upsertRuleName := by
    have hnames : ∀ r ∈ rulesAfter upsertRuleName, r.name ≠ upsertRuleName := by decide
    exact fun r hr => ⟨by rw [hrules]; exact List.mem_append_right _ (List.mem_cons_of_mem _ hr),
      hnames r hr⟩
  have hreached := hkeeps _ hbefore d (d.withCatalog k) ⟨hk, rfl⟩
  rw [hrules, runRules_append, runRules_append]
  cases h₁ : runRules (rulesBefore upsertRuleName) d with
  | error f =>
    cases h₂ : runRules (rulesBefore upsertRuleName) (d.withCatalog k) with
    | error f' => rwa [h₁, h₂] at hreached
    | ok d₂ => rw [h₁, h₂] at hreached; exact hreached.elim
  | ok d₁ =>
    cases h₂ : runRules (rulesBefore upsertRuleName) (d.withCatalog k) with
    | error f => rw [h₁, h₂] at hreached; exact hreached.elim
    | ok d₂ =>
      rw [h₁, h₂] at hreached
      obtain ⟨hk₁, rfl⟩ := hreached
      show EndAlike _ (runRules (_ :: rulesAfter upsertRuleName) d₁)
        (runRules (_ :: rulesAfter upsertRuleName) (d₁.withCatalog k))
      rw [runRules_cons, runRules_cons, Rule.run_total_one, Rule.run_total_one, if_pos hk₁,
        if_pos (show (d₁.withCatalog k).kind = .insert from hk₁)]
      exact hkeeps _ hafter d₁.onDuplicate _ ⟨d₁.kind_onDuplicate.trans hk₁, h d₁ h₁⟩

variable {κ : Type} [Cache κ]

/-- An insert is answered from what the catalog knows where its conflict target is looked up. -/
theorem Converter.output_insert_withCatalog (c : Converter κ) (session : Option Session)
    {sql : Bytes} (hk : Kind.ofStatement sql = .insert) {k : KeyCatalog}
    (h : ∀ d ins, SqlDialect.runRules (rulesBefore upsertRuleName) (c.draft sql) = .ok d →
      Insert.ofText? d.text = some ins →
      ins.conflictTarget k d.literals = ins.conflictTarget c.catalog d.literals) :
    (({ c with catalog := k } : Converter κ).convert session sql).output
      = (c.convert session sql).output := by
  have hplain : Kind.ofStatement sql ∉ plainKinds := by
    rw [hk]
    decide
  have hcatalog : ∀ d, SqlDialect.runRules (rulesBefore upsertRuleName) (c.draft sql) = .ok d →
      d.catalog = c.catalog := by
    intro d hd
    obtain ⟨lits, hbefore⟩ := runRules_before_upsert (d := c.draft sql) hk
    obtain rfl := Except.ok.inj (hbefore.symm.trans hd)
    rfl
  have halike := endAlike_insert (d := c.draft sql) hk (k := k) fun d hd =>
    Draft.onDuplicate_withCatalog fun ins hins => by rw [hcatalog d hd]; exact h d ins hd hins
  have hselect : (c.draft sql).kind ≠ .select := by
    rw [show (c.draft sql).kind = .insert from hk]
    decide
  obtain ⟨e, he, -⟩ := runRules_catalog hselect
  cases he' : SqlDialect.runRules conversionRules ((c.draft sql).withCatalog k) with
  | error f => rw [he, he'] at halike; exact halike.elim
  | ok e' =>
    rw [he, he'] at halike
    obtain ⟨-, rfl⟩ := halike
    rw [(c.convert_of_runRules session hplain he).1,
      (Converter.convert_of_runRules { c with catalog := k } session hplain he').1]
    rfl

/-! ## One entry for all -/

/-- **All statements mean the same table.** Whatever a table is called, bare or in quotes, with or without a
schema: an upsert looks up its conflict target in the entry of the name's table segment, and what the
catalog knows about other tables does not change its answer. ALTER TABLE adds the keys of its
specifications to this entry, one after the other, and to no other entry, unless a bare schema stands
in front of a table in quotes. CREATE TABLE replaces this entry and no other, unless the catalog
cannot cut the name. -/
theorem Converter.statements_share_entry (c : Converter κ) (session : Option Session) (n : TableName)
    (sql : Bytes) :
    (∀ t, n.CreatedBy sql → n.CutByCatalog → createdTable? c.options sql = some t →
      (c.convert session sql).converter.catalog = c.catalog.setEntry n.entry
        (((t.definition.uniqueKeys.filter fun k => !k.columns.isEmpty).map
          KeyCatalog.normalize).foldl KeyCatalog.place [])) ∧
    (∀ m, n.AlteredBy sql → n.KeepsSegments →
      alterTablePattern.find? (replaceBackticks (shield sql).1) = some m →
      (c.convert session sql).converter.catalog.entry n.entry
        = ((alterEffects m (shield sql).2 c.options).filterMap AlterEffect.key).foldl
          KeyCatalog.addKey (c.catalog.entry n.entry) ∧
      ∀ other, other ≠ n.entry →
        (c.convert session sql).converter.catalog.entry other = c.catalog.entry other) ∧
    (∀ ins lits, n.InsertedBy c sql ins lits →
      (∀ k : KeyCatalog, k.keys (bareName (lastSegment ins.table) lits) = k.entry n.entry) ∧
      ∀ k : KeyCatalog, k.entry n.entry = c.catalog.entry n.entry →
        (({ c with catalog := k } : Converter κ).convert session sql).output
          = (c.convert session sql).output) := by
  refine ⟨?_, ?_, ?_⟩
  · rintro t ⟨hk, m, hm, hwritten⟩ hcut ht
    rw [c.catalog_convert_createdTable session ht, KeyCatalog.setTable]
    rw [createdTable?, if_pos hk] at ht
    rw [name_createTable? hm ht, TableName.entry_of_whole hwritten hcut]
  · rintro m ⟨hk, m', hm', hwritten⟩ hkeeps hm
    obtain rfl : m' = m := Option.some.inj (hm'.symm.trans hm)
    have hentry := TableName.entry_of_rendered hwritten hkeeps
    rw [c.catalog_convert_alterTable session hk hm, ← hentry]
    exact ⟨KeyCatalog.entry_foldl_register_self _ _ _,
      fun other hother => KeyCatalog.entry_foldl_register_other hother _ _⟩
  · rintro ins lits ⟨hk, d, hd, hins, rfl, hwritten⟩
    have hread : ∀ k : KeyCatalog,
        k.keys (bareName (lastSegment ins.table) d.literals) = k.entry n.entry := by
      intro k
      rw [KeyCatalog.keys, TableName.entry_of_written hwritten]
    refine ⟨hread, fun k hentry => ?_⟩
    refine c.output_insert_withCatalog session hk fun d' ins' hd' hins' => ?_
    obtain rfl := Except.ok.inj (hd.symm.trans hd')
    obtain rfl := Option.some.inj (hins.symm.trans hins')
    exact Insert.conflictTarget_congr (by rw [hread, hread, hentry])

/-- A table in a schema whose name needs quotes: the definition puts the primary key into the entry `t`,
the alteration adds the unique key and the primary key that it names to it, and this is the entry
that the insert reads. -/
theorem Converter.statements_share_entry_schema :
    let n : TableName := ⟨some (.quoted (ascii "key")), .bare (ascii "t")⟩
    let create := ascii "CREATE TABLE `key`.t (a int, id int, PRIMARY KEY (id))"
    let alter := ascii "ALTER TABLE `key`.t ADD UNIQUE KEY k (a), ADD PRIMARY KEY (id)"
    let insert := ascii "INSERT INTO `key`.t VALUES (1, 2) ON DUPLICATE KEY UPDATE a = VALUES(a)"
    n.CutByCatalog ∧ n.KeepsSegments ∧ n.entry = ascii "t" ∧
    (({} : Converter).convert none create).converter.catalog
      = ({} : KeyCatalog).setEntry (ascii "t") [⟨ascii "PRIMARY", [ascii "id"], true⟩] ∧
    (({} : Converter).convert none alter).converter.catalog.entry (ascii "t")
      = [⟨ascii "PRIMARY", [ascii "id"], true⟩, ⟨ascii "k", [ascii "a"], false⟩] ∧
    ∃ ins lits, n.InsertedBy ({} : Converter) insert ins lits ∧
      ∀ k : KeyCatalog, k.keys (bareName (lastSegment ins.table) lits) = k.entry (ascii "t") := by
  intro n create alter insert
  have hcreate : create = _ := ascii_ofList _
  have halter : alter = _ := ascii_ofList _
  have hinsert : insert = _ := ascii_ofList _
  have hwritten : ∀ lits, n.Written lits (ascii "\"key\".t") := fun lits =>
    ⟨doubleQuoted (ascii "key"), ascii "t", rfl, ⟨rfl, ⟨by decide, by decide⟩, by decide⟩,
      by decide⟩
  have hentry : n.entry = ascii "t" := by decide +kernel
  have hcreated : n.CreatedBy create := by
    have hname : (createTablePattern.find? (replaceBackticks (shield create).1)).map (·.group 3)
        = some (ascii "\"key\".t") := by
      rw [hcreate]
      decide +kernel
    obtain ⟨m, hm, hgroup⟩ := Option.map_eq_some_iff.1 hname
    have hkind : Kind.ofStatement create = .createTable := by
      rw [hcreate]
      decide +kernel
    exact ⟨hkind, m, hm, hgroup ▸ hwritten _⟩
  have hhead : (alterTablePattern.find? (replaceBackticks (shield alter).1)).map (fun m =>
        (m.group 2, (alterEffects m (shield alter).2 {}).filterMap AlterEffect.key))
      = some (ascii "\"key\".t",
        [⟨ascii "k", [ascii "a"], false⟩, ⟨ascii "PRIMARY", [ascii "id"], true⟩]) := by
    rw [halter]
    decide +kernel
  obtain ⟨m, hm, hadded⟩ := Option.map_eq_some_iff.1 hhead
  obtain ⟨hgroup, hadded⟩ := Prod.mk.inj hadded
  have haltered : n.AlteredBy alter := by
    have hkind : Kind.ofStatement alter = .alterTable := by
      rw [halter]
      decide +kernel
    exact ⟨hkind, m, hm, hgroup ▸ hwritten _⟩
  have hinserted : ∃ ins lits, n.InsertedBy ({} : Converter) insert ins lits := by
    have hkind : Kind.ofStatement insert = .insert := by
      rw [hinsert]
      decide +kernel
    obtain ⟨lits, hbefore⟩ := runRules_before_upsert (d := ({} : Converter).draft insert) hkind
    have hname : (Insert.ofText? (textAtUpsert (({} : Converter).draft insert).text)).map
        Insert.table = some (ascii "\"key\".t") := by
      rw [hinsert]
      decide +kernel
    obtain ⟨ins, hins, htable⟩ := Option.map_eq_some_iff.1 hname
    exact ⟨ins, lits, hkind, _, hbefore, hins, rfl, htable ▸ hwritten _⟩
  have hkeys : (createdTable? {} create).map (fun t => ((t.definition.uniqueKeys.filter
        fun k => !k.columns.isEmpty).map KeyCatalog.normalize).foldl KeyCatalog.place [])
      = some [⟨ascii "PRIMARY", [ascii "id"], true⟩] := by
    rw [hcreate]
    decide +kernel
  obtain ⟨t, ht, hplaced⟩ := Option.map_eq_some_iff.1 hkeys
  have hcut : n.CutByCatalog := trivial
  have hcatalog :=
    (Converter.statements_share_entry ({} : Converter) none n create).1 t hcreated hcut ht
  have hregistered :=
    ((Converter.statements_share_entry ({} : Converter) none n alter).2.1 m haltered trivial hm).1
  obtain ⟨ins, lits, hins⟩ := hinserted
  have hread := (Converter.statements_share_entry ({} : Converter) none n insert).2.2 ins lits hins
  rw [hentry, hplaced] at hcatalog
  rw [hentry, show (alterEffects m (shield alter).2 ({} : Converter).options).filterMap
    AlterEffect.key = _ from hadded] at hregistered
  rw [hentry] at hread
  refine ⟨hcut, trivial, hentry, hcatalog, ?_, ins, lits, hins, hread.1⟩
  rw [hregistered]
  decide +kernel

/-- With both segments in quotes the definition of a table goes to an entry with a quote left in front of
the name, and the statements that alter it or insert into it miss it. With a bare schema and the
table in quotes an insert misses what the statements that define the table have noted. -/
theorem Converter.statements_miss_entry :
    let create := ascii "CREATE TABLE `key`.`order` (a int, id int, PRIMARY KEY (id))"
    let alter := ascii "ALTER TABLE `key`.`order` ADD UNIQUE KEY k (a)"
    let insert := ascii "INSERT INTO `key`.`order` (a, id) VALUES (1, 2) " ++
      ascii "ON DUPLICATE KEY UPDATE a = VALUES(a)"
    let mixed := ascii "CREATE TABLE s.`order` (a int, id int, PRIMARY KEY (id))"
    let c := (({} : Converter).convert none create).converter
    c.catalog.tables.map Prod.fst = [ascii "\"order"] ∧
    (c.convert none alter).converter.catalog.tables.map Prod.fst
      = [ascii "\"order", ascii "order"] ∧
    (c.convert none insert).output = ascii "INSERT INTO \"key\".\"order\" (a, id) VALUES (1, 2) " ++
      ascii "ON CONFLICT (a) DO UPDATE SET a = EXCLUDED.a RETURNING *" ∧
    (TableName.entry ⟨some (.quoted (ascii "key")), .quoted (ascii "order")⟩) = ascii "order" ∧
    (({} : Converter).convert none mixed).converter.catalog.tables.map Prod.fst
      = [ascii "\"order\""] ∧
    (TableName.entry ⟨some (.bare (ascii "s")), .quoted (ascii "order")⟩) = ascii "order" := by
  repeat rw [ascii_ofList]
  decide +kernel

end SqlDialect
