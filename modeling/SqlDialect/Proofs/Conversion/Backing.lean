import SqlDialect.Proofs.Conversion.Report
import SqlDialect.Proofs.Table.Backing

set_option autoImplicit false

/-! # The catalog against the output

Every unique key that the catalog lists has been put out by the statement from which it was learned,
as a unique index or as an attribute of a column. The step of one statement either keeps a key or
brings it in together with its output (`Converter.mem_entry_convert`), and a run does the same by
induction on the script (`SessionPool.mem_entry_run`).

The catalog only learns. It keeps a key until its table is defined anew, so it still lists a key whose
index has been dropped. -/

namespace SqlDialect

open Bytes

/-- The statement is an accepted definition of the table that the catalog knows under the name. -/
def DefinesTable (opts : TypeOptions) (sql entry : Bytes) : Prop :=
  ∃ t ∈ createdTable? opts sql,
    KeyCatalog.tableName (bareName t.definition.name (shield sql).2) = entry

/-- In a definition of a table the word UNIQUE stands behind the type of a column only as an attribute of
that column. -/
def StatesUniqueApart (opts : TypeOptions) (sql : Bytes) : Prop :=
  UniqueApart (replaceBackticks (shield sql).1) (shield sql).2 opts

instance (opts : TypeOptions) (sql : Bytes) : Decidable (StatesUniqueApart opts sql) :=
  inferInstanceAs (Decidable (UniqueApart _ _ _))

/-- The statement creates or alters the table, and what it is converted to makes the columns of the
key unique. -/
def Backs (opts : TypeOptions) (sql out entry : Bytes) (k : TableKey) : Prop :=
  changedTable? opts sql = some entry ∧
    (HasUniqueIndex (replaceBackticks (shield sql).1) (shield sql).2 entry k out ∨
      HasUniqueColumn (replaceBackticks (shield sql).1) (shield sql).2 opts entry k out)

theorem changedTable?_of_definesTable {opts : TypeOptions} {sql entry : Bytes}
    (h : DefinesTable opts sql entry) : changedTable? opts sql = some entry := by
  obtain ⟨t, ht, rfl⟩ := h
  rw [createdTable?] at ht
  split at ht
  · rename_i hk
    rw [changedTable?, hk]
    exact congrArg (Option.map _) ht
  · cases ht

/-- A table is changed by its definition, or by an ALTER TABLE statement that can be read. -/
theorem changedTable?_cases {opts : TypeOptions} {sql entry : Bytes}
    (h : changedTable? opts sql = some entry) :
    DefinesTable opts sql entry ∨ Kind.ofStatement sql = .alterTable ∧
      ∃ m, alterTablePattern.find? (replaceBackticks (shield sql).1) = some m ∧
        KeyCatalog.tableName (bareName (lastSegment (normalizeName (m.group 2))) (shield sql).2)
          = entry := by
  rw [changedTable?] at h
  cases hk : Kind.ofStatement sql with
  | createTable =>
    rw [hk] at h
    obtain ⟨t, ht, rfl⟩ := Option.map_eq_some_iff.1 h
    exact Or.inl ⟨t, by rw [createdTable?, if_pos hk]; exact ht, rfl⟩
  | alterTable =>
    rw [hk] at h
    obtain ⟨m, hm, rfl⟩ := Option.map_eq_some_iff.1 h
    exact Or.inr ⟨rfl, m, hm, rfl⟩
  | _ => rw [hk] at h; cases h

namespace Converter

variable {κ : Type} [Cache κ]

variable (c : Converter κ) (session : Option Session) {sql entry : Bytes} {k : TableKey}

/-- After an accepted definition the catalog lists the keys that were put out with it. -/
theorem backs_of_definesTable (h : DefinesTable c.options sql entry)
    (hapart : StatesUniqueApart c.options sql) (hprimary : k.primary = false)
    (hk : k ∈ (c.convert session sql).converter.catalog.entry entry) :
    Backs c.options sql (c.convert session sql).output entry k := by
  refine ⟨changedTable?_of_definesTable h, ?_⟩
  obtain ⟨t, ht, hentry⟩ := h
  rw [c.catalog_convert_createdTable session ht, ← hentry, KeyCatalog.entry_setTable_uniqueKeys]
    at hk
  obtain ⟨key, hkey, rfl⟩ := List.mem_map.1 hk
  have hcreate := ht
  rw [createdTable?] at hcreate
  split at hcreate
  · rename_i hkind
    rw [c.output_convert_createTable session hkind, Option.mem_def.1 ht]
    exact hasUnique_createTable? hcreate hapart (List.mem_filter.1 hkey).1 hprimary hentry
  · cases hcreate

/-- **One statement.** A key that is listed after a statement was listed before, and the statement does
not define the table, or the statement has put it out. -/
theorem mem_entry_convert (hapart : StatesUniqueApart c.options sql) (hprimary : k.primary = false)
    (hk : k ∈ (c.convert session sql).converter.catalog.entry entry) :
    (k ∈ c.catalog.entry entry ∧ ¬ DefinesTable c.options sql entry) ∨
      Backs c.options sql (c.convert session sql).output entry k := by
  by_cases hdefines : DefinesTable c.options sql entry
  · exact Or.inr (c.backs_of_definesTable session hdefines hapart hprimary hk)
  by_cases hchanged : changedTable? c.options sql = some entry
  · rcases changedTable?_cases hchanged with h | ⟨hkind, m, hm, hentry⟩
    · exact absurd h hdefines
    rw [c.catalog_convert_alterTable session hkind hm] at hk
    -- a key with the columns of a known one is not registered: then the known one is listed on
    rcases KeyCatalog.mem_entry_of_foldl_register hk with hold | ⟨-, key, hkey, rfl⟩
    · exact Or.inl ⟨hold, hdefines⟩
    · refine Or.inr ⟨hchanged, Or.inl ?_⟩
      rw [c.output_alterTable session hkind, ← hentry]
      exact hasUniqueIndex_alterTable hm c.catalog hkey hprimary
  · rw [c.entry_convert session hchanged] at hk
    exact Or.inl ⟨hk, hdefines⟩

/-- A key stays listed until its table is defined anew. -/
theorem mem_entry_convert_of_mem (hk : k ∈ c.catalog.entry entry)
    (hdefines : ¬ DefinesTable c.options sql entry) :
    k ∈ (c.convert session sql).converter.catalog.entry entry := by
  by_cases hchanged : changedTable? c.options sql = some entry
  · rcases changedTable?_cases hchanged with h | ⟨hkind, m, hm, -⟩
    · exact absurd h hdefines
    rw [c.catalog_convert_alterTable session hkind hm]
    exact KeyCatalog.mem_entry_foldl_register _ _ hk
  · rwa [c.entry_convert session hchanged]

end Converter

namespace SessionPool

variable {κ : Type} [Cache κ]

theorem catalog_step_convert (p : SessionPool κ) (name sql : Bytes) :
    (p.step (.convert name sql)).converter.catalog
      = (p.converter.convert (p.session? name) sql).converter.catalog := by
  rw [step_convert, converter_setSession]

/-- **A script.** A key that is listed at the end was listed at the start and its table is not defined,
or a statement has put it out and the table is not defined after that. -/
theorem mem_entry_run (p : SessionPool κ) (script : List (Bytes × Bytes))
    (hapart : ∀ s ∈ script, StatesUniqueApart p.converter.options s.2) {entry : Bytes}
    {k : TableKey} (hprimary : k.primary = false)
    (hk : k ∈ (p.run (script.map fun s => .convert s.1 s.2)).converter.catalog.entry entry) :
    (k ∈ p.converter.catalog.entry entry ∧
        ∀ s ∈ script, ¬ DefinesTable p.converter.options s.2 entry) ∨
      ∃ before s after out, script = before ++ s :: after ∧
        (p.run (before.map fun s => .convert s.1 s.2)).answer (.convert s.1 s.2)
          = .converted (Kind.ofStatement s.2) out ∧
        Backs p.converter.options s.2 out entry k ∧
        ∀ s' ∈ after, ¬ DefinesTable p.converter.options s'.2 entry := by
  -- what the rest of the script brings in is found there, and what it keeps comes from before
  induction script generalizing p with
  | nil => exact Or.inl ⟨hk, fun s hs => absurd hs List.not_mem_nil⟩
  | cons s script ih =>
    obtain ⟨hs, hscript⟩ := List.forall_mem_cons.1 hapart
    have hrest := ih (p.step (.convert s.1 s.2)) (by rwa [options_step]) hk
    rw [options_step, catalog_step_convert] at hrest
    rcases hrest with ⟨hstep, hundefined⟩ | ⟨before, s', after, out, rfl, hanswer, hbacks, hafter⟩
    · rcases p.converter.mem_entry_convert _ hs hprimary hstep with ⟨hold, hdefines⟩ | hbacks
      · exact Or.inl ⟨hold, List.forall_mem_cons.2 ⟨hdefines, hundefined⟩⟩
      · exact Or.inr ⟨[], s, script, _, rfl, p.answer_convert s.1 s.2, hbacks, hundefined⟩
    · exact Or.inr ⟨s :: before, s', after, out, rfl, hanswer, hbacks, hafter⟩

/-- **Every key that is listed has been put out.** Take any script that starts with an empty catalog and in
which the word UNIQUE stands behind the type of a column only as an attribute of that column. Each
key of a table that is listed and is not the primary one was put out by a statement of the script, as a
unique index of the table or as a column of its definition that has the attribute UNIQUE, over
exactly the columns of the key (for an index, if its list consists of columns), and the table was not
defined anew since. The key stays listed, whatever is dropped, until a statement defines the table
anew. -/
theorem listed_keys_backed (p : SessionPool κ) (hempty : p.converter.catalog = {})
    (script : List (Bytes × Bytes))
    (hapart : ∀ s ∈ script, StatesUniqueApart p.converter.options s.2) (table : Bytes) :
    ∀ k ∈ (p.run (script.map fun s => .convert s.1 s.2)).converter.catalog.keys table,
      k.primary = false →
      (∃ before s after out, script = before ++ s :: after ∧
        (p.run (before.map fun s => .convert s.1 s.2)).answer (.convert s.1 s.2)
          = .converted (Kind.ofStatement s.2) out ∧
        Backs p.converter.options s.2 out (KeyCatalog.tableName table) k ∧
        ∀ s' ∈ after, ¬ DefinesTable p.converter.options s'.2 (KeyCatalog.tableName table)) ∧
      ∀ session sql, ¬ DefinesTable p.converter.options sql (KeyCatalog.tableName table) →
        k ∈ ((p.run (script.map fun s => .convert s.1 s.2)).step
          (.convert session sql)).converter.catalog.keys table := by
  intro k hk hprimary
  constructor
  · rcases p.mem_entry_run script hapart hprimary hk with ⟨hold, -⟩ | hbacked
    · rw [hempty] at hold
      cases hold
    · exact hbacked
  · intro session sql hdefines
    rw [catalog_step_convert]
    refine Converter.mem_entry_convert_of_mem _ _ hk ?_
    rwa [options_run]

/-- A column whose name is the word stands in a check: the checked column is listed as a key although
nothing makes it unique. -/
example :
    let sql := ascii "CREATE TABLE t (a int CHECK (`unique` > 0), `unique` int)"
    ¬ StatesUniqueApart {} sql ∧
      (({} : Converter).convert none sql).converter.catalog.keys (ascii "t")
        = [⟨ascii "a", [ascii "a"], false⟩] := by
  decide +kernel

/-- The key of a clause with a length limit, before and after the statement that drops its index. -/
theorem listed_keys_backed_clause :
    let script := [(ascii "s", ascii "CREATE TABLE t (a int, b text UNIQUE, UNIQUE KEY k (b(10), a))"),
      (ascii "s", ascii "ALTER TABLE t ADD UNIQUE KEY j (a DESC)")]
    let drop := ascii "ALTER TABLE t DROP INDEX k"
    let p := ({} : SessionPool).run (script.map fun s => .convert s.1 s.2)
    let k : TableKey := ⟨ascii "k", [ascii "b", ascii "a"], false⟩
    (∀ s ∈ script, StatesUniqueApart {} s.2) ∧
    p.converter.catalog.keys (ascii "t")
      = [⟨ascii "b", [ascii "b"], false⟩, k, ⟨ascii "j", [ascii "a"], false⟩] ∧
    (∃ before s after out, script = before ++ s :: after ∧
      (({} : SessionPool).run (before.map fun s => .convert s.1 s.2)).answer (.convert s.1 s.2)
        = .converted (Kind.ofStatement s.2) out ∧
      Backs {} s.2 out (ascii "t") k ∧ ∀ s' ∈ after, ¬ DefinesTable {} s'.2 (ascii "t")) ∧
    ¬ DefinesTable {} drop (ascii "t") ∧
    k ∈ (p.step (.convert (ascii "s") drop)).converter.catalog.keys (ascii "t") := by
  intro script drop p k
  have hapart : ∀ s ∈ script, StatesUniqueApart {} s.2 := by decide +kernel
  have hkeys : p.converter.catalog.keys (ascii "t")
      = [⟨ascii "b", [ascii "b"], false⟩, k, ⟨ascii "j", [ascii "a"], false⟩] := by decide +kernel
  have hname : KeyCatalog.tableName (ascii "t") = ascii "t" := by decide +kernel
  have hdrop : ¬ DefinesTable {} drop (ascii "t") := by
    rintro ⟨t, ht, -⟩
    have hkind : Kind.ofStatement drop ≠ .createTable := by decide +kernel
    rw [createdTable?, if_neg hkind] at ht
    cases ht
  have hk : k ∈ p.converter.catalog.keys (ascii "t") := by
    rw [hkeys]
    exact List.mem_cons_of_mem _ List.mem_cons_self
  obtain ⟨hbacked, hkept⟩ := listed_keys_backed ({} : SessionPool) rfl script hapart (ascii "t") k hk rfl
  rw [hname] at hbacked hkept
  exact ⟨hapart, hkeys, hbacked, hdrop, hkept (ascii "s") drop hdrop⟩

/-- The only unique index of the table has been dropped, and its key is still listed. -/
theorem listed_key_dropped :
    let script := [(ascii "s", ascii "CREATE TABLE t (a int, UNIQUE KEY k (a))"),
      (ascii "s", ascii "ALTER TABLE t DROP INDEX k")]
    let steps : List PoolStep := script.map fun s => .convert s.1 s.2
    ({} : SessionPool).answers steps
      = [.converted .createTable (ascii "CREATE TABLE IF NOT EXISTS t (a int);" ++
          ascii "\nCREATE UNIQUE INDEX IF NOT EXISTS t_k ON t (a);"),
        .converted .alterTable (ascii "DROP INDEX IF EXISTS t_k")] ∧
    (({} : SessionPool).run steps).converter.catalog.keys (ascii "t")
      = [⟨ascii "k", [ascii "a"], false⟩] := by
  repeat rw [ascii_ofList]
  decide +kernel

end SessionPool

end SqlDialect
