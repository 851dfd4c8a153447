import Mathlib.Data.List.Nodup
import SqlDialect.Proofs.Catalog.Entry

set_option autoImplicit false

/-! # What a catalog holds

A catalog that is written to in any way keeps what the choice of a conflict target relies on
(`KeyCatalog.WellKept`): no table without keys, no key without columns, columns in catalog form, and
primary keys in front. Each operation keeps this (`WellKept.after`), so it holds after every run of
operations (`KeyCatalog.wellKept_run`).

Registrations may come in any order. Which of two keys with the same columns is kept, and where a key
stands among the others, depends on the order; which lists of columns are kept does not
(`KeyCatalog.columns_in_any_order`). -/

namespace SqlDialect

/-- The catalog name of the only table that an operation may write to. -/
def CatalogStep.written? : CatalogStep → Option Bytes
  | .register table _ | .setTable table _ => some (KeyCatalog.tableName table)
  | .size | .keys _ | .conflictTarget _ _ => none

/-- All columns of the key are among the given ones. -/
def TableKey.CoveredBy (key : TableKey) (cols : List Bytes) : Prop :=
  ∀ col ∈ key.columns, ∃ given ∈ cols, KeyCatalog.unquoteName given = col

namespace KeyCatalog

/-! ## The keys of one table -/

/-- Keys as they are kept for a table: each has columns, all in catalog form, and primary keys stand in
front of the others. -/
structure WellPlaced (keys : List TableKey) : Prop where
  columns_ne_nil : ∀ k ∈ keys, k.columns ≠ []
  columns_unquoted : ∀ k ∈ keys, ∀ col ∈ k.columns, ∃ name, unquoteName name = col
  primary_first : keys.Pairwise fun k l => l.primary = true → k.primary = true

theorem wellPlaced_nil : WellPlaced [] :=
  ⟨by simp, by simp, .nil⟩

theorem mem_place {keys : List TableKey} {key k : TableKey} :
    k ∈ place keys key ↔ k ∈ keys ∨ k = key := by
  rw [place]
  split
  · rw [List.mem_cons, or_comm]
  · rw [List.mem_append, List.mem_singleton]

/-- A key with columns is put at its place. -/
theorem WellPlaced.place {keys : List TableKey} (h : WellPlaced keys) {key : TableKey}
    (hne : key.columns ≠ []) : WellPlaced (place keys (normalize key)) where
  columns_ne_nil k hk := by
    rcases mem_place.1 hk with hk | rfl
    · exact h.columns_ne_nil k hk
    · exact mt List.map_eq_nil_iff.1 hne
  columns_unquoted k hk col hcol := by
    rcases mem_place.1 hk with hk | rfl
    · exact h.columns_unquoted k hk col hcol
    · obtain ⟨name, -, rfl⟩ := List.mem_map.1 hcol
      exact ⟨name, rfl⟩
  primary_first := by
    rw [KeyCatalog.place]
    split
    · rename_i hprimary
      exact List.pairwise_cons.2 ⟨fun _ _ _ => hprimary, h.primary_first⟩
    · rename_i hprimary
      refine List.pairwise_append.2 ⟨h.primary_first, List.pairwise_singleton _ _, ?_⟩
      rintro k - l hl hlprimary
      obtain rfl := List.mem_singleton.1 hl
      exact absurd hlprimary hprimary

theorem WellPlaced.foldl_place {keys : List TableKey} (h : WellPlaced keys) {ks : List TableKey}
    (hne : ∀ k ∈ ks, k.columns ≠ []) : WellPlaced ((ks.map normalize).foldl KeyCatalog.place keys) := by
  induction ks generalizing keys with
  | nil => exact h
  | cons k ks ih =>
    obtain ⟨hk, hks⟩ := List.forall_mem_cons.1 hne
    exact ih (h.place hk) hks

/-! ## All tables -/

theorem mem_of_lookup {tables : List (Bytes × List TableKey)} {name : Bytes} {keys : List TableKey}
    (h : tables.lookup name = some keys) : (name, keys) ∈ tables := by
  obtain ⟨before, after, rfl, -⟩ := List.lookup_eq_some_iff.1 h
  exact List.mem_append_right _ List.mem_cons_self

/-- A catalog as its operations leave it: each name has one entry, and each entry has keys. -/
structure WellKept (c : KeyCatalog) : Prop where
  names_nodup : (c.tables.map Prod.fst).Nodup
  keys_ne_nil : ∀ e ∈ c.tables, e.2 ≠ []
  wellPlaced : ∀ e ∈ c.tables, WellPlaced e.2

theorem wellKept_empty : WellKept {} :=
  ⟨.nil, by simp, by simp⟩

variable {c : KeyCatalog}

/-- Writing a whole entry keeps the catalog well. -/
theorem WellKept.setEntry (h : WellKept c) (name : Bytes) {keys : List TableKey}
    (hkeys : WellPlaced keys) : WellKept (c.setEntry name keys) := by
  rw [KeyCatalog.setEntry]
  split
  · refine ⟨h.names_nodup.sublist (List.filter_sublist.map _), fun e he => ?_, fun e he => ?_⟩
    · exact h.keys_ne_nil e (List.mem_filter.1 he).1
    · exact h.wellPlaced e (List.mem_filter.1 he).1
  rename_i hne
  rw [List.isEmpty_iff] at hne
  split
  · have hcases : ∀ e ∈ c.tables.map fun e => if e.1 == name then (name, keys) else e,
        e = (name, keys) ∨ e ∈ c.tables := by
      intro e he
      obtain ⟨e', he', rfl⟩ := List.mem_map.1 he
      split
      · exact Or.inl rfl
      · exact Or.inr he'
    refine ⟨?_, fun e he => ?_, fun e he => ?_⟩
    · have hnames : (c.tables.map fun e => if e.1 == name then (name, keys) else e).map Prod.fst
          = c.tables.map Prod.fst := by
        rw [List.map_map]
        refine List.map_congr_left fun e _ => ?_
        by_cases hname : e.1 = name <;> simp [hname]
      rw [hnames]
      exact h.names_nodup
    · rcases hcases e he with rfl | he
      · exact hne
      · exact h.keys_ne_nil e he
    · rcases hcases e he with rfl | he
      · exact hkeys
      · exact h.wellPlaced e he
  · rename_i hany
    have hnew : name ∉ c.tables.map Prod.fst := by
      rw [List.mem_map]
      rintro ⟨e, he, rfl⟩
      exact hany (List.any_eq_true.2 ⟨e, he, beq_self_eq_true e.1⟩)
    refine ⟨?_, List.forall_mem_append.2 ⟨h.keys_ne_nil, by simpa using hne⟩,
      List.forall_mem_append.2 ⟨h.wellPlaced, by simpa using hkeys⟩⟩
    rw [List.map_append]
    exact h.names_nodup.append (List.nodup_singleton name) (by simpa using hnew)

/-- A name has an entry exactly if it is among the names of the catalog. -/
theorem WellKept.mem_names_iff (h : WellKept c) {name : Bytes} :
    name ∈ c.tables.map Prod.fst ↔ c.entry name ≠ [] := by
  rw [entry]
  cases hlookup : c.tables.lookup name with
  | none =>
    rw [List.lookup_eq_none_iff] at hlookup
    simp only [Option.getD_none, ne_eq, not_true_eq_false, iff_false, List.mem_map, not_exists, not_and]
    exact fun e he heq => absurd (hlookup e he) (by simp [heq])
  | some keys =>
    have hmem : (name, keys) ∈ c.tables := mem_of_lookup hlookup
    exact iff_of_true (List.mem_map.2 ⟨_, hmem, rfl⟩) (h.keys_ne_nil _ hmem)

theorem WellKept.entry (h : WellKept c) (name : Bytes) : WellPlaced (c.entry name) := by
  rw [KeyCatalog.entry]
  cases hlookup : c.tables.lookup name with
  | none => exact wellPlaced_nil
  | some keys => exact h.wellPlaced _ (mem_of_lookup hlookup)

/-! ## Operations -/

theorem WellKept.register (h : WellKept c) (table : Bytes) (key : TableKey) :
    WellKept (c.register table key) := by
  rw [KeyCatalog.register]
  split
  · exact h
  · rename_i hnew
    refine h.setEntry _ ((h.entry _).place fun hnil => hnew ?_)
    rw [normalize, hnil]
    rfl

theorem WellKept.setTable (h : WellKept c) (table : Bytes) (keys : List TableKey) :
    WellKept (c.setTable table keys) := by
  refine h.setEntry _ (wellPlaced_nil.foldl_place fun k hk => ?_)
  simpa using (List.mem_filter.1 hk).2

/-- Every operation keeps the catalog well. -/
theorem WellKept.after (h : WellKept c) (step : CatalogStep) : WellKept (c.after step) := by
  cases step with
  | register table key => exact h.register table key
  | setTable table keys => exact h.setTable table keys
  | size => exact h
  | keys table => exact h
  | conflictTarget table columns => exact h

theorem WellKept.run (h : WellKept c) (steps : List CatalogStep) :
    WellKept (steps.foldl KeyCatalog.after c) := by
  induction steps generalizing c with
  | nil => exact h
  | cons step steps ih => exact ih (h.after step)

/-- An operation leaves all entries but its own as they are. -/
theorem entry_after_other (c : KeyCatalog) {step : CatalogStep} {name : Bytes}
    (h : step.written? ≠ some name) : (c.after step).entry name = c.entry name := by
  cases step with
  | register table key => exact entry_register_other c (fun heq => h (congrArg some heq.symm)) key
  | setTable table keys => exact entry_setTable_other c (fun heq => h (congrArg some heq.symm)) keys
  | size => rfl
  | keys table => rfl
  | conflictTarget table columns => rfl

theorem all_contains_iff {key : TableKey} {cols : List Bytes} :
    key.columns.all (cols.map unquoteName).contains = true ↔ key.CoveredBy cols := by
  simp only [List.all_eq_true, List.contains_iff_mem, List.mem_map, TableKey.CoveredBy]

/-- The first key that is covered is the answer. -/
theorem conflictTarget?_eq_some_iff {table : Bytes} {cols target : List Bytes} :
    c.conflictTarget? table cols = some target ↔ ∃ before key after,
      c.keys table = before ++ key :: after ∧ target = key.columns ∧ key.CoveredBy cols ∧
        ∀ k ∈ before, ¬ k.CoveredBy cols := by
  simp only [conflictTarget?, Option.map_eq_some_iff, List.find?_eq_some_iff_append,
    all_contains_iff, Bool.not_eq_true', ← Bool.not_eq_true]
  constructor
  · rintro ⟨key, ⟨hcovered, before, after, hkeys, hbefore⟩, rfl⟩
    exact ⟨before, key, after, hkeys, rfl, hcovered, hbefore⟩
  · rintro ⟨before, key, after, hkeys, rfl, hcovered, hbefore⟩
    exact ⟨key, ⟨hcovered, before, after, hkeys, hbefore⟩, rfl⟩

theorem conflictTarget?_eq_none_iff {table : Bytes} {cols : List Bytes} :
    c.conflictTarget? table cols = none ↔ ∀ k ∈ c.keys table, ¬ k.CoveredBy cols := by
  simp only [conflictTarget?, Option.map_eq_none_iff, List.find?_eq_none, all_contains_iff]

/-- **What a catalog holds after any run of operations.** It is well kept, and its size counts the
tables with a key. One more operation changes no entry but its own. The conflict target of a table is
what the first of its keys with all columns among the given ones consists of; there is none
exactly if there is no such key, and it is never empty. -/
theorem wellKept_run (steps : List CatalogStep) :
    let c : KeyCatalog := steps.foldl KeyCatalog.after {}
    WellKept c ∧
    (∃ names : List Bytes, names.Nodup ∧ names.length = c.size ∧
      ∀ name, name ∈ names ↔ c.entry name ≠ []) ∧
    (∀ name, WellPlaced (c.entry name)) ∧
    (∀ (step : CatalogStep) (name : Bytes), step.written? ≠ some name →
      (c.after step).entry name = c.entry name) ∧
    ∀ (table : Bytes) (cols : List Bytes),
      (∀ target, c.conflictTarget? table cols = some target ↔ ∃ before key after,
        c.keys table = before ++ key :: after ∧ target = key.columns ∧ key.CoveredBy cols ∧
          ∀ k ∈ before, ¬ k.CoveredBy cols) ∧
      (c.conflictTarget? table cols = none ↔ ∀ k ∈ c.keys table, ¬ k.CoveredBy cols) ∧
      c.conflictTarget? table cols ≠ some [] := by
  intro c
  have hkept : WellKept c := wellKept_empty.run steps
  refine ⟨hkept, ⟨c.tables.map Prod.fst, hkept.names_nodup, by rw [List.length_map, size],
    fun name => hkept.mem_names_iff⟩, hkept.entry, fun step name => entry_after_other c,
    fun table cols => ⟨fun target => conflictTarget?_eq_some_iff, conflictTarget?_eq_none_iff, ?_⟩⟩
  intro hnil
  obtain ⟨before, key, after, hkeys, hcolumns, -⟩ := conflictTarget?_eq_some_iff.1 hnil
  have hmem : key ∈ c.keys table := by
    rw [hkeys]
    exact List.mem_append_right _ List.mem_cons_self
  exact (hkept.entry (tableName table)).columns_ne_nil key hmem hcolumns.symm

/-! ## Registrations in any order -/

/-- The lists of columns that are kept under a catalog name. -/
def columnLists (c : KeyCatalog) (name : Bytes) : List (List Bytes) :=
  (c.entry name).map TableKey.columns

theorem columnLists_setEntry_place (c : KeyCatalog) (name : Bytes) (key : TableKey) :
    ((c.setEntry name (place (c.entry name) key)).columnLists name).Perm
      (key.columns :: c.columnLists name) := by
  rw [columnLists, entry_setEntry_self, place, columnLists]
  split
  · rfl
  · rw [List.map_append]
    exact List.perm_append_singleton _ _

/-- What a catalog keeps under a name: these lists of columns, each once. -/
def Holds (c : KeyCatalog) (name : Bytes) (P : List Bytes → Prop) : Prop :=
  (c.columnLists name).Nodup ∧ ∀ cols, cols ∈ c.columnLists name ↔ P cols

/-- A registration adds its list of columns, unless it is empty or known. -/
theorem Holds.register {name : Bytes} {P : List Bytes → Prop} (h : c.Holds name P) (table : Bytes)
    (key : TableKey) : (c.register table key).Holds name fun cols =>
      P cols ∨ cols ≠ [] ∧ tableName table = name ∧ key.columns.map unquoteName = cols := by
  obtain ⟨hnodup, hmem⟩ := h
  by_cases hname : tableName table = name
  · subst hname
    have hknown : (c.keys table).any (·.columns == (normalize key).columns) = true ↔
        (normalize key).columns ∈ c.columnLists (tableName table) := by
      rw [List.any_eq_true, columnLists, List.mem_map]
      simp only [beq_iff_eq, keys]
    rw [KeyCatalog.register]
    split
    · rename_i hignored
      rw [Bool.or_eq_true, List.isEmpty_iff, hknown, hmem] at hignored
      refine ⟨hnodup, fun cols => (hmem cols).trans (or_iff_left_of_imp ?_).symm⟩
      rintro ⟨hne, -, rfl⟩
      exact hignored.resolve_left hne
    · rename_i hnew
      rw [Bool.or_eq_true, not_or, List.isEmpty_iff, hknown] at hnew
      have hperm : ((c.setEntry (tableName table) (place (c.keys table) (normalize key))).columnLists
          (tableName table)).Perm ((normalize key).columns :: c.columnLists (tableName table)) :=
        columnLists_setEntry_place c (tableName table) (normalize key)
      refine ⟨hperm.nodup_iff.2 (List.nodup_cons.2 ⟨hnew.2, hnodup⟩), fun cols => ?_⟩
      rw [hperm.mem_iff, List.mem_cons, hmem, or_comm]
      refine or_congr_right ⟨fun heq => ⟨heq ▸ hnew.1, rfl, heq.symm⟩, ?_⟩
      rintro ⟨-, -, heq⟩
      exact heq.symm
  · have hsame := entry_register_other c (Ne.symm hname) key
    refine ⟨by rwa [columnLists, hsame], fun cols => ?_⟩
    rw [columnLists, hsame, ← columnLists, hmem]
    simp [hname]

end KeyCatalog

/-- A key that is registered for a table. -/
structure Registration where
  table : Bytes
  key : TableKey
deriving Repr, DecidableEq

namespace KeyCatalog

/-- The catalog after registrations that take effect one after the other. -/
def registerAll (c : KeyCatalog) (rs : List Registration) : KeyCatalog :=
  rs.foldl (fun c r => c.register r.table r.key) c

theorem holds_registerAll (rs : List Registration) {name : Bytes} {P : List Bytes → Prop} {c : KeyCatalog}
    (h : c.Holds name P) : (c.registerAll rs).Holds name fun cols =>
      P cols ∨ cols ≠ [] ∧ ∃ r ∈ rs, tableName r.table = name ∧ r.key.columns.map unquoteName = cols := by
  induction rs generalizing c P with
  | nil => simpa [registerAll, Holds] using h
  | cons r rs ih =>
    obtain ⟨hnodup, hmem⟩ := ih (h.register r.table r.key)
    refine ⟨hnodup, fun cols => (hmem cols).trans ?_⟩
    beta_reduce
    rw [List.exists_mem_cons_iff, and_or_left, or_assoc]

/-- **Registrations lose and duplicate nothing.** However many callers register keys, and in whichever
order their calls take effect on an empty catalog, what is kept under a name are exactly the lists of
columns, in catalog form and not empty, that one of them registers for a table of that name, each
once. -/
theorem columns_in_any_order (callers : List (List Registration)) (order : List Registration)
    (h : order.Perm callers.flatten) (name : Bytes) :
    (((registerAll {} order).entry name).map TableKey.columns).Nodup ∧
      ∀ cols, cols ∈ ((registerAll {} order).entry name).map TableKey.columns ↔
        cols ≠ [] ∧ ∃ caller ∈ callers, ∃ r ∈ caller,
          tableName r.table = name ∧ r.key.columns.map unquoteName = cols := by
  have hempty : Holds {} name fun _ => False := ⟨.nil, by simp [columnLists, entry]⟩
  obtain ⟨hnodup, hmem⟩ := holds_registerAll order hempty
  refine ⟨hnodup, fun cols => (hmem cols).trans ?_⟩
  beta_reduce
  rw [false_or]
  refine and_congr_right fun _ => ⟨?_, ?_⟩
  · rintro ⟨r, hr, hcols⟩
    obtain ⟨caller, hcaller, hmem⟩ := List.mem_flatten.1 (h.mem_iff.1 hr)
    exact ⟨caller, hcaller, r, hmem, hcols⟩
  · rintro ⟨caller, hcaller, r, hr, hcols⟩
    exact ⟨r, h.mem_iff.2 (List.mem_flatten.2 ⟨caller, hcaller, hr⟩), hcols⟩

/-- Two callers register keys of one table under different names; two of the keys have the same
columns. -/
theorem columns_in_any_order_shared :
    let id : TableKey := ⟨ascii "PRIMARY", [ascii "ID"], true⟩
    let slug : TableKey := ⟨ascii "slug", [ascii "slug", ascii "lang"], false⟩
    let again : TableKey := ⟨ascii "again", [ascii "id"], false⟩
    let callers : List (List Registration) :=
      [[⟨ascii "posts", id⟩, ⟨ascii "posts", slug⟩], [⟨ascii "public.POSTS", again⟩]]
    let order : List Registration :=
      [⟨ascii "public.POSTS", again⟩, ⟨ascii "posts", id⟩, ⟨ascii "posts", slug⟩]
    order.Perm callers.flatten ∧
      (((registerAll {} order).entry (ascii "posts")).map TableKey.columns).Nodup ∧
      [ascii "id"] ∈ ((registerAll {} order).entry (ascii "posts")).map TableKey.columns := by
  intro id slug again callers order
  have hperm : order.Perm callers.flatten := by decide +kernel
  obtain ⟨hnodup, hmem⟩ := columns_in_any_order callers order hperm (ascii "posts")
  exact ⟨hperm, hnodup, (hmem _).2 (by decide +kernel)⟩

end KeyCatalog

end SqlDialect
