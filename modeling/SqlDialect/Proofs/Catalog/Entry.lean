import SqlDialect.Catalog.Step

set_option autoImplicit false

/-! # The entries of the key catalog

Every operation writes to one entry of the catalog and leaves the others as they are. What is found
under a name is followed through the list of pairs that holds the entries. -/

namespace SqlDialect

/-! ## Looking up in a list of pairs -/

theorem lookup_filter_ne {α : Type} (l : List (Bytes × α)) {k k' : Bytes} (h : k ≠ k') :
    (l.filter (·.1 != k')).lookup k = l.lookup k := by
  induction l with
  | nil => rfl
  | cons e l ih =>
    obtain ⟨key, v⟩ := e
    by_cases hkey : key = k'
    · have hne : (k == key) = false := by simpa [hkey] using h
      simp [List.lookup_cons, hkey, ih, hkey ▸ hne]
    · simp [List.lookup_cons, hkey, ih]

namespace KeyCatalog

theorem lookup_map_other {name other : Bytes} (h : other ≠ name) (keys : List TableKey)
    (tables : List (Bytes × List TableKey)) :
    (tables.map fun e => if e.1 == name then (name, keys) else e).lookup other
      = tables.lookup other := by
  induction tables with
  | nil => rfl
  | cons e tables ih =>
    obtain ⟨k, v⟩ := e
    rw [List.map_cons]
    by_cases hk : k = name
    · subst hk
      rw [if_pos (beq_self_eq_true k), List.lookup_cons, List.lookup_cons, ih]
      simp only [beq_eq_false_iff_ne.2 h]
    · rw [if_neg (by simpa using hk), List.lookup_cons, List.lookup_cons, ih]

theorem lookup_map_self {name : Bytes} (keys : List TableKey)
    {tables : List (Bytes × List TableKey)} (h : tables.any (·.1 == name) = true) :
    (tables.map fun e => if e.1 == name then (name, keys) else e).lookup name = some keys := by
  induction tables with
  | nil => simp at h
  | cons e tables ih =>
    obtain ⟨k, v⟩ := e
    rw [List.map_cons]
    by_cases hk : k = name
    · subst hk
      rw [if_pos (beq_self_eq_true k), List.lookup_cons, beq_self_eq_true]
    · have hrest : tables.any (·.1 == name) = true := by simpa [hk] using h
      rw [if_neg (by simpa using hk), List.lookup_cons, ih hrest,
        beq_eq_false_iff_ne.2 (Ne.symm hk)]

/-- A name that no pair carries is not found. -/
theorem lookup_eq_none_of_forall_ne {name : Bytes} {tables : List (Bytes × List TableKey)}
    (h : ∀ e ∈ tables, e.1 ≠ name) : tables.lookup name = none := by
  rw [List.lookup_eq_none_iff]
  intro e he
  exact bne_iff_ne.2 (Ne.symm (h e he))

/-! ## Entries -/

theorem entry_setEntry_other (c : KeyCatalog) {name other : Bytes} (h : other ≠ name)
    (keys : List TableKey) : (c.setEntry name keys).entry other = c.entry other := by
  rw [setEntry]
  split
  · rw [entry, entry, lookup_filter_ne _ h]
  split
  · rw [entry, entry, lookup_map_other h]
  · rw [entry, entry, List.lookup_append]
    simp [List.lookup_cons, beq_eq_false_iff_ne.2 h]

theorem entry_setEntry_self (c : KeyCatalog) (name : Bytes) (keys : List TableKey) :
    (c.setEntry name keys).entry name = keys := by
  rw [setEntry]
  split
  · rename_i hempty
    have hnone : (c.tables.filter (·.1 != name)).lookup name = none :=
      lookup_eq_none_of_forall_ne fun e he => bne_iff_ne.1 (List.mem_filter.1 he).2
    rw [entry, hnone, List.isEmpty_iff.1 hempty]
    rfl
  split
  · rename_i hany
    rw [entry, lookup_map_self keys hany]
    rfl
  · rename_i hany
    have hnone : c.tables.lookup name = none := by
      apply lookup_eq_none_of_forall_ne
      intro e he hname
      exact hany (List.any_eq_true.2 ⟨e, he, beq_iff_eq.2 hname⟩)
    rw [entry, List.lookup_append, hnone]
    simp

theorem entry_setTable_other (c : KeyCatalog) {table other : Bytes} (h : other ≠ tableName table)
    (keys : List TableKey) : (c.setTable table keys).entry other = c.entry other :=
  entry_setEntry_other c h _

theorem entry_register_other (c : KeyCatalog) {table other : Bytes} (h : other ≠ tableName table)
    (key : TableKey) : (c.register table key).entry other = c.entry other := by
  rw [register]
  split
  · rfl
  · exact entry_setEntry_other c h _

theorem entry_foldl_register_other {table other : Bytes} (h : other ≠ tableName table)
    (keys : List TableKey) (c : KeyCatalog) :
    (keys.foldl (fun c key => c.register table key) c).entry other = c.entry other := by
  induction keys generalizing c with
  | nil => rfl
  | cons key keys ih => rw [List.foldl_cons, ih, entry_register_other c h]

/-- What the keys of a table become when one is added: a key without columns, or with the columns of
one that is there, changes nothing. -/
def addKey (known : List TableKey) (key : TableKey) : List TableKey :=
  if (normalize key).columns = [] ∨ ∃ k ∈ known, k.columns = (normalize key).columns then known
  else place known (normalize key)

theorem entry_register_self (c : KeyCatalog) (table : Bytes) (key : TableKey) :
    (c.register table key).entry (tableName table) = addKey (c.entry (tableName table)) key := by
  have hiff : ((normalize key).columns.isEmpty ||
        (c.keys table).any (·.columns == (normalize key).columns)) = true ↔
      (normalize key).columns = [] ∨
        ∃ k ∈ c.entry (tableName table), k.columns = (normalize key).columns := by
    rw [keys, Bool.or_eq_true, List.isEmpty_iff, List.any_eq_true]
    simp only [beq_iff_eq]
  rw [register, addKey]
  split
  · rename_i h
    rw [if_pos (hiff.1 h)]
  · rename_i h
    rw [if_neg (fun h' => h (hiff.2 h')), entry_setEntry_self, keys]

theorem entry_foldl_register_self (table : Bytes) (keys : List TableKey) (c : KeyCatalog) :
    (keys.foldl (fun c key => c.register table key) c).entry (tableName table)
      = keys.foldl addKey (c.entry (tableName table)) := by
  induction keys generalizing c with
  | nil => rfl
  | cons key keys ih => rw [List.foldl_cons, ih, entry_register_self, List.foldl_cons]

/-- A key is found after a registration if it was there before, or if it is the one registered. -/
theorem mem_entry_of_register {c : KeyCatalog} {table name : Bytes} {key k : TableKey}
    (h : k ∈ (c.register table key).entry name) :
    k ∈ c.entry name ∨ name = tableName table ∧ k = normalize key := by
  by_cases hname : name = tableName table
  · subst hname
    rw [register] at h
    split at h
    · exact Or.inl h
    · rw [entry_setEntry_self, place] at h
      split at h
      · rcases List.mem_cons.1 h with h | h
        · exact Or.inr ⟨rfl, h⟩
        · exact Or.inl h
      · rcases List.mem_append.1 h with h | h
        · exact Or.inl h
        · exact Or.inr ⟨rfl, List.mem_singleton.1 h⟩
  · rw [entry_register_other c hname] at h
    exact Or.inl h

/-- A registration keeps all keys. -/
theorem mem_entry_register {c : KeyCatalog} {name : Bytes} {k : TableKey} (h : k ∈ c.entry name)
    (table : Bytes) (key : TableKey) : k ∈ (c.register table key).entry name := by
  by_cases hname : name = tableName table
  · subst hname
    rw [register]
    split
    · exact h
    · rw [entry_setEntry_self, place]
      split
      · exact List.mem_cons_of_mem _ h
      · exact List.mem_append_left _ h
  · rwa [entry_register_other c hname]

theorem mem_entry_of_foldl_register {table name : Bytes} {keys : List TableKey} {c : KeyCatalog}
    {k : TableKey} (h : k ∈ (keys.foldl (fun c key => c.register table key) c).entry name) :
    k ∈ c.entry name ∨ name = tableName table ∧ ∃ key ∈ keys, k = normalize key := by
  induction keys generalizing c with
  | nil => exact Or.inl h
  | cons key keys ih =>
    rcases ih h with h | ⟨hname, key', hmem, hkey⟩
    · rcases mem_entry_of_register h with h | ⟨hname, hkey⟩
      · exact Or.inl h
      · exact Or.inr ⟨hname, key, List.mem_cons_self, hkey⟩
    · exact Or.inr ⟨hname, key', List.mem_cons_of_mem _ hmem, hkey⟩

theorem mem_entry_foldl_register {name : Bytes} {k : TableKey} (table : Bytes)
    (keys : List TableKey) {c : KeyCatalog} (h : k ∈ c.entry name) :
    k ∈ (keys.foldl (fun c key => c.register table key) c).entry name := by
  induction keys generalizing c with
  | nil => exact h
  | cons key keys ih => exact ih (mem_entry_register h table key)

end KeyCatalog

end SqlDialect
