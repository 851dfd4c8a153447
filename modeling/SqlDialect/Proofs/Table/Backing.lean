import SqlDialect.Proofs.Statement.Cut
import SqlDialect.Proofs.Table.IndexNames
import SqlDialect.Proofs.Table.Items
import SqlDialect.Proofs.Table.KeyLists
import SqlDialect.Proofs.Table.Options

set_option autoImplicit false

/-! # What stands behind a key

A table definition and an ALTER TABLE statement note unique keys, and for each key they put out
something that makes it unique: an index statement, or a column with the attribute UNIQUE. Here both
are followed from the item of the statement to the text that is put out, first with placeholders and
then with the literals back in their places (`HasUniqueIndex`, `HasUniqueColumn`). -/

namespace SqlDialect

open Bytes

/-! ## Parts of a text -/

/-- The part stands in the text, at its start or behind a byte of the one sort, and up to a byte of the
other sort or the end. -/
def Holds (opens closes : UInt8 → Bool) (text part : Bytes) : Prop :=
  ∃ before after, text = before ++ part ++ after ∧
    (∀ b ∈ before.getLast?, opens b = true) ∧ ∀ b ∈ after.head?, closes b = true

/-- The statement stands in the script, behind blanks and up to a semicolon. -/
def HoldsStatement : Bytes → Bytes → Prop :=
  Holds (fun b => CharSet.blank.contains b.toNat) (· == 59)

/-- The item stands in the body of a table, between commas, blanks and the end of the body. -/
def HoldsItem : Bytes → Bytes → Prop :=
  Holds (fun b => b == comma || CharSet.blank.contains b.toNat)
    (fun b => b == comma || b == closeParen || CharSet.blank.contains b.toNat)

/-- The literals come back into a part by itself. -/
theorem Holds.restore {opens closes : UInt8 → Bool} {text part : Bytes}
    (h : Holds opens closes text part) (hopens : ∀ b, opens b = true → isWord b = false)
    (hcloses : ∀ b, closes b = true → isWord b = false) (lits : LiteralTable) :
    Holds opens closes (restore text lits) (restore part lits) := by
  obtain ⟨before, after, rfl, hbefore, hafter⟩ := h
  -- at either end the text stops, or it is cut at a byte that belongs to no placeholder
  have hend : ∃ after', SqlDialect.restore (part ++ after) lits
      = SqlDialect.restore part lits ++ after' ∧ ∀ b ∈ after'.head?, closes b = true := by
    cases after with
    | nil => exact ⟨[], by rw [List.append_nil, List.append_nil], fun b hb => by cases hb⟩
    | cons x after =>
      have hx := hafter x rfl
      exact ⟨_, restore_append_separator (hcloses x hx) lits part after,
        fun b hb => Option.some.inj hb ▸ hx⟩
  obtain ⟨after', hafter', hcloses'⟩ := hend
  rw [List.append_assoc]
  rcases List.eq_nil_or_concat before with rfl | ⟨before, x, rfl⟩
  · exact ⟨[], after', hafter', fun b hb => (by cases hb), hcloses'⟩
  · rw [List.concat_eq_append] at hbefore ⊢
    have hx := hbefore x List.getLast?_concat
    refine ⟨SqlDialect.restore before lits ++ [x], after', ?_, ?_, hcloses'⟩
    · rw [List.append_assoc, List.singleton_append, restore_append_separator (hopens x hx), hafter']
      simp only [List.append_assoc, List.cons_append, List.nil_append]
    · intro b hb
      rw [List.getLast?_concat] at hb
      exact Option.some.inj hb ▸ hx

theorem HoldsStatement.restore {text statement : Bytes} (h : HoldsStatement text statement)
    (lits : LiteralTable) : HoldsStatement (restore text lits) (restore statement lits) :=
  Holds.restore h (fun _ hb => (ascii_of_blank hb).2.2)
    (fun b hb => by obtain rfl := eq_of_beq hb; rfl) lits

theorem HoldsItem.restore {text item : Bytes} (h : HoldsItem text item) (lits : LiteralTable) :
    HoldsItem (restore text lits) (restore item lits) := by
  refine Holds.restore h (fun b hb => ?_) (fun b hb => ?_) lits
  · rw [Bool.or_eq_true, beq_iff_eq] at hb
    rcases hb with rfl | hb
    · rfl
    · exact (ascii_of_blank hb).2.2
  · rw [Bool.or_eq_true, Bool.or_eq_true, beq_iff_eq, beq_iff_eq] at hb
    rcases hb with (rfl | rfl) | hb
    · rfl
    · rfl
    · exact (ascii_of_blank hb).2.2

/-- An item of a body stands between commas and blanks. -/
theorem holdsItem_join {parts : List Bytes} {lead item pad rest : Bytes}
    (h : lead ++ item ∈ parts) (hlead : AllBlank lead) (hpad : AllBlank pad) :
    HoldsItem (join [comma] parts ++ (pad ++ closeParen :: rest)) item := by
  obtain ⟨before, after, hjoin, hbefore, hafter⟩ := join_of_mem [comma] h
  refine ⟨before ++ lead, after ++ (pad ++ closeParen :: rest), ?_, ?_, ?_⟩
  · rw [hjoin]
    simp only [List.append_assoc]
  · -- in front of the item stand its own blanks, or else the comma behind the item before
    intro b hb
    rw [Option.mem_def, List.getLast?_append, Option.or_eq_some_iff] at hb
    rw [Bool.or_eq_true, beq_iff_eq]
    rcases hb with hb | ⟨-, hb⟩
    · exact Or.inr (hlead b (List.mem_of_getLast? hb))
    · rcases hbefore with rfl | ⟨before, rfl⟩
      · cases hb
      · rw [List.getLast?_concat] at hb
        exact Or.inl (Option.some.inj hb).symm
  · intro b hb
    rw [Bool.or_eq_true, Bool.or_eq_true, beq_iff_eq, beq_iff_eq]
    -- behind the last item stand the blanks at the end of the body and the parenthesis
    rcases hafter with rfl | ⟨after, rfl⟩
    · cases pad with
      | nil => exact Or.inl (Or.inr (Option.some.inj hb).symm)
      | cons x pad => exact Or.inr (Option.some.inj hb ▸ hpad x List.mem_cons_self)
    · exact Or.inl (Or.inl (Option.some.inj hb).symm)

/-! ## Keys that become indexes -/

namespace PulledKey

/-- The key in the form in which it is noted. -/
def tableKey (k : PulledKey) : TableKey :=
  ⟨k.key.name, k.key.columns.map KeyPart.name, false⟩

/-- A unique key whose columns are read from a list, in a statement on a table. -/
structure UniqueOver (lits : LiteralTable) (k : PulledKey) (written list : Bytes) : Prop where
  kind : k.key.kind = .unique
  table : k.table = written
  bare : k.bare = bareName (lastSegment written) lits
  columns : k.columns = mapItems KeyColumns.renderPart list
  parts : k.key.columns = (items list).filterMap fun p => KeyColumns.part? lits p.core

end PulledKey

theorem suffix_of_find? {p : Pattern} {s : Bytes} {m : Match} (h : p.find? s = some m) :
    m.after <:+ s :=
  ⟨m.before ++ m.text, Pattern.text_of_find? h⟩

theorem prefix_of_splitParen? {s : Bytes} {parts : Bytes × Bytes}
    (h : splitParen? s = some parts) : parts.1 <+: s := by
  obtain ⟨i, -, rfl⟩ := Option.map_eq_some_iff.1 h
  exact List.take_prefix i s

theorem infix_of_mem_items {list : Bytes} {p : Spaced} (h : p ∈ items list) : p.core <:+: list := by
  obtain ⟨a, b, hlist, -⟩ := items_core h
  exact ⟨a, b, hlist.symm⟩

/-- A key clause and what it puts out come from one list of columns. -/
theorem TableIndex.exists_list_ofClause {item : Bytes} {m : Match} (hm : keyClause? item = some m)
    (lits : LiteralTable) :
    ∃ list, list <:+: item ∧ (ofClause m lits).2 = mapItems KeyColumns.renderPart list ∧
      (ofClause m lits).1.columns = (items list).filterMap fun p => KeyColumns.part? lits p.core := by
  refine ⟨_, ?_, rfl, rfl⟩
  have hafter := suffix_of_find? (Option.filter_eq_some_iff.1 hm).1
  cases hlist : splitParen? m.after with
  | none => exact hafter.isInfix
  | some parts => exact (prefix_of_splitParen? hlist).isInfix.trans hafter.isInfix

/-! ## Table definitions -/

/-- The key that an item of a definition adds to the secondary keys of the table. -/
def TableItem.key? (lits : LiteralTable) : TableItem → Option TableIndex
  | index key _ => if key.kind.isDropped then none else some key
  | column col =>
    if Column.primaryPattern.occursIn col.attrs then none
    else if Column.uniquePattern.occursIn col.attrs then
      some ⟨bareName col.name lits, .unique, [⟨bareName col.name lits, []⟩]⟩
    else none
  | _ => none

theorem TableItem.keys_addTo (lits : LiteralTable) (d : TableDef) (item : TableItem) :
    (item.addTo lits d).keys = d.keys ++ (item.key? lits).toList := by
  cases item with
  | primaryKey parts rendered => exact (List.append_nil _).symm
  | index key rendered =>
    rw [addTo, key?]
    split
    · exact (List.append_nil _).symm
    · rfl
  | column col =>
    rw [addTo, key?]
    dsimp only
    split
    · exact (List.append_nil _).symm
    split
    · rfl
    · exact (List.append_nil _).symm
  | verbatim text => exact (List.append_nil _).symm

variable {s : Bytes} {lits : LiteralTable} {opts : TypeOptions} {t : CreatedTable}

theorem infix_of_mem_tableItems {item : Bytes} (h : item ∈ tableItems s) : item <:+: s := by
  rw [tableItems] at h
  cases hm : createTablePattern.find? s with
  | none => rw [hm] at h; cases h
  | some m =>
    cases hparts : splitParen? m.after with
    | none => rw [hm, Option.bind_some, hparts] at h; cases h
    | some parts =>
      rw [hm, Option.bind_some, hparts, Option.map_some, Option.getD_some, bodyItems,
        List.mem_filter, List.mem_map] at h
      obtain ⟨⟨p, hp, rfl⟩, -⟩ := h
      have hbody := (prefix_of_splitParen? hparts).isInfix.trans (suffix_of_find? hm).isInfix
      exact (infix_of_mem_items hp).trans hbody

/-- The secondary keys of a definition come from its items. -/
theorem keys_createTable? (ht : createTable? s lits opts = some t) :
    t.definition.keys
      = (tableItems s).filterMap fun item => (TableItem.ofText lits opts item).key? lits :=
  collected_createTable? (TableItem.keys_addTo lits) (fun _ => rfl) (fun _ _ => rfl) ht

/-- The keys that a definition turns into index statements come from its items. -/
theorem pulledKeys_of_createTable? {m : Match} (hm : createTablePattern.find? s = some m)
    (ht : createTable? s lits opts = some t) :
    pulledKeys s lits opts = (tableItems s).filterMap fun item =>
      (TableItem.ofText lits opts item).pulled? (normalizeName (m.group 3))
        (bareName (lastSegment (normalizeName (m.group 3))) lits) := by
  obtain ⟨m', parts, hm', hparts⟩ := exists_body_of_createTable? ht
  obtain rfl := Option.some.inj (hm.symm.trans hm')
  rw [pulledKeys, hm, tableItems_of_splitParen? hm hparts, bodyItems]
  simp only [hparts, List.filter_map, List.filterMap_map]
  rfl

/-- The statements for the keys of a definition stand behind it. -/
theorem holdsStatement_of_createTable? (ht : createTable? s lits opts = some t) {k : PulledKey}
    (hk : k ∈ pulledKeys s lits opts) : HoldsStatement t.text k.statement := by
  obtain ⟨definition, -, htext⟩ := text_of_createTable? ht
  obtain ⟨ks, ls, hsplit⟩ := List.append_of_mem hk
  rw [hsplit, List.flatMap_append, List.flatMap_cons] at htext
  refine ⟨definition ++ ascii ";" ++ (ks.flatMap fun k => ascii "\n" ++ k.statement ++ ascii ";") ++
    ascii "\n", ascii ";" ++ ls.flatMap fun k => ascii "\n" ++ k.statement ++ ascii ";", ?_, ?_, ?_⟩
  · rw [htext]
    simp only [List.append_assoc]
  · intro b hb
    rw [show ascii "\n" = [10] from rfl, List.getLast?_concat] at hb
    obtain rfl := Option.some.inj hb
    rfl
  · intro b hb
    obtain rfl := Option.some.inj hb
    rfl

/-- What stays of the items of a definition stands in the parentheses behind the name of the table. -/
theorem holdsItem_of_createTable? {m : Match} (hm : createTablePattern.find? s = some m)
    (ht : createTable? s lits opts = some t) :
    ∃ head body, t.text = head ++ ascii " TABLE IF NOT EXISTS " ++ normalizeName (m.group 3) ++
        ascii " (" ++ body ∧
      ∀ item ∈ tableItems s, ∀ kept, (TableItem.ofText lits opts item).kept? opts = some kept →
        HoldsItem body kept := by
  obtain ⟨m', ⟨body, tail⟩, hm', hparts⟩ := exists_body_of_createTable? ht
  obtain rfl := Option.some.inj (hm.symm.trans hm')
  rw [createTable?, Option.bind_eq_bind, hm, Option.bind_some, Option.bind_eq_bind, hparts,
    Option.bind_some, Option.some.injEq] at ht
  subst ht
  have hwords : ∀ u : Bytes, ascii "CREATE " ++
      ((if (m.group? 2).isSome then ascii "TEMPORARY " else []) ++ (ascii "TABLE IF NOT EXISTS " ++ u))
        = (if (m.group? 2).isSome then ascii "CREATE TEMPORARY" else ascii "CREATE") ++
          (ascii " TABLE IF NOT EXISTS " ++ u) := by
    intro u
    split <;> rfl
  refine ⟨m.group 1 ++ if (m.group? 2).isSome then ascii "CREATE TEMPORARY" else ascii "CREATE",
    _, by simp only [List.append_assoc, hwords]; rfl, fun item hitem kept hkept => ?_⟩
  rw [tableItems_of_splitParen? hm hparts, bodyItems, List.mem_filter, List.mem_map] at hitem
  obtain ⟨⟨p, hp, rfl⟩, hcore⟩ := hitem
  obtain ⟨part, -, rfl⟩ := List.mem_map.1 hp
  refine holdsItem_join ?_ (Spaced.allBlank_ofText part).1
    fun b hb => blank_of_isBlank (of_mem_drop_dropTailWhile hb)
  have hread : ((Spaced.ofText part).lead, TableItem.ofText lits opts (Spaced.ofText part).core)
      ∈ ((items body).filter fun p => !p.core.isEmpty).map fun p =>
        (p.lead, TableItem.ofText lits opts p.core) :=
    List.mem_map.2 ⟨_, List.mem_filter.2 ⟨hp, hcore⟩, rfl⟩
  refine List.mem_filterMap.2 ⟨_, hread, ?_⟩
  rw [hkept]
  rfl

/-! ## What the output has for a key -/

/-- The catalog knows the table that is written in the output under the name, with its schema or
without it. -/
def IsKnownAs (lits : LiteralTable) (written entry : Bytes) : Prop :=
  KeyCatalog.tableName (bareName written lits) = entry ∨
    KeyCatalog.tableName (bareName (lastSegment written) lits) = entry

/-- The output has a statement that creates a unique index for the key of the table, over a list of
columns from the source. If all items of this list are columns, the output names exactly the columns
of the key. -/
def HasUniqueIndex (source : Bytes) (lits : LiteralTable) (entry : Bytes) (k : TableKey)
    (out : Bytes) : Prop :=
  ∃ written list, list <:+: source ∧
    HoldsStatement out (ascii "CREATE UNIQUE INDEX IF NOT EXISTS " ++
      restore (quoteIdent (indexName (bareName (lastSegment written) lits) k.name)) lits ++
      ascii " ON " ++ restore written lits ++ ascii " (" ++
      restore (trimSpace (mapItems KeyColumns.renderPart list)) lits ++ ascii ")") ∧
    IsKnownAs lits written entry ∧
    ((∀ p ∈ items list, IsColumn lits p.core) →
      ListsColumns lits (mapItems KeyColumns.renderPart list) k.columns)

/-- The word stands in the text by itself, in any letter case: no byte that belongs to words stands
beside it. -/
def HasWord (belongs : UInt8 → Bool) (word text : Bytes) : Prop :=
  ∃ a w b, text = a ++ w ++ b ∧ w.map lowerByte = word ∧ a.getLast?.any belongs = false ∧
    b.head?.any belongs = false

theorem hasWord_iff {belongs : UInt8 → Bool} {word text : Bytes} :
    HasWord belongs word text ↔ ∃ i < text.length + 1,
      ((text.drop i).take word.length).map lowerByte = word ∧
      (text.take i).getLast?.any belongs = false ∧
      (text.drop (i + word.length)).head?.any belongs = false := by
  constructor
  · rintro ⟨a, w, b, rfl, rfl, ha, hb⟩
    refine ⟨a.length, by simp only [List.length_append]; omega, ?_, ?_, ?_⟩
    · rw [List.append_assoc, List.drop_left, List.length_map, List.take_left]
    · rwa [List.append_assoc, List.take_left]
    · rwa [List.length_map, ← List.length_append, List.drop_left]
  · rintro ⟨i, -, hword, ha, hb⟩
    refine ⟨_, _, _, ?_, hword, ha, hb⟩
    rw [List.append_assoc, ← List.drop_drop, List.take_append_drop, List.take_append_drop]

instance (belongs : UInt8 → Bool) (word text : Bytes) : Decidable (HasWord belongs word text) :=
  decidable_of_iff _ hasWord_iff.symm

/-- What stands outside parentheses, double quotes and comments in a text on one line; there is a blank
where something is left out, and a comment that goes to the end of the line ends the text. The text
stands inside so many parentheses and so many comments, or between quotes. -/
def outermost (parens comments : Nat) (quoted : Bool) : Bytes → Bytes
  | [] => []
  | [b] => if parens = 0 ∧ comments = 0 ∧ !quoted then [b] else []
  | b :: c :: rest =>
    if 0 < comments then
      if b = 42 ∧ c = 47 then outermost parens (comments - 1) false rest
      else if b = 47 ∧ c = 42 then outermost parens (comments + 1) false rest
      else outermost parens comments false (c :: rest)
    else if quoted then outermost parens 0 (b != 34) (c :: rest)
    else if b = 47 ∧ c = 42 then 32 :: outermost parens 1 false rest
    else if b = 45 ∧ c = 45 then []
    else if b = 34 then 32 :: outermost parens 0 true (c :: rest)
    else if b = openParen then 32 :: outermost (parens + 1) 0 false (c :: rest)
    else if b = closeParen then 32 :: outermost (parens - 1) 0 false (c :: rest)
    else if parens = 0 then b :: outermost 0 0 false (c :: rest)
    else outermost parens 0 false (c :: rest)

/-- The bytes that a bare name may have. -/
def belongsToName (b : UInt8) : Bool :=
  isWord b || b == 36 || 128 ≤ b

/-- The word is an attribute of its own: it stands outside parentheses, quotes and comments, and is no
part of a name. -/
def HasAttribute (word attrs : Bytes) : Prop :=
  HasWord belongsToName word (outermost 0 0 false attrs)

instance (word attrs : Bytes) : Decidable (HasAttribute word attrs) :=
  inferInstanceAs (Decidable (HasWord _ _ _))

/-- The output has a definition of the table with the column of the key, and UNIQUE is an attribute of
the column. -/
def HasUniqueColumn (source : Bytes) (lits : LiteralTable) (opts : TypeOptions) (entry : Bytes)
    (k : TableKey) (out : Bytes) : Prop :=
  ∃ written head body, out = head ++ ascii " TABLE IF NOT EXISTS " ++ restore written lits ++
      ascii " (" ++ body ∧ IsKnownAs lits written entry ∧
    ∃ item ∈ tableItems source, ∃ col, Column.ofText? item lits opts false = some col ∧
      HoldsItem body (restore col.name lits ++ ascii " " ++ restore (col.typeFor opts false) lits ++
        ascii " " ++ restore col.attrs lits) ∧
      HasAttribute (ascii "unique") col.attrs ∧
      k.columns = [KeyCatalog.unquoteName (bareName col.name lits)]

/-- Where the word UNIQUE stands in what follows the type of a column, it is an attribute of the
column. -/
def UniqueApart (source : Bytes) (lits : LiteralTable) (opts : TypeOptions) : Prop :=
  ∀ item ∈ tableItems source, ∀ col ∈ Column.ofText? item lits opts false,
    HasWord isWord (ascii "unique") col.attrs → HasAttribute (ascii "unique") col.attrs

instance (source : Bytes) (lits : LiteralTable) (opts : TypeOptions) :
    Decidable (UniqueApart source lits opts) :=
  inferInstanceAs (Decidable (∀ _ ∈ _, _))

theorem PulledKey.UniqueOver.hasUniqueIndex {k : PulledKey} {written list source entry text : Bytes}
    (h : k.UniqueOver lits written list) (hlist : list <:+: source)
    (hentry : IsKnownAs lits written entry) (htext : HoldsStatement text k.statement) :
    HasUniqueIndex source lits entry (KeyCatalog.normalize k.tableKey) (restore text lits) := by
  have hholds := htext.restore lits
  rw [k.restore_statement, if_pos h.kind, PulledKey.indexName, h.bare, h.table, h.columns] at hholds
  refine ⟨written, list, hlist, hholds, hentry, fun hcolumns => ?_⟩
  have hlists := KeyColumns.listsColumns_rendered hcolumns
  rw [← h.parts] at hlists
  rw [KeyCatalog.normalize, tableKey, List.map_map]
  exact hlists

/-- A column is read as unique where the word stands in what follows its type. -/
theorem Column.hasWord_of_unique {attrs : Bytes} (h : uniquePattern.occursIn attrs = true) :
    HasWord isWord (ascii "unique") attrs := by
  rw [uniquePattern_occursIn, Pattern.occursIn_edged_iff isPhrase_unique] at h
  obtain ⟨a, w, b, rfl, hstands⟩ := h
  refine ⟨a, w, b, rfl, ?_, hstands.left, hstands.right⟩
  have hleads := hstands.retakes { prev := none, rest := w ++ [] } [] rfl
  obtain ⟨w', htakes, hlower⟩ := Pattern.leads_keyword_ascii (by decide) hleads
  have hwhole : w ++ [] = w' ++ [] := htakes.rest
  rw [List.append_cancel_right hwhole, hlower]
  decide

/-- A column with attributes in the output. -/
theorem Column.restore_render {col : Column} (h : col.attrs ≠ []) (opts : TypeOptions)
    (lits : LiteralTable) :
    restore (col.render opts) lits = restore col.name lits ++ ascii " " ++
      restore (col.typeFor opts false) lits ++ ascii " " ++ restore col.attrs lits := by
  have hblank : ∀ a b : Bytes, restore (a ++ ascii " " ++ b) lits
      = restore a lits ++ ascii " " ++ restore b lits := by
    intro a b
    rw [List.append_assoc, List.append_assoc]
    exact restore_append_separator rfl lits a b
  have hsome : col.attrs.isEmpty = false := by simpa using h
  rw [render, hsome]
  show restore (_ ++ ascii " " ++ _) lits = _
  rw [hblank, hblank]

/-! ## Definitions and their keys -/

theorem TableItem.exists_clause_of_index {item : Bytes} {key : TableIndex} {rendered : Bytes}
    (h : ofText lits opts item = .index key rendered) :
    ∃ m, keyClause? item = some m ∧ TableIndex.ofClause m lits = (key, rendered) := by
  rw [ofText] at h
  split at h
  · cases h
  split at h
  · rename_i m hm
    exact ⟨m, hm, by cases h; rfl⟩
  split at h
  · cases h
  · split at h <;> cases h

theorem TableItem.ofText?_of_column {item : Bytes} {col : Column}
    (h : ofText lits opts item = .column col) : Column.ofText? item lits opts false = some col := by
  rw [ofText] at h
  split at h
  · cases h
  split at h
  · cases h
  split at h
  · cases h
  · split at h
    · rename_i col' hcol
      cases h
      exact hcol
    · cases h

/-- A unique key that is not the primary one is a secondary key of the table. -/
theorem TableDef.exists_key_of_mem_uniqueKeys {d : TableDef} {k : TableKey} (hk : k ∈ d.uniqueKeys)
    (hprimary : k.primary = false) : ∃ key ∈ d.keys, key.kind = .unique ∧
      k = ⟨key.name, key.columns.map KeyPart.name, false⟩ := by
  rw [uniqueKeys] at hk
  rcases List.mem_append.1 hk with hk | hk
  · split at hk
    · cases hk
    · obtain rfl := List.mem_singleton.1 hk
      cases hprimary
  · obtain ⟨key, hkey, rfl⟩ := List.mem_map.1 hk
    obtain ⟨hmem, hkind⟩ := List.mem_filter.1 hkey
    exact ⟨key, hmem, eq_of_beq hkind, rfl⟩

/-- **The keys of a definition are put out with it**, as an index statement behind it or as an attribute
of a column in it. -/
theorem hasUnique_createTable? (ht : createTable? s lits opts = some t)
    (hapart : UniqueApart s lits opts) {k : TableKey} (hk : k ∈ t.definition.uniqueKeys) (hprimary : k.primary = false) {entry : Bytes}
    (hentry : KeyCatalog.tableName (bareName t.definition.name lits) = entry) :
    HasUniqueIndex s lits entry (KeyCatalog.normalize k) (restore t.text lits) ∨
      HasUniqueColumn s lits opts entry (KeyCatalog.normalize k) (restore t.text lits) := by
  obtain ⟨m, -, hm, -⟩ := exists_body_of_createTable? ht
  have hknown : IsKnownAs lits (normalizeName (m.group 3)) entry := by
    rw [name_createTable? hm ht] at hentry
    exact Or.inl hentry
  obtain ⟨key, hkey, hunique, rfl⟩ := TableDef.exists_key_of_mem_uniqueKeys hk hprimary
  rw [keys_createTable? ht, List.mem_filterMap] at hkey
  obtain ⟨item, hitem, hkey⟩ := hkey
  cases hread : TableItem.ofText lits opts item with
  | primaryKey parts rendered => rw [hread] at hkey; cases hkey
  | verbatim text => rw [hread] at hkey; cases hkey
  | index key' rendered =>
    -- a key clause leaves the definition, and its statement stands behind it
    left
    obtain ⟨clause, hmatch, hclause⟩ := TableItem.exists_clause_of_index hread
    obtain ⟨list, hlist, hrendered, hparts⟩ := TableIndex.exists_list_ofClause hmatch lits
    rw [hclause] at hrendered hparts
    rw [hread, TableItem.key?] at hkey
    split at hkey
    · cases hkey
    · rename_i hdropped
      obtain rfl := Option.some.inj hkey
      have hpulled : (⟨normalizeName (m.group 3), bareName (lastSegment (normalizeName (m.group 3)))
          lits, key', rendered⟩ : PulledKey) ∈ pulledKeys s lits opts := by
        rw [pulledKeys_of_createTable? hm ht, List.mem_filterMap]
        exact ⟨item, hitem, by rw [hread, TableItem.pulled?, if_neg hdropped]⟩
      have hover : PulledKey.UniqueOver lits ⟨normalizeName (m.group 3),
          bareName (lastSegment (normalizeName (m.group 3))) lits, key', rendered⟩
          (normalizeName (m.group 3)) list :=
        ⟨hunique, rfl, rfl, hrendered, hparts⟩
      exact hover.hasUniqueIndex (hlist.trans (infix_of_mem_tableItems hitem)) hknown
        (holdsStatement_of_createTable? ht hpulled)
  | column col =>
    -- a column stays in the body with its attributes
    right
    obtain ⟨head, body, htext, hbody⟩ := holdsItem_of_createTable? hm ht
    rw [hread, TableItem.key?] at hkey
    split at hkey
    · cases hkey
    split at hkey
    · rename_i hattrs
      obtain rfl := Option.some.inj hkey
      have hne : col.attrs ≠ [] := by
        intro hnil
        rw [hnil] at hattrs
        exact absurd hattrs (by decide +kernel)
      have hheld := (hbody item hitem _ (by rw [hread, TableItem.kept?])).restore lits
      rw [col.restore_render hne] at hheld
      have htable : Fence (ascii " TABLE IF NOT EXISTS ") :=
        ⟨32, ascii "TABLE IF NOT EXISTS", 32, by decide⟩
      have hopen : Fence (ascii " (") := ⟨32, [], 40, by decide⟩
      refine ⟨normalizeName (m.group 3), restore head lits, restore body lits, ?_, hknown, item,
        hitem, col, TableItem.ofText?_of_column hread, hheld,
        hapart item hitem col (TableItem.ofText?_of_column hread) (Column.hasWord_of_unique hattrs),
        rfl⟩
      rw [htext, hopen.restore_append, htable.restore_append]
    · cases hkey

/-! ## Added keys -/

namespace AlterEffect

variable {a : AlteredTable} {spec : Bytes} {k : TableKey}

/-- What does not start with ADD adds no key. -/
theorem key_ofChange : (ofChange a lits opts spec).key = none := by
  have hchange : ∀ (col : Option Column) (spec : Bytes), (changeColumn col opts spec).key = none := by
    intro col spec
    cases col <;> rfl
  have hrename : ∀ (old : Bytes) (col : Option Column), (renameColumn a lits old col).key = none := by
    intro old col
    cases col with
    | none => rfl
    | some col =>
      rw [renameColumn]
      split <;> rfl
  rw [ofChange]
  split
  · exact hchange _ _
  split
  · rw [append, hchange, hrename]
    rfl
  split <;> rfl

/-- An added unique key is put out as an index statement. -/
theorem exists_pulled_of_key (h : (ofSpec a lits opts spec).key = some k)
    (hprimary : k.primary = false) (hbare : a.bare = bareName (lastSegment a.name) lits) :
    ∃ (p : PulledKey) (list : Bytes), list <:+: spec ∧ p.UniqueOver lits a.name list ∧
      p.tableKey = k ∧ p.statement ∈ (ofSpec a lits opts spec).after := by
  rw [ofSpec] at h ⊢
  split at h
  · obtain rfl := Option.some.inj h
    cases hprimary
  split at h
  · rw [key_ofChange] at h
    cases h
  rename_i added hadded
  -- behind ADD only a key clause brings in a key
  split at h
  · rename_i clause hmatch
    obtain ⟨list, hlist, hrendered, hparts⟩ := TableIndex.exists_list_ofClause hmatch lits
    rw [addKey] at h ⊢
    dsimp only at h ⊢
    split at h
    · cases h
    · rename_i hdropped
      dsimp only at h
      split at h
      · rename_i hunique
        rw [if_neg hdropped]
        exact ⟨⟨a.name, a.bare, (TableIndex.ofClause clause lits).1,
          (TableIndex.ofClause clause lits).2⟩, list,
          hlist.trans (suffix_of_find? hadded).isInfix,
          ⟨hunique, rfl, hbare, hrendered, hparts⟩, Option.some.inj h, List.mem_singleton.2 rfl⟩
      · cases h
  · split at h
    · cases h
    · rw [addColumn] at h
      split at h <;> cases h

end AlterEffect

/-- The statements behind an ALTER TABLE statement stand in what it is converted to. -/
theorem holdsStatement_alterTable {m : Match} (hm : alterTablePattern.find? s = some m)
    (c : KeyCatalog) {e : AlterEffect} (he : e ∈ alterEffects m lits opts) {statement : Bytes}
    (h : statement ∈ e.after) : HoldsStatement (alterTable s lits opts c).1 statement := by
  have hmem : statement ∈ alterStatements (normalizeName (m.group 2)) (alterEffects m lits opts) :=
    List.mem_append_right _ (List.mem_flatMap.2 ⟨e, he, h⟩)
  have htext : (alterTable s lits opts c).1 = m.group 1 ++ join (ascii ";\n")
      (alterStatements (normalizeName (m.group 2)) (alterEffects m lits opts)) ++
        semicolonIf (trimStatementEnd m.after).2 := by
    have hne : ¬ (alterStatements (normalizeName (m.group 2)) (alterEffects m lits opts)).isEmpty
        = true := by
      rw [List.isEmpty_iff]
      exact List.ne_nil_of_mem hmem
    simp only [alterTable, hm]
    exact congrArg Prod.fst (if_neg hne)
  -- the first statement stands behind the blanks of the head, any other behind a newline
  have hlead : AllBlank (m.group 1) := by
    rw [Match.group]
    cases hgroup : m.group? 1 with
    | none => exact fun b hb => absurd hb List.not_mem_nil
    | some lead =>
      obtain ⟨q, hq, d, d', hleads, htakes⟩ := Pattern.leads_of_group? hm hgroup
      obtain rfl : q = .blanks := List.mem_singleton.1 hq
      obtain ⟨u, hu, htakes'⟩ := Pattern.leads_blanks hleads
      rwa [Option.getD_some, htakes.unique htakes']
  obtain ⟨before, after, hjoin, hbefore, hafter⟩ := join_of_mem (ascii ";\n") hmem
  refine ⟨m.group 1 ++ before, after ++ semicolonIf (trimStatementEnd m.after).2, ?_, ?_, ?_⟩
  · rw [htext, hjoin]
    simp only [List.append_assoc]
  · intro b hb
    rcases hbefore with rfl | ⟨before, rfl⟩
    · rw [List.append_nil] at hb
      exact hlead b (List.mem_of_getLast? hb)
    · rw [show ascii ";\n" = [59] ++ [10] from rfl, ← List.append_assoc, ← List.append_assoc,
        List.getLast?_concat] at hb
      obtain rfl := Option.some.inj hb
      rfl
  · intro b hb
    rcases hafter with rfl | ⟨after, rfl⟩
    · rw [List.nil_append, semicolonIf] at hb
      split at hb
      · obtain rfl := Option.some.inj hb
        rfl
      · cases hb
    · obtain rfl := Option.some.inj hb
      rfl

/-- **The unique keys that ALTER TABLE adds are put out** as index statements. -/
theorem hasUniqueIndex_alterTable {m : Match} (hm : alterTablePattern.find? s = some m)
    (c : KeyCatalog) {k : TableKey} (hk : k ∈ (alterEffects m lits opts).filterMap AlterEffect.key)
    (hprimary : k.primary = false) :
    HasUniqueIndex s lits
      (KeyCatalog.tableName (bareName (lastSegment (normalizeName (m.group 2))) lits))
      (KeyCatalog.normalize k) (restore (alterTable s lits opts c).1 lits) := by
  obtain ⟨e, he, hkey⟩ := List.mem_filterMap.1 hk
  have heffect := he
  obtain ⟨spec, hspec, rfl⟩ := List.mem_map.1 he
  obtain ⟨part, hpart, rfl⟩ := List.mem_map.1 (List.mem_filter.1 hspec).1
  obtain ⟨p, list, hlist, hover, rfl, hafter⟩ :=
    AlterEffect.exists_pulled_of_key hkey hprimary rfl
  have hspecs : (trimStatementEnd m.after).1 <+: m.after := dropTailWhile_prefix _ _
  have hsource : part.core <:+: s :=
    ((infix_of_mem_items hpart).trans hspecs.isInfix).trans (suffix_of_find? hm).isInfix
  exact hover.hasUniqueIndex (hlist.trans hsource) (Or.inr rfl)
    (holdsStatement_alterTable hm c heffect hafter)

end SqlDialect
