import SqlDialect.Proofs.Identifier.Reading
import SqlDialect.Proofs.Literal.Separate
import SqlDialect.Table.Create

set_option autoImplicit false

/-! # The names of indexes

MySQL's key names belong to a table, PostgreSQL's index names to a whole schema. So an index gets
the name of its table, an underscore and the name of its key. Both names may hold underscores, and
nothing tells where the one ends and the other begins: two such names are equal if table and key
are, or if the name of one table goes on in the key of the other (`indexName_eq_iff`).

`pulledKeys` are the keys that a table definition turns into index statements. Their statements
stand behind the converted definition, in the order of the keys, and `createdIndex?` reads an index's
name in such a statement. -/

namespace SqlDialect

open Bytes

/-! ## Glued names -/

/-- The table of the second pair is called like the one of the first and an underscore and a text
more, with which the key of the first begins: `a` with `b_c` and `a_b` with `c`. -/
def Overlap (p q : Bytes × Bytes) : Prop :=
  ∃ x, q.1 = indexName p.1 x ∧ p.2 = indexName x q.2

/-- The text that two names share is what the longer table name has more. -/
instance (p q : Bytes × Bytes) : Decidable (Overlap p q) :=
  decidable_of_iff
    (q.1 = indexName p.1 (q.1.drop (p.1.length + 1)) ∧
      p.2 = indexName (q.1.drop (p.1.length + 1)) q.2)
    ⟨fun h => ⟨_, h⟩, by
      rintro ⟨x, hx, hkey⟩
      have hdrop : q.1.drop (p.1.length + 1) = x := by
        rw [hx, indexName, List.append_assoc, ← List.drop_drop, List.drop_left]
        rfl
      rw [hdrop]
      exact ⟨hx, hkey⟩⟩

theorem indexName_eq_iff (p q : Bytes × Bytes) :
    indexName p.1 p.2 = indexName q.1 q.2 ↔ p = q ∨ Overlap p q ∨ Overlap q p := by
  -- where the one underscore stands behind the other, the text between them is shared
  have hsplit : ∀ {a b c d : Bytes}, (∃ y, c = a ++ y ∧ 95 :: b = y ++ 95 :: d) →
      (a, b) = (c, d) ∨ Overlap (a, b) (c, d) := by
    rintro a b c d ⟨y, rfl, hb⟩
    cases y with
    | nil =>
      obtain ⟨-, rfl⟩ := List.cons.inj hb
      exact Or.inl (by rw [List.append_nil])
    | cons z x =>
      obtain ⟨rfl, rfl⟩ := List.cons.inj hb
      exact Or.inr ⟨x, by rw [indexName, List.append_assoc]; rfl,
        by rw [indexName, List.append_assoc]; rfl⟩
  constructor
  · intro h
    rw [indexName, indexName, List.append_assoc, List.append_assoc] at h
    rcases List.append_eq_append_iff.1 h with hq | hp
    · rcases hsplit hq with heq | hover
      · exact Or.inl heq
      · exact Or.inr (Or.inl hover)
    · rcases hsplit hp with heq | hover
      · exact Or.inl heq.symm
      · exact Or.inr (Or.inr hover)
  · rintro (rfl | ⟨x, htable, hkey⟩ | ⟨x, htable, hkey⟩)
    · rfl
    · rw [htable, hkey, indexName, indexName, indexName, indexName]
      simp only [List.append_assoc]
    · rw [htable, hkey, indexName, indexName, indexName, indexName]
      simp only [List.append_assoc]

/-! ## The keys that become indexes -/

/-- The name of the index that a statement creates, as it is read. -/
def createdIndex? (statement : Bytes) : Option Bytes :=
  ((dropLead? (ascii "CREATE INDEX IF NOT EXISTS ") statement).or
    (dropLead? (ascii "CREATE UNIQUE INDEX IF NOT EXISTS ") statement)).map readIdent

/-- A key that leaves a table definition: the table as it appears in the output and without its
quoting, the key, and its columns as they appear in the output. -/
structure PulledKey where
  table : Bytes
  bare : Bytes
  key : TableIndex
  columns : Bytes

namespace PulledKey

/-- The name of the key's index. -/
def indexName (k : PulledKey) : Bytes :=
  SqlDialect.indexName k.bare k.key.name

/-- The statement that creates the index, with placeholders. -/
def statement (k : PulledKey) : Bytes :=
  k.key.create k.table k.bare k.columns

/-- The statement that creates the index, with the literals of its table and its columns. -/
def output (lits : LiteralTable) (k : PulledKey) : Bytes :=
  ascii "CREATE " ++ (if k.key.kind = .unique then ascii "UNIQUE " else []) ++
    ascii "INDEX IF NOT EXISTS " ++ quoteIdent k.indexName ++ ascii " ON " ++
    restore k.table lits ++ ascii " (" ++ restore (trimSpace k.columns) lits ++ ascii ")"

/-- The index's name reads as no placeholder, so it stays when the literals are put back. -/
def Intact (lits : LiteralTable) (k : PulledKey) : Prop :=
  restore (quoteIdent k.indexName) lits = quoteIdent k.indexName

instance (lits : LiteralTable) (k : PulledKey) : Decidable (k.Intact lits) :=
  inferInstanceAs (Decidable (_ = _))

/-- The names of table and key as they are read in the name of the index. -/
def names (k : PulledKey) : Bytes × Bytes :=
  if keepsCase k.indexName then (k.bare, k.key.name)
  else (k.bare.map lowerByte, k.key.name.map lowerByte)

/-- The keys have the same table and the same name, or the name of the one's table goes on in the
other's. -/
def Clashes (k l : PulledKey) : Prop :=
  k.names = l.names ∨ Overlap k.names l.names ∨ Overlap l.names k.names

instance (k l : PulledKey) : Decidable (k.Clashes l) :=
  inferInstanceAs (Decidable (_ ∨ _ ∨ _))

theorem foldName_indexName (k : PulledKey) :
    foldName k.indexName = SqlDialect.indexName k.names.1 k.names.2 := by
  rw [foldName, names]
  split
  · rfl
  · rw [indexName, SqlDialect.indexName, List.map_append, List.map_append]
    rfl

/-- Two indexes are read under one name exactly if their keys clash. -/
theorem foldName_indexName_eq_iff (k l : PulledKey) :
    foldName k.indexName = foldName l.indexName ↔ k.Clashes l := by
  rw [foldName_indexName, foldName_indexName]
  exact indexName_eq_iff k.names l.names

/-- The statement for a key creates the index of that name. -/
theorem createdIndex?_output (lits : LiteralTable) (k : PulledKey) :
    createdIndex? (k.output lits) = some (foldName k.indexName) := by
  have hname : ∀ rest : Bytes,
      readIdent (quoteIdent k.indexName ++ 32 :: rest) = foldName k.indexName :=
    readIdent_quoteIdent k.indexName rfl (by decide)
  obtain ⟨rest, hrest⟩ : ∃ rest, k.output lits = ascii "CREATE " ++
      (if k.key.kind = .unique then ascii "UNIQUE " else []) ++ ascii "INDEX IF NOT EXISTS " ++
        (quoteIdent k.indexName ++ 32 :: rest) := by
    refine ⟨ascii "ON " ++ (restore k.table lits ++ ascii " (" ++
      restore (trimSpace k.columns) lits ++ ascii ")"), ?_⟩
    rw [output]
    simp only [List.append_assoc]
    rfl
  rw [hrest, createdIndex?]
  split
  · have hplain : ∀ s, dropLead? (ascii "CREATE INDEX IF NOT EXISTS ")
        (ascii "CREATE " ++ ascii "UNIQUE " ++ ascii "INDEX IF NOT EXISTS " ++ s) = none :=
      fun _ => rfl
    have hunique : ∀ s, dropLead? (ascii "CREATE UNIQUE INDEX IF NOT EXISTS ")
        (ascii "CREATE " ++ ascii "UNIQUE " ++ ascii "INDEX IF NOT EXISTS " ++ s) = some s :=
      dropLead?_append _
    rw [hplain, hunique, Option.none_or, Option.map_some, hname]
  · have hplain : ∀ s, dropLead? (ascii "CREATE INDEX IF NOT EXISTS ")
        (ascii "CREATE " ++ [] ++ ascii "INDEX IF NOT EXISTS " ++ s) = some s :=
      dropLead?_append _
    rw [hplain, Option.some_or, Option.map_some, hname]

/-! ## Putting literals back -/

/-- The literals come back into the parts of the statement. -/
theorem restore_statement (k : PulledKey) (lits : LiteralTable) :
    restore k.statement lits = ascii "CREATE " ++
      (if k.key.kind = .unique then ascii "UNIQUE " else []) ++ ascii "INDEX IF NOT EXISTS " ++
      restore (quoteIdent k.indexName) lits ++ ascii " ON " ++ restore k.table lits ++
      ascii " (" ++ restore (trimSpace k.columns) lits ++ ascii ")" := by
  obtain ⟨head, hhead, hunmarked⟩ : ∃ head, ascii "CREATE " ++
      (if k.key.kind = .unique then ascii "UNIQUE " else []) ++ ascii "INDEX IF NOT EXISTS "
        = head ++ [32] ∧ containsText head marker = false := by
    by_cases hunique : k.key.kind = .unique
    · rw [if_pos hunique]
      exact ⟨ascii "CREATE UNIQUE INDEX IF NOT EXISTS", rfl, by decide⟩
    · rw [if_neg hunique]
      exact ⟨ascii "CREATE INDEX IF NOT EXISTS", rfl, by decide⟩
  have hon : Fence (ascii " ON ") := ⟨32, ascii "ON", 32, by decide⟩
  have hopen : Fence (ascii " (") := ⟨32, [], 40, by decide⟩
  rw [statement, TableIndex.create, hhead]
  show restore (head ++ [32] ++ quoteIdent k.indexName ++ ascii " ON " ++ k.table ++ ascii " (" ++
    trimSpace k.columns ++ [41]) lits = _
  have hclose : restore (trimSpace k.columns ++ [41]) lits
      = restore (trimSpace k.columns) lits ++ [41] :=
    restore_append_separator rfl lits _ []
  have hname : restore (head ++ [32] ++ quoteIdent k.indexName) lits
      = head ++ [32] ++ restore (quoteIdent k.indexName) lits := by
    rw [List.append_assoc, List.append_assoc]
    exact restore_unmarked_append rfl lits hunmarked _
  rw [List.append_assoc _ (trimSpace k.columns), hopen.restore_append, hclose, hon.restore_append,
    hname]
  simp only [List.append_assoc]
  rfl

theorem restore_line {lits : LiteralTable} {k : PulledKey} (h : k.Intact lits) (rest : Bytes) :
    restore (ascii "\n" ++ k.statement ++ ascii ";" ++ rest) lits
      = ascii "\n" ++ k.output lits ++ ascii ";" ++ restore rest lits := by
  have hline : ∀ statement s : Bytes,
      ascii "\n" ++ statement ++ ascii ";" ++ s = [] ++ 10 :: (statement ++ 59 :: s) := by
    intro statement s
    simp only [List.append_assoc]
    rfl
  rw [hline, hline, restore_append_separator rfl, restore_append_separator rfl,
    restore_statement, h, restore_nil, output]

/-- The literals come back in each of the statements by itself. -/
theorem restore_statements {lits : LiteralTable} {ks : List PulledKey} (h : ∀ k ∈ ks, k.Intact lits) :
    restore (ks.flatMap fun k => ascii "\n" ++ k.statement ++ ascii ";") lits
      = ks.flatMap fun k => ascii "\n" ++ k.output lits ++ ascii ";" := by
  induction ks with
  | nil => rfl
  | cons k ks ih =>
    obtain ⟨hk, hks⟩ := List.forall_mem_cons.1 h
    rw [List.flatMap_cons, restore_line hk, ih hks, List.flatMap_cons]

end PulledKey

/-- The key that an item of a definition of the table turns into an index. -/
def TableItem.pulled? (table bare : Bytes) : TableItem → Option PulledKey
  | index key rendered => if key.kind.isDropped then none else some ⟨table, bare, key, rendered⟩
  | _ => none

theorem TableItem.indexStatement?_eq (table bare : Bytes) (item : TableItem) :
    item.indexStatement? table bare = (item.pulled? table bare).map PulledKey.statement := by
  cases item with
  | index key rendered =>
    rw [indexStatement?, pulled?]
    split <;> rfl
  | _ => rfl

/-- The keys that a table definition turns into index statements, in order. -/
def pulledKeys (s : Bytes) (lits : LiteralTable) (opts : TypeOptions) : List PulledKey :=
  match createTablePattern.find? s with
  | none => []
  | some m =>
    match splitParen? m.after with
    | none => []
    | some (body, _) =>
      let table := normalizeName (m.group 3)
      let parts := (items body).filter fun p => !p.core.isEmpty
      parts.filterMap fun p =>
        (TableItem.ofText lits opts p.core).pulled? table (bareName (lastSegment table) lits)

/-- The definition alone that a table definition is converted to: its head, the items that stay in the
body and the options that are left. None if the statement has no body in parentheses. -/
def definitionAlone? (s : Bytes) (lits : LiteralTable) (opts : TypeOptions) : Option Bytes := do
  let m ← createTablePattern.find? s
  let (body, options) ← splitParen? m.after
  let parts := (items body).filter fun p => !p.core.isEmpty
  let kept := parts.filterMap fun p =>
    ((TableItem.ofText lits opts p.core).kept? opts).map (p.lead ++ ·)
  some (m.group 1 ++ ascii "CREATE " ++
    (if (m.group? 2).isSome then ascii "TEMPORARY " else []) ++
    ascii "TABLE IF NOT EXISTS " ++ normalizeName (m.group 3) ++ ascii " (" ++ Bytes.join [comma] kept ++
    body.drop (Bytes.trimRight body).length ++ ascii ")" ++
    (trimStatementEnd (tableOptionPattern.erase options)).1)

variable {s : Bytes} {lits : LiteralTable} {opts : TypeOptions}

theorem definitionAlone?_of_eq_none (h : createTable? s lits opts = none) :
    definitionAlone? s lits opts = none := by
  rw [definitionAlone?]
  rw [createTable?] at h
  cases hm : createTablePattern.find? s with
  | none => rfl
  | some m =>
    cases hbody : splitParen? m.after with
    | none => simp only [Option.bind_eq_bind, Option.bind_some, hbody, Option.bind_none]
    | some p => simp [hm, hbody] at h

theorem pulledKeys_of_eq_none (h : createTable? s lits opts = none) :
    pulledKeys s lits opts = [] := by
  rw [pulledKeys]
  rw [createTable?] at h
  cases hm : createTablePattern.find? s with
  | none => rfl
  | some m =>
    cases hbody : splitParen? m.after with
    | none => simp only [hbody]
    | some p => simp [hm, hbody] at h

/-- Behind a converted definition stand the statements for its keys. -/
theorem text_of_createTable? {t : CreatedTable} (h : createTable? s lits opts = some t) :
    ∃ definition, definitionAlone? s lits opts = some definition ∧ t.text = definition ++ ascii ";" ++
      (pulledKeys s lits opts).flatMap fun k => ascii "\n" ++ k.statement ++ ascii ";" := by
  rw [createTable?, Option.bind_eq_bind, Option.bind_eq_some_iff] at h
  obtain ⟨m, hm, h⟩ := h
  rw [Option.bind_eq_bind, Option.bind_eq_some_iff] at h
  obtain ⟨⟨body, tail⟩, hbody, h⟩ := h
  have hindexes : ∀ (table bare : Bytes) (ps : List Spaced),
      ps.filterMap (fun p => (TableItem.ofText lits opts p.core).indexStatement? table bare)
        = (ps.filterMap fun p => (TableItem.ofText lits opts p.core).pulled? table bare).map
          PulledKey.statement := by
    intro table bare ps
    rw [List.map_filterMap]
    exact congrArg (ps.filterMap ·) (funext fun p => TableItem.indexStatement?_eq table bare _)
  rw [← Option.some.inj h, pulledKeys, definitionAlone?, hm]
  simp only [Option.bind_eq_bind, Option.bind_some, hbody, List.filterMap_map, Function.comp_def,
    hindexes, List.flatMap_map]
  exact ⟨_, rfl, rfl⟩

end SqlDialect
