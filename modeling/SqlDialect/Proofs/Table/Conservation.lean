import SqlDialect.Conversion.Rule
import SqlDialect.Proofs.Schema.Report
import SqlDialect.Proofs.Table.Backing
import SqlDialect.Proofs.Table.KeyClauses

set_option autoImplicit false

/-! # Every item of a definition is used once

A table definition is put out item by item: an item stays in the body, or it becomes an index statement
behind it, or it is left out (`ItemUse`). Which of these happens is said by what is written
(`UsedAs`), and the output and what is known about the table hold exactly what the items are used for,
in the order in which they stand (`createTable_conserves`).

What is written is not always what is read (`ReadsPlainly`): a key may lose its kind, or stay in the
body. -/

namespace SqlDialect

open Bytes

/-- What an item of a definition is used for. -/
inductive ItemUse where
  /-- It stays in the body in this form; a column may be a unique key by itself. -/
  | kept (text : Bytes) (key : Option TableIndex)
  /-- It becomes an index on these columns. -/
  | indexed (key : TableIndex) (columns : Bytes)
  /-- It is left out. -/
  | dropped (key : TableIndex)

namespace ItemUse

/-- What stays in the body. -/
def kept? : ItemUse → Option Bytes
  | kept text _ => some text
  | _ => none

/-- The statement that creates the index. -/
def statement? (table bare : Bytes) : ItemUse → Option Bytes
  | indexed key columns => some (key.create table bare columns)
  | _ => none

/-- The secondary key of the table. -/
def key? : ItemUse → Option TableIndex
  | kept _ key => key
  | indexed key _ => some key
  | dropped _ => none

/-- The key that is left out. -/
def dropped? : ItemUse → Option TableIndex
  | dropped key => some key
  | _ => none

end ItemUse

/-- The key of a column that is unique by its own attributes, and not as the primary key. -/
def Column.ownKey? (lits : LiteralTable) (col : Column) : Option TableIndex :=
  if Column.uniquePattern.occursIn col.attrs && !Column.primaryPattern.occursIn col.attrs then
    some ⟨bareName col.name lits, .unique, [⟨bareName col.name lits, []⟩]⟩
  else none

/-- What an item is used for, by what is written. -/
inductive UsedAs (lits : LiteralTable) (opts : TypeOptions) (item : Bytes) : ItemUse → Prop where
  | primaryKey {m : Match} (hm : primaryKeyPattern.find? item = some m) :
    UsedAs lits opts item
      (.kept (ascii "PRIMARY KEY (" ++ (KeyColumns.ofText m.after lits).rendered ++ ascii ")") none)
  | column {col : Column} (hprimary : primaryKeyPattern.find? item = none)
    (hclause : ReadsPlainly item → ¬ WritesKey item)
    (hconstraint : constraintPattern.occursIn item = false)
    (hcol : Column.ofText? item lits opts false = some col) :
    UsedAs lits opts item (.kept (col.render opts) (col.ownKey? lits))
  | verbatim (hprimary : primaryKeyPattern.find? item = none)
    (hclause : ReadsPlainly item → ¬ WritesKey item)
    (hother : constraintPattern.occursIn item = true ∨ Column.ofText? item lits opts false = none) :
    UsedAs lits opts item (.kept item none)
  /-- A key becomes an index, which is unique exactly if UNIQUE is written. -/
  | indexed {m : Match} (hprimary : primaryKeyPattern.find? item = none)
    (hm : keyClause? item = some m)
    (hclause : ReadsPlainly item → WritesKey item ∧ ¬ SaysKind ["FULLTEXT", "SPATIAL"] item)
    (hunique : ReadsPlainly item →
      ((TableIndex.ofClause m lits).1.kind = .unique ↔ SaysKind ["UNIQUE"] item)) :
    UsedAs lits opts item
      (.indexed (TableIndex.ofClause m lits).1 (TableIndex.ofClause m lits).2)
  | dropped {m : Match} (hprimary : primaryKeyPattern.find? item = none)
    (hm : keyClause? item = some m)
    (hclause : ReadsPlainly item → SaysKind ["FULLTEXT", "SPATIAL"] item) :
    UsedAs lits opts item (.dropped (TableIndex.ofClause m lits).1)

/-! ## The use of an item -/

namespace TableItem

variable {lits : LiteralTable} {opts : TypeOptions} {item : Bytes}

/-- What the item is used for. -/
def use (lits : LiteralTable) (opts : TypeOptions) : TableItem → ItemUse
  | primaryKey _ rendered => .kept (ascii "PRIMARY KEY (" ++ rendered ++ ascii ")") none
  | index key rendered => if key.kind.isDropped then .dropped key else .indexed key rendered
  | column col => .kept (col.render opts) (col.ownKey? lits)
  | verbatim text => .kept text none

theorem kept?_use (item : TableItem) : (item.use lits opts).kept? = item.kept? opts := by
  cases item with
  | index key rendered =>
    rw [use, kept?]
    split <;> rfl
  | _ => rfl

theorem statement?_use (table bare : Bytes) (item : TableItem) :
    (item.use lits opts).statement? table bare = item.indexStatement? table bare := by
  cases item with
  | index key rendered =>
    rw [use, indexStatement?]
    split <;> rfl
  | _ => rfl

theorem key?_use (item : TableItem) : (item.use lits opts).key? = item.key? lits := by
  cases item with
  | index key rendered =>
    rw [use, key?]
    split <;> rfl
  | column col =>
    rw [use, ItemUse.key?, Column.ownKey?, key?]
    cases Column.primaryPattern.occursIn col.attrs <;>
      cases Column.uniquePattern.occursIn col.attrs <;> rfl
  | _ => rfl

theorem dropped?_use (item : TableItem) : (item.use lits opts).dropped? = item.droppedKey? := by
  cases item with
  | index key rendered =>
    rw [use, droppedKey?]
    split <;> rfl
  | _ => rfl

end TableItem

/-- Each item is used as what is written says. -/
theorem usedAs_use (lits : LiteralTable) (opts : TypeOptions) (item : Bytes) :
    UsedAs lits opts item ((TableItem.ofText lits opts item).use lits opts) := by
  rw [TableItem.ofText]
  cases hprimary : primaryKeyPattern.find? item with
  | some m => exact .primaryKey hprimary
  | none =>
    cases hclause : keyClause? item with
    | some m =>
      dsimp only [TableItem.use]
      split
      · rename_i hdropped
        exact .dropped hprimary hclause
          fun h => (isDropped_iff_saysKind h.named hclause lits).1 hdropped
      · rename_i hdropped
        refine .indexed hprimary hclause (fun h => ⟨writesKey_of_keyClause? h hclause, ?_⟩)
          fun h => isUnique_iff_saysKind h.named hclause lits
        rwa [← isDropped_iff_saysKind h.named hclause lits]
    | none =>
      have hno := fun h => not_writesKey_of_keyClause? h hclause
      dsimp only
      split
      · rename_i hconstraint
        exact .verbatim hprimary hno (Or.inl hconstraint)
      · rename_i hconstraint
        cases hcol : Column.ofText? item lits opts false with
        | some col => exact .column hprimary hno (Bool.eq_false_iff.2 hconstraint) hcol
        | none => exact .verbatim hprimary hno (Or.inr hcol)

/-! ## The output -/

/-- The output of a definition with the uses of its items: the kept ones in the body, each behind the
blanks in front of it, and behind the definition a statement for each index, on the same table. -/
structure PutOut (s : Bytes) (lits : LiteralTable) (uses : List ItemUse) (t : CreatedTable) :
    Prop where
  text : ∃ m body options parts, createTablePattern.find? s = some m ∧
    splitParen? m.after = some (body, options) ∧
    t.definition.name = normalizeName (m.group 3) ∧
    List.Forall₂ (fun part kept => ∃ lead, AllBlank lead ∧ part = lead ++ kept) parts
      (uses.filterMap ItemUse.kept?) ∧
    t.text = m.group 1 ++ ascii "CREATE " ++
      (if (m.group? 2).isSome then ascii "TEMPORARY " else []) ++
      ascii "TABLE IF NOT EXISTS " ++ t.definition.name ++ ascii " (" ++ join [comma] parts ++
      body.drop (trimRight body).length ++ ascii ")" ++
      (trimStatementEnd (tableOptionPattern.erase options)).1 ++ ascii ";" ++
      (uses.filterMap (ItemUse.statement? t.definition.name
        (bareName (lastSegment t.definition.name) lits))).flatMap fun statement =>
          ascii "\n" ++ statement ++ ascii ";"
  keys : t.definition.keys = uses.filterMap ItemUse.key?
  droppedKeys : t.definition.droppedKeys = uses.filterMap ItemUse.dropped?

theorem forall₂_kept {f : Bytes → Option Bytes} {ps : List Spaced}
    (h : ∀ p ∈ ps, AllBlank p.lead) :
    List.Forall₂ (fun part kept => ∃ lead, AllBlank lead ∧ part = lead ++ kept)
      (ps.filterMap fun p => (f p.core).map (p.lead ++ ·)) (ps.filterMap fun p => f p.core) := by
  induction ps with
  | nil => exact .nil
  | cons p ps ih =>
    obtain ⟨hp, hps⟩ := List.forall_mem_cons.1 h
    cases hkept : f p.core with
    | none =>
      rw [List.filterMap_cons_none (by rw [hkept]; rfl),
        List.filterMap_cons_none (f := fun p : Spaced => f p.core) hkept]
      exact ih hps
    | some kept =>
      rw [List.filterMap_cons_some (by rw [hkept]; rfl),
        List.filterMap_cons_some (f := fun p : Spaced => f p.core) hkept]
      exact .cons ⟨p.lead, hp, rfl⟩ (ih hps)

/-- What is collected from the uses of items is collected from what the items are read as. -/
theorem filterMap_uses {α : Type} {lits : LiteralTable} {opts : TypeOptions} {f : ItemUse → Option α}
    {g : TableItem → Option α} (h : ∀ item : TableItem, f (item.use lits opts) = g item)
    (written : List Bytes) :
    (written.map fun item => (TableItem.ofText lits opts item).use lits opts).filterMap f
      = written.filterMap fun item => g (TableItem.ofText lits opts item) := by
  rw [List.filterMap_map]
  exact congrArg (written.filterMap ·) (funext fun item => h _)

theorem putOut_createTable? {s : Bytes} {lits : LiteralTable} {opts : TypeOptions}
    {t : CreatedTable} (ht : createTable? s lits opts = some t) :
    PutOut s lits ((tableItems s).map fun item => (TableItem.ofText lits opts item).use lits opts)
      t := by
  obtain ⟨m, ⟨body, options⟩, hm, hparts⟩ := exists_body_of_createTable? ht
  have hname := name_createTable? hm ht
  refine ⟨?_, ?_, ?_⟩
  · refine ⟨m, body, options,
      ((items body).filter fun p => !p.core.isEmpty).filterMap fun p =>
        ((TableItem.ofText lits opts p.core).kept? opts).map (p.lead ++ ·), hm, hparts, hname, ?_, ?_⟩
    · have hlead : ∀ p ∈ (items body).filter fun p => !p.core.isEmpty, AllBlank p.lead := by
        intro p hp
        obtain ⟨part, -, rfl⟩ := List.mem_map.1 (List.mem_filter.1 hp).1
        exact (Spaced.allBlank_ofText part).1
      have hkept := forall₂_kept (f := fun item => (TableItem.ofText lits opts item).kept? opts) hlead
      rw [filterMap_uses TableItem.kept?_use, tableItems_of_splitParen? hm hparts, bodyItems,
        List.filter_map, List.filterMap_map]
      exact hkept
    · rw [filterMap_uses (TableItem.statement?_use _ _), hname, tableItems_of_splitParen? hm hparts,
        bodyItems, List.filter_map, List.filterMap_map]
      rw [createTable?, Option.bind_eq_bind, hm, Option.bind_some, Option.bind_eq_bind, hparts,
        Option.bind_some, Option.some.injEq] at ht
      rw [← ht]
      simp only [List.filterMap_map]
      rfl
  · rw [filterMap_uses TableItem.key?_use, keys_createTable? ht]
  · rw [filterMap_uses TableItem.dropped?_use, droppedKeys_createTable? ht]

/-- **A table definition conserves its items.** Each item of the body is used once, as what is written
says; what stays, the index statements and the keys that are known stand in the order of the items. A
statement that is not a table definition with a body is left as it is, and so is the catalog. -/
theorem createTable_conserves (d : Draft) :
    (createTable? d.text d.literals d.options = none → d.createTable = d) ∧
    ∀ t, createTable? d.text d.literals d.options = some t →
      ∃ uses, List.Forall₂ (UsedAs d.literals d.options) (tableItems d.text) uses ∧
        PutOut d.text d.literals uses t := by
  constructor
  · intro hnone
    rw [Draft.createTable, hnone]
  · intro t ht
    refine ⟨_, ?_, putOut_createTable? ht⟩
    rw [List.forall₂_map_right_iff]
    exact List.forall₂_same.2 fun item _ => usedAs_use d.literals d.options item

/-- A definition with a column and keys of several kinds, and a statement without a body. -/
theorem createTable_conserves_kinds :
    let d : Draft :=
      { kind := .createTable
        text := ascii ("CREATE TABLE t (a int UNIQUE, b text, UNIQUE KEY k (a), FULLTEXT KEY f (b), " ++
          "CONSTRAINT c UNIQUE KEY u (a), KEY i (b(9)))")
        literals := [] }
    let like : Draft := { kind := .createTable, text := ascii "CREATE TABLE t LIKE u", literals := [] }
    (∀ item ∈ tableItems d.text, ReadsPlainly item) ∧
    (∃ t, createTable? d.text d.literals d.options = some t ∧
      ∃ uses, List.Forall₂ (UsedAs d.literals d.options) (tableItems d.text) uses ∧
        PutOut d.text d.literals uses t) ∧
    createTable? like.text like.literals like.options = none ∧ like.createTable = like := by
  intro d like
  have hsome : (createTable? d.text d.literals d.options).isSome := by decide +kernel
  obtain ⟨t, ht⟩ := Option.isSome_iff_exists.1 hsome
  have hnone : createTable? like.text like.literals like.options = none :=
    Option.isNone_iff_eq_none.1 (by decide +kernel)
  exact ⟨by decide +kernel, ⟨t, ht, (createTable_conserves d).2 t ht⟩, hnone,
    (createTable_conserves like).1 hnone⟩

/-- A unique key behind CONSTRAINT without a name becomes a plain index, and a key whose name has a blank
stays in the body. -/
theorem createTable_loses_unique :
    let unnamed := ascii "CONSTRAINT UNIQUE KEY k (a)"
    let quoted := ascii "KEY \"my idx\" (a)"
    let text := ascii "CREATE TABLE t (a int, " ++ unnamed ++ ascii ", " ++ quoted ++ ascii ")"
    tableItems text = [ascii "a int", unnamed, quoted] ∧
      SaysKind ["UNIQUE"] unnamed ∧ WritesKey quoted ∧
      (createTable? text [] {}).map CreatedTable.text
        = some (ascii ("CREATE TABLE IF NOT EXISTS t (a int, KEY \"my idx\" (a));\n" ++
          "CREATE INDEX IF NOT EXISTS t_k ON t (a);")) := by
  repeat rw [ascii_ofList]
  decide +kernel

end SqlDialect
