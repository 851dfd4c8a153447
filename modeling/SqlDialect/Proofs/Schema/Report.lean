import Mathlib.Algebra.BigOperators.Group.List.Lemmas
import Mathlib.Algebra.GroupWithZero.Nat
import Mathlib.Data.List.Forall2
import SqlDialect.Proofs.Conversion.Report
import SqlDialect.Proofs.Table.Backing
import SqlDialect.Schema.Report

set_option autoImplicit false

/-! # The compatibility report is complete

What a report has to say about the keys of a table is read off the items of its definition
(`dueKeyWarnings`): one warning for each key that is left out, and one for each column of a key that is
written with a length limit, since the list of columns in the output has no limits. The report says just
that, table by table, except about the limits of primary keys, of which only the columns are kept. The
collations are counted over all tables: each is reported once, in byte order, and the counts add up. -/

namespace SqlDialect

open Bytes

/-! ## Length limits -/

/-- A column of a key that is written with a length limit. -/
def limitedPart? (lits : LiteralTable) (col : Bytes) : Option KeyPart :=
  (keyPartPattern.find? col).bind fun m =>
    (m.group? 2).map fun limit => ⟨bareName (m.group 1) lits, limit⟩

/-- The columns with a length limit in the list that follows an opening parenthesis. -/
def limitedParts (lits : LiteralTable) (after : Bytes) : List KeyPart :=
  (items (((splitParen? after).map Prod.fst).getD after)).filterMap fun p => limitedPart? lits p.core

/-- A limit that is written has digits. -/
theorem limit_ne_nil {col limit : Bytes} {m : Match} (hm : keyPartPattern.find? col = some m)
    (hlimit : m.group? 2 = some limit) : limit ≠ [] := by
  obtain ⟨q, hq, c, c', hleads, htakes⟩ := Pattern.leads_of_group? hm hlimit
  obtain rfl : q = .many1 (.one CharSet.digit) := List.mem_singleton.1 hq
  obtain ⟨t, hne, -, ht⟩ := Pattern.leads_many1_ascii (by decide) hleads
  rwa [htakes.unique ht]

/-- The columns that are noted with a limit are those that are written with one. -/
theorem filter_parts_ofText (s : Bytes) (lits : LiteralTable) :
    (KeyColumns.ofText s lits).parts.filter (fun p => !p.limit.isEmpty) = limitedParts lits s := by
  rw [KeyColumns.ofText, limitedParts, List.filter_filterMap]
  congr 1
  funext p
  rw [KeyColumns.part?, limitedPart?]
  cases hm : keyPartPattern.find? p.core with
  | none => rfl
  | some m =>
    rw [Option.map_some, Option.bind_some, Option.filter_some]
    cases hlimit : m.group? 2 with
    | none => simp [Match.group, hlimit]
    | some limit => simp [Match.group, hlimit, limit_ne_nil hm hlimit]

/-! ## What is due for the keys of a table -/

/-- The warning that is due for an item that is a key of a kind that is left out. -/
def droppedWarning? (table : Bytes) (lits : LiteralTable) (item : Bytes) : Option SchemaWarning :=
  match primaryKeyPattern.find? item, keyClause? item with
  | none, some m =>
    let key := (TableIndex.ofClause m lits).1
    if key.kind.isDropped then some (.droppedIndex table key.name key.kind) else none
  | _, _ => none

/-- The warnings that are due for an item that is a primary key: one for each column with a limit. -/
def primaryLimitWarnings (table : Bytes) (lits : LiteralTable) (item : Bytes) : List SchemaWarning :=
  match primaryKeyPattern.find? item with
  | some m =>
    (limitedParts lits m.after).map fun part => .ignoredLimit table (ascii "PRIMARY") part true
  | none => []

/-- The warnings that are due for an item that is a key of a kind that is kept: one for each column with
a limit. -/
def keyLimitWarnings (table : Bytes) (lits : LiteralTable) (item : Bytes) : List SchemaWarning :=
  match primaryKeyPattern.find? item, keyClause? item with
  | none, some m =>
    let key := (TableIndex.ofClause m lits).1
    if key.kind.isDropped then []
    else (limitedParts lits m.after).map fun part =>
      .ignoredLimit table key.name part (key.kind == .unique)
  | _, _ => []

/-- The items of the table that a statement defines, the literals set apart. -/
def definitionItems (sql : Bytes) : List Bytes :=
  tableItems (replaceBackticks (shield sql).1)

/-- The warnings that are due for the keys of a table by the items of its definition. -/
def dueKeyWarnings (sql : Bytes) (t : TableDef) : List SchemaWarning :=
  (definitionItems sql).filterMap (droppedWarning? t.name (shield sql).2) ++
    (definitionItems sql).flatMap fun item =>
      primaryLimitWarnings t.name (shield sql).2 item ++ keyLimitWarnings t.name (shield sql).2 item

/-- Those among them that are about the columns of primary keys. -/
def duePrimaryWarnings (sql : Bytes) (t : TableDef) : List SchemaWarning :=
  (definitionItems sql).flatMap (primaryLimitWarnings t.name (shield sql).2)

/-! ## What is reported -/

namespace TableItem

variable {lits : LiteralTable} {opts : TypeOptions}

/-- The key of an item that is left out. -/
def droppedKey? : TableItem → Option TableIndex
  | index key _ => if key.kind.isDropped then some key else none
  | _ => none

theorem droppedKeys_addTo (lits : LiteralTable) (d : TableDef) (item : TableItem) :
    (item.addTo lits d).droppedKeys = d.droppedKeys ++ item.droppedKey?.toList := by
  cases item with
  | primaryKey parts rendered => exact (List.append_nil _).symm
  | index key rendered =>
    rw [addTo, droppedKey?]
    split
    · rfl
    · exact (List.append_nil _).symm
  | column col =>
    rw [addTo]
    dsimp only
    split
    · exact (List.append_nil _).symm
    split
    · exact (List.append_nil _).symm
    · exact (List.append_nil _).symm
  | verbatim text => exact (List.append_nil _).symm

/-- What is reported of the limits of a key. -/
def reportedLimits (table : Bytes) (key : TableIndex) : List SchemaWarning :=
  (key.columns.filter fun p => !p.limit.isEmpty).map fun p =>
    .ignoredLimit table key.name p (key.kind == .unique)

theorem droppedKey?_ofText (table : Bytes) (item : Bytes) :
    (ofText lits opts item).droppedKey?.map (fun k => .droppedIndex table k.name k.kind)
      = droppedWarning? table lits item := by
  rw [ofText, droppedWarning?]
  cases primaryKeyPattern.find? item with
  | some m => rfl
  | none =>
    cases keyClause? item with
    | some m =>
      dsimp only [droppedKey?]
      split <;> rfl
    | none =>
      dsimp only
      split
      · rfl
      · split <;> rfl

/-- What is reported of the limits in an item is what is due for a key that is kept. A column that is a
key by itself has no limit. -/
theorem reportedLimits_ofText (table : Bytes) (item : Bytes) :
    ((ofText lits opts item).key? lits).toList.flatMap (reportedLimits table)
      = keyLimitWarnings table lits item := by
  rw [ofText, keyLimitWarnings]
  cases primaryKeyPattern.find? item with
  | some m => rfl
  | none =>
    cases keyClause? item with
    | some m =>
      dsimp only [key?]
      split
      · rfl
      · rw [Option.toList_some, List.flatMap_singleton, reportedLimits]
        exact congrArg (List.map _) (filter_parts_ofText m.after lits)
    | none =>
      dsimp only
      split
      · rfl
      · split
        · rw [key?]
          split
          · rfl
          · split <;> rfl
        · rfl

end TableItem

theorem flatMap_filterMap {α β γ : Type} (f : α → Option β) (g : β → List γ) (as : List α) :
    (as.filterMap f).flatMap g = as.flatMap fun a => (f a).toList.flatMap g := by
  induction as with
  | nil => rfl
  | cons a as ih =>
    cases h : f a with
    | none => simp [List.filterMap_cons_none h, ih, h]
    | some b => simp [List.filterMap_cons_some h, ih, h]

variable {s : Bytes} {lits : LiteralTable} {opts : TypeOptions} {t : CreatedTable}

theorem droppedKeys_createTable? (ht : createTable? s lits opts = some t) :
    t.definition.droppedKeys
      = (tableItems s).filterMap fun item => (TableItem.ofText lits opts item).droppedKey? :=
  collected_createTable? (TableItem.droppedKeys_addTo lits) (fun _ => rfl) (fun _ _ => rfl) ht

/-- The report on the keys of a table says what is due for the keys that are left out and for the
limits of the keys that are kept. -/
theorem keyWarnings_eq {sql : Bytes} {t : TableDef} (ht : TableDef.ofStatement? sql = some t) :
    t.keyWarnings = (definitionItems sql).filterMap (droppedWarning? t.name (shield sql).2) ++
      (definitionItems sql).flatMap (keyLimitWarnings t.name (shield sql).2) := by
  rw [TableDef.ofStatement?_eq] at ht
  obtain ⟨created, hcreated, rfl⟩ := Option.map_eq_some_iff.1 ht
  rw [createdTable?] at hcreated
  split at hcreated
  · rw [TableDef.keyWarnings]
    simp only [droppedKeys_createTable? hcreated, keys_createTable? hcreated]
    congr 1
    · rw [List.map_filterMap]
      congr 1
      funext item
      exact TableItem.droppedKey?_ofText _ item
    · rw [flatMap_filterMap]
      refine List.flatMap_congr fun item _ => ?_
      exact TableItem.reportedLimits_ofText _ item
  · cases hcreated

/-- What is due for the keys of a table is what is reported and what is due for its primary keys. -/
theorem dueKeyWarnings_perm {sql : Bytes} {t : TableDef} (ht : TableDef.ofStatement? sql = some t) :
    (dueKeyWarnings sql t).Perm (t.keyWarnings ++ duePrimaryWarnings sql t) := by
  rw [keyWarnings_eq ht, List.append_assoc]
  refine List.Perm.append_left _ ?_
  exact (List.flatMap_append_perm _ _ _).symm.trans List.perm_append_comm

/-! ## The collations -/

/-- The occurrences of the single texts add up to the number of texts. -/
theorem sum_count_sorted (ts : List Bytes) :
    ((Bytes.sorted ts.eraseDups).map fun t => ts.count t).sum = ts.length := by
  have hperm : (Bytes.sorted ts.eraseDups).Perm ts.dedup :=
    (List.mergeSort_perm _ _).trans
      ((List.perm_ext_iff_of_nodup (nodup_eraseDups ts) (List.nodup_dedup ts)).2 fun t => by
        rw [List.mem_eraseDups, List.mem_dedup])
  rw [(hperm.map _).sum_nat, ← List.sum_map_count_dedup_eq_length ts]
  congr!

/-- The collation and the number of columns in a warning about a collation. -/
def collationLine? : SchemaWarning → Option (Bytes × Nat)
  | .caseInsensitive collation count => some (collation, count)
  | _ => none

/-- Whether a warning is about a key. -/
def isKeyWarning : SchemaWarning → Bool
  | .droppedIndex .. => true
  | .ignoredLimit .. => true
  | _ => false

theorem isKeyWarning_keyWarnings (t : TableDef) : ∀ w ∈ t.keyWarnings, isKeyWarning w = true := by
  intro w hw
  rw [TableDef.keyWarnings, List.mem_append, List.mem_map, List.mem_flatMap] at hw
  rcases hw with ⟨k, -, rfl⟩ | ⟨k, -, hw⟩
  · rfl
  · obtain ⟨p, -, rfl⟩ := List.mem_map.1 hw
    rfl

theorem collationLine?_of_isKeyWarning {w : SchemaWarning} (h : isKeyWarning w = true) :
    collationLine? w = none := by
  cases w with
  | droppedIndex table key kind => rfl
  | ignoredLimit table key part unique => rfl
  | caseInsensitive collation count => cases h
  | looseUnique collation columns => cases h

section Collations

variable (columns : List FoldingColumn) (collation : Bytes)

theorem filter_isKeyWarning_collationWarnings :
    (collationWarnings columns collation).filter isKeyWarning = [] := by
  rw [collationWarnings]
  split <;> rfl

/-- The warnings about a collation have one line that counts its columns. -/
theorem filterMap_collationLine?_collationWarnings :
    (collationWarnings columns collation).filterMap collationLine?
      = [(collation, (columns.map FoldingColumn.collation).count collation)] := by
  have hcount : (columns.filter (·.collation == collation)).length
      = (columns.map FoldingColumn.collation).count collation := by
    rw [List.count_eq_countP, List.countP_map, List.countP_eq_length_filter]
    rfl
  rw [collationWarnings, hcount]
  split <;> rfl

end Collations

/-- The warnings about keys in a report are those of its tables. -/
theorem filter_isKeyWarning_schemaWarnings (ts : List TableDef) :
    (schemaWarnings ts).filter isKeyWarning = ts.flatMap TableDef.keyWarnings := by
  rw [schemaWarnings, List.filter_append, List.filter_flatMap, List.filter_flatMap]
  simp only [filter_isKeyWarning_collationWarnings]
  rw [List.flatMap_eq_nil_iff.2 fun _ _ => rfl, List.append_nil]
  exact List.flatMap_congr fun t _ => List.filter_eq_self.2 (isKeyWarning_keyWarnings t)

/-- The columns of some tables whose comparisons ignored letter case, by the collations they go by. -/
def foldingCollations (ts : List TableDef) : List Bytes :=
  ts.flatMap fun t => (t.columns.filter t.foldsCase).map t.collationOf

theorem count_foldingCollations (ts : List TableDef) (c : Bytes) : (foldingCollations ts).count c
    = (ts.map fun t => t.columns.countP fun col =>
        t.foldsCase col && t.collationOf col == c).sum := by
  rw [foldingCollations, List.count_flatMap]
  refine congrArg List.sum (List.map_congr_left fun t _ => ?_)
  rw [Function.comp_apply, List.count_eq_countP, List.countP_map, List.countP_filter]
  simp only [Function.comp_apply, Bool.and_comm]

theorem length_foldingCollations (ts : List TableDef) :
    (foldingCollations ts).length = (ts.map fun t => t.columns.countP t.foldsCase).sum := by
  rw [foldingCollations, List.length_flatMap]
  refine congrArg List.sum (List.map_congr_left fun t _ => ?_)
  rw [List.length_map, List.countP_eq_length_filter]

/-- The collation lines of a report. -/
theorem filterMap_collationLine?_schemaWarnings (ts : List TableDef) :
    (schemaWarnings ts).filterMap collationLine?
      = (Bytes.sorted (foldingCollations ts).eraseDups).map fun c =>
          (c, (foldingCollations ts).count c) := by
  have hcollations : (ts.flatMap TableDef.foldingColumns).map FoldingColumn.collation
      = foldingCollations ts := by
    rw [List.map_flatMap]
    refine List.flatMap_congr fun t _ => ?_
    rw [TableDef.foldingColumns, List.map_map]
    rfl
  have hkeys : (ts.flatMap TableDef.keyWarnings).filterMap collationLine? = [] := by
    rw [List.filterMap_eq_nil_iff]
    intro w hw
    obtain ⟨t, -, hw⟩ := List.mem_flatMap.1 hw
    exact collationLine?_of_isKeyWarning (isKeyWarning_keyWarnings t w hw)
  rw [schemaWarnings, List.filterMap_append, hkeys, List.nil_append, List.filterMap_flatMap, hcollations]
  simp only [filterMap_collationLine?_collationWarnings, hcollations]
  exact List.map_eq_flatMap.symm

/-! ## The whole report -/

/-- What is due for the keys of some tables is what is reported and what is due for their primary
keys. -/
theorem flatten_dueKeyWarnings_perm {sqls : List Bytes} {ts : List TableDef}
    (hts : List.Forall₂ (fun sql t => TableDef.ofStatement? sql = some t) sqls ts) :
    (List.zipWith dueKeyWarnings sqls ts).flatten.Perm
      (ts.flatMap TableDef.keyWarnings ++ (List.zipWith duePrimaryWarnings sqls ts).flatten) := by
  induction hts with
  | nil => exact List.Perm.nil
  | @cons sql t sqls ts hsql hrest ih =>
    simp only [List.zipWith_cons_cons, List.flatten_cons, List.flatMap_cons, List.append_assoc]
    refine ((dueKeyWarnings_perm hsql).append ih).trans ?_
    rw [List.append_assoc]
    exact List.Perm.append_left _ (List.perm_append_comm_assoc _ _ _)

/-- The report is complete but for the limits of primary keys. What is due for the keys by the items of
the definitions is reported once each, except what is due for the columns of primary keys. The
collation lines are in byte order and none is repeated; each counts the columns that go by its
collation and whose comparisons ignored letter case, and together they count all such columns of all
tables. -/
theorem schemaWarnings_complete {sqls : List Bytes} {ts : List TableDef}
    (hts : List.Forall₂ (fun sql t => TableDef.ofStatement? sql = some t) sqls ts) :
    (List.zipWith dueKeyWarnings sqls ts).flatten.Perm
        ((schemaWarnings ts).filter isKeyWarning ++
          (List.zipWith duePrimaryWarnings sqls ts).flatten)
      ∧ (((schemaWarnings ts).filterMap collationLine?).map Prod.fst).Pairwise
          (fun a b => Bytes.le a b = true ∧ a ≠ b)
      ∧ (∀ c n, (c, n) ∈ (schemaWarnings ts).filterMap collationLine? ↔
          n = (ts.map fun t => t.columns.countP fun col =>
            t.foldsCase col && t.collationOf col == c).sum ∧ 0 < n)
      ∧ (((schemaWarnings ts).filterMap collationLine?).map Prod.snd).sum
          = (ts.map fun t => t.columns.countP t.foldsCase).sum := by
  rw [filter_isKeyWarning_schemaWarnings, filterMap_collationLine?_schemaWarnings]
  refine ⟨flatten_dueKeyWarnings_perm hts, ?_, fun c n => ?_, ?_⟩
  · rw [List.map_map, show Prod.fst ∘ _ = id from rfl, List.map_id]
    exact pairwise_sorted_eraseDups _
  · rw [← count_foldingCollations, List.mem_map]
    constructor
    · rintro ⟨c', hc', heq⟩
      cases heq
      exact ⟨rfl, List.count_pos_iff.2 (mem_sorted_eraseDups.1 hc')⟩
    · rintro ⟨rfl, hpos⟩
      exact ⟨c, mem_sorted_eraseDups.2 (List.count_pos_iff.1 hpos), rfl⟩
  · rw [List.map_map, ← length_foldingCollations]
    exact sum_count_sorted _

/-- A table with a collation and a key that is left out, and a table whose keys have limits. -/
theorem schemaWarnings_complete_two :
    let sqls := [ascii "CREATE TABLE t (a text, FULLTEXT (a)) COLLATE u_ci",
      ascii "CREATE TABLE s (b text, KEY (b(9)), PRIMARY KEY (b(3)))"]
    ∃ ts, List.Forall₂ (fun sql t => TableDef.ofStatement? sql = some t) sqls ts
      ∧ (List.zipWith dueKeyWarnings sqls ts).flatten.Perm
          ((schemaWarnings ts).filter isKeyWarning ++
            [.ignoredLimit (ascii "s") (ascii "PRIMARY") ⟨ascii "b", ascii "3"⟩ true])
      ∧ (((schemaWarnings ts).filterMap collationLine?).map Prod.snd).sum = 1 := by
  intro sqls
  have hfirst : (TableDef.ofStatement? sqls[0]).map
      (fun t => (duePrimaryWarnings sqls[0] t, t.columns.countP t.foldsCase)) = some ([], 1) := by
    decide +kernel
  have hsecond : (TableDef.ofStatement? sqls[1]).map
      (fun t => (duePrimaryWarnings sqls[1] t, t.columns.countP t.foldsCase))
      = some ([.ignoredLimit (ascii "s") (ascii "PRIMARY") ⟨ascii "b", ascii "3"⟩ true], 0) := by
    decide +kernel
  obtain ⟨t₁, ht₁, heq₁⟩ := Option.map_eq_some_iff.1 hfirst
  obtain ⟨t₂, ht₂, heq₂⟩ := Option.map_eq_some_iff.1 hsecond
  obtain ⟨hprimary₁, hfolding₁⟩ := Prod.mk.inj heq₁
  obtain ⟨hprimary₂, hfolding₂⟩ := Prod.mk.inj heq₂
  have hts : List.Forall₂ (fun sql t => TableDef.ofStatement? sql = some t) sqls [t₁, t₂] :=
    .cons ht₁ (.cons ht₂ .nil)
  obtain ⟨hkeys, -, -, hsum⟩ := schemaWarnings_complete hts
  refine ⟨[t₁, t₂], hts, ?_, ?_⟩
  · have hprimary : (List.zipWith duePrimaryWarnings sqls [t₁, t₂]).flatten
        = [.ignoredLimit (ascii "s") (ascii "PRIMARY") ⟨ascii "b", ascii "3"⟩ true] :=
      congrArg₂ (fun ws ws' => ws ++ (ws' ++ [])) hprimary₁ hprimary₂
    rwa [hprimary] at hkeys
  · rw [hsum]
    exact congrArg₂ (fun m n => m + (n + 0)) hfolding₁ hfolding₂

/-- The limit of a primary key is ignored without a warning. -/
theorem schemaWarnings_misses_primary_limit :
    let sql := ascii "CREATE TABLE t (a varchar(200), PRIMARY KEY (a(10)))"
    (TableDef.ofStatement? sql).map (dueKeyWarnings sql)
        = some [.ignoredLimit (ascii "t") (ascii "PRIMARY") ⟨ascii "a", ascii "10"⟩ true]
      ∧ (TableDef.ofStatement? sql).map (fun t => schemaWarnings [t]) = some [] := by
  repeat rw [ascii_ofList]
  decide +kernel

end SqlDialect
