import SqlDialect.Table.Alter
import SqlDialect.Table.Create

set_option autoImplicit false

/-! # The items of a table definition

A table definition says what its items say one after the other, under the name of the table. In the
same way an ALTER TABLE statement does what its specifications do. -/

namespace SqlDialect

open Bytes

/-- The items in the body of a table definition as they are written. -/
def bodyItems (body : Bytes) : List Bytes :=
  ((items body).map Spaced.core).filter fun item => !item.isEmpty

/-- The items of a table definition as they are written. -/
def tableItems (s : Bytes) : List Bytes :=
  (((createTablePattern.find? s).bind fun m => splitParen? m.after).map fun parts =>
    bodyItems parts.1).getD []

/-- What a table definition says is what its items say one after the other. -/
theorem definition_createTable? (s : Bytes) (lits : LiteralTable) (opts : TypeOptions) :
    (createTable? s lits opts).map CreatedTable.definition
      = (createTablePattern.find? s).bind fun m => (splitParen? m.after).map fun parts =>
        { ((bodyItems parts.1).map (TableItem.ofText lits opts)).foldl (TableItem.addTo lits)
            { name := normalizeName (m.group 3) } with
          collation := ((Column.collatePattern.find? parts.2).map (·.group 1)).getD [] } := by
  simp only [createTable?]
  cases createTablePattern.find? s with
  | none => rfl
  | some m =>
    simp only [Option.bind_eq_bind, Option.bind_some]
    cases splitParen? m.after with
    | none => rfl
    | some parts =>
      simp only [Option.bind_some, Option.map_some, bodyItems, List.map_map, List.filter_map]
      rfl

theorem TableItem.name_addTo (lits : LiteralTable) (d : TableDef) (item : TableItem) :
    (item.addTo lits d).name = d.name := by
  cases item with
  | primaryKey parts rendered => rfl
  | index key rendered =>
    simp only [addTo]
    split <;> rfl
  | column col =>
    simp only [addTo]
    split
    · rfl
    · split <;> rfl
  | verbatim text => rfl

theorem TableItem.name_foldl_addTo (lits : LiteralTable) (read : List TableItem) (d : TableDef) :
    (read.foldl (addTo lits) d).name = d.name := by
  induction read generalizing d with
  | nil => rfl
  | cons item read ih => rw [List.foldl_cons, ih, name_addTo]

/-- A table has the name of the statement, as it appears in the output. -/
theorem name_createTable? {s : Bytes} {lits : LiteralTable} {opts : TypeOptions} {m : Match}
    {t : CreatedTable} (hm : createTablePattern.find? s = some m)
    (ht : createTable? s lits opts = some t) :
    t.definition.name = normalizeName (m.group 3) := by
  have hdef := definition_createTable? s lits opts
  rw [ht, hm, Option.map_some, Option.bind_some, eq_comm, Option.map_eq_some_iff] at hdef
  obtain ⟨parts, -, hdef⟩ := hdef
  rw [← hdef]
  exact TableItem.name_foldl_addTo lits _ _

/-! ## What is collected from the items -/

/-- What is collected from each item by itself is collected from all in order. -/
theorem TableItem.foldl_addTo {α : Type} {lits : LiteralTable} {f : TableDef → List α}
    {g : TableItem → Option α}
    (hstep : ∀ d item, f (addTo lits d item) = f d ++ (g item).toList) (read : List TableItem)
    (d : TableDef) : f (read.foldl (addTo lits) d) = f d ++ read.filterMap g := by
  induction read generalizing d with
  | nil => exact (List.append_nil _).symm
  | cons item read ih =>
    rw [List.foldl_cons, ih, hstep, List.append_assoc]
    cases h : g item with
    | none => rw [List.filterMap_cons_none h]; rfl
    | some a => rw [List.filterMap_cons_some h]; rfl

variable {s : Bytes} {lits : LiteralTable} {opts : TypeOptions} {t : CreatedTable}

theorem tableItems_of_splitParen? {m : Match} {parts : Bytes × Bytes}
    (hm : createTablePattern.find? s = some m) (hparts : splitParen? m.after = some parts) :
    tableItems s = bodyItems parts.1 := by
  rw [tableItems, hm, Option.bind_some, hparts]
  rfl

/-- A converted definition comes from a statement with a body. -/
theorem exists_body_of_createTable? (ht : createTable? s lits opts = some t) :
    ∃ m parts, createTablePattern.find? s = some m ∧ splitParen? m.after = some parts := by
  rw [createTable?, Option.bind_eq_bind, Option.bind_eq_some_iff] at ht
  obtain ⟨m, hm, ht⟩ := ht
  rw [Option.bind_eq_bind, Option.bind_eq_some_iff] at ht
  obtain ⟨parts, hparts, -⟩ := ht
  exact ⟨m, parts, hm, hparts⟩

/-- What a definition has collected comes from the items of the statement. -/
theorem collected_createTable? {α : Type} {f : TableDef → List α} {g : TableItem → Option α}
    (hstep : ∀ d item, f (TableItem.addTo lits d item) = f d ++ (g item).toList)
    (hnone : ∀ name, f { name } = [])
    (hcollation : ∀ d collation, f { d with collation } = f d)
    (ht : createTable? s lits opts = some t) :
    f t.definition = (tableItems s).filterMap fun item => g (TableItem.ofText lits opts item) := by
  obtain ⟨m, parts, hm, hparts⟩ := exists_body_of_createTable? ht
  have hdef := definition_createTable? s lits opts
  rw [ht, hm, Option.map_some, Option.bind_some, hparts, Option.map_some, Option.some.injEq] at hdef
  rw [hdef, tableItems_of_splitParen? hm hparts, hcollation, TableItem.foldl_addTo hstep, hnone,
    List.nil_append, List.filterMap_map]
  rfl

/-! ## Specifications -/

/-- The effects of the specifications of an ALTER TABLE statement, by the match of its head. -/
def alterEffects (m : Match) (lits : LiteralTable) (opts : TypeOptions) : List AlterEffect :=
  (((items (trimStatementEnd m.after).1).map Spaced.core).filter fun spec => !spec.isEmpty).map
    (AlterEffect.ofSpec
      ⟨normalizeName (m.group 2), bareName (lastSegment (normalizeName (m.group 2))) lits⟩ lits opts)

/-- An ALTER TABLE statement registers the keys of its effects. -/
theorem snd_alterTable {s : Bytes} {m : Match} (hm : alterTablePattern.find? s = some m)
    (lits : LiteralTable) (opts : TypeOptions) (c : KeyCatalog) :
    (alterTable s lits opts c).2 = ((alterEffects m lits opts).filterMap AlterEffect.key).foldl
      (fun c key => c.register (bareName (lastSegment (normalizeName (m.group 2))) lits) key) c := by
  simp only [alterTable, hm]
  split <;> rfl

end SqlDialect
