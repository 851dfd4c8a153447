import SqlDialect.Proofs.Conversion.IndexNames
import SqlDialect.Proofs.Table.Options

set_option autoImplicit false

/-! # The report and the converted table

A table definition can be read without converting it, for a report on the table. Report and
conversion read it in the same way, but the report with the plain options. They take the same
statements, and the keys that the conversion puts into the catalog are those of the report, as long as
the options of the converter keep the keys of the table's items. -/

namespace SqlDialect

open Bytes

/-- The table that a statement defines, where it is a table definition that can be read. -/
def createdTable? (opts : TypeOptions) (sql : Bytes) : Option CreatedTable :=
  if Kind.ofStatement sql = .createTable then
    createTable? (replaceBackticks (shield sql).1) (shield sql).2 opts
  else none

/-- The options bring no key into any item of the table that a statement defines. -/
def KeysKept (opts : TypeOptions) (sql : Bytes) : Prop :=
  ∀ item ∈ tableItems (replaceBackticks (shield sql).1),
    TableItem.KeysKept opts (shield sql).2 item

instance (opts : TypeOptions) (sql : Bytes) : Decidable (KeysKept opts sql) :=
  inferInstanceAs (Decidable (∀ item ∈ tableItems _, _))

theorem isSome_createdTable? (opts : TypeOptions) (sql : Bytes) :
    (createdTable? opts sql).isSome = (createdTable? {} sql).isSome := by
  rw [createdTable?, createdTable?]
  split
  · exact isSome_createTable? _ _ _
  · rfl

/-- The report is the table read with the plain options, with the literals of its columns. -/
theorem TableDef.ofStatement?_eq (sql : Bytes) :
    TableDef.ofStatement? sql = (createdTable? {} sql).map fun t =>
      { t.definition with
        columns := t.definition.columns.map fun col =>
          { col with
            defaultValue := restore col.defaultValue (shield sql).2
            attrs := restore col.attrs (shield sql).2 } } := by
  rw [TableDef.ofStatement?, createdTable?]
  show (if Kind.ofStatement sql = .createTable then _ else none) = _
  split <;> rfl

/-- Under options that keep the keys the table has the keys of the report. -/
theorem sameKeys_createdTable? {opts : TypeOptions} {sql : Bytes} (h : KeysKept opts sql)
    {d : TableDef} (hd : TableDef.ofStatement? sql = some d) :
    ∃ t, createdTable? opts sql = some t ∧ t.definition.SameKeys d := by
  rw [TableDef.ofStatement?_eq] at hd
  obtain ⟨plain, hplain, rfl⟩ := Option.map_eq_some_iff.1 hd
  have hsome : (createdTable? opts sql).isSome = true := by
    rw [isSome_createdTable?, hplain]
    rfl
  obtain ⟨t, ht⟩ := Option.isSome_iff_exists.1 hsome
  refine ⟨t, ht, ?_⟩
  rw [createdTable?] at ht hplain
  split at ht
  · rename_i hkind
    rw [if_pos hkind] at hplain
    have hsame := sameKeys_createTable? h ht hplain
    exact ⟨hsame.name, hsame.primaryKey, hsame.keys⟩
  · cases ht

namespace Converter

variable {κ : Type} [Cache κ]

variable (c : Converter κ) (session : Option Session) {sql : Bytes}

/-- A table definition becomes the converted table; where it cannot be read, it loses its backticks
only. -/
theorem output_convert_createTable (hk : Kind.ofStatement sql = .createTable) :
    (c.convert session sql).output
      = restore (((createdTable? c.options sql).map CreatedTable.text).getD
          (replaceBackticks (shield sql).1)) (shield sql).2 := by
  rw [c.output_createTable session hk, Draft.text_createTable, createdTable?, if_pos hk]
  rfl

/-- A table definition puts the keys of the table into the catalog. -/
theorem catalog_convert_createdTable {t : CreatedTable}
    (ht : createdTable? c.options sql = some t) :
    (c.convert session sql).converter.catalog
      = c.catalog.setTable (bareName t.definition.name (shield sql).2) t.definition.uniqueKeys := by
  rw [createdTable?] at ht
  split at ht
  · rename_i hk
    have hplain : Kind.ofStatement sql ∉ plainKinds := by
      rw [hk]
      decide
    have hkind : ((c.draft sql).mapText replaceBackticks).kind = .createTable := hk
    have hcreate : createTable? ((c.draft sql).mapText replaceBackticks).text
        ((c.draft sql).mapText replaceBackticks).literals
        ((c.draft sql).mapText replaceBackticks).options = some t := ht
    rw [c.catalog_convert session hplain]
    simp only [Draft.define, hkind, Draft.createTable, hcreate]
    rfl
  · cases ht

/-- **Report and conversion describe the same table.** For every converter, session and statement: the
report can be made exactly where the statement is converted as a table definition. What the
conversion puts out is then the converted table. And where the options bring no key into the table,
the table has the name and the keys of the report, and these keys are what the catalog knows about
the table from then on. -/
theorem convert_agrees_with_report (sql : Bytes) :
    ((TableDef.ofStatement? sql).isSome ↔ (createdTable? c.options sql).isSome) ∧
    (Kind.ofStatement sql = .createTable → (c.convert session sql).output
      = restore (((createdTable? c.options sql).map CreatedTable.text).getD
          (replaceBackticks (shield sql).1)) (shield sql).2) ∧
    (KeysKept c.options sql → ∀ d, TableDef.ofStatement? sql = some d →
      (∃ t, createdTable? c.options sql = some t ∧ t.definition.SameKeys d) ∧
      (c.convert session sql).converter.catalog
        = c.catalog.setTable (bareName d.name (shield sql).2) d.uniqueKeys) := by
  refine ⟨?_, c.output_convert_createTable session, fun hkept d hd => ?_⟩
  · rw [TableDef.ofStatement?_eq, Option.isSome_map, isSome_createdTable? c.options]
  · obtain ⟨t, ht, hsame⟩ := sameKeys_createdTable? hkept hd
    refine ⟨⟨t, ht, hsame⟩, ?_⟩
    rw [c.catalog_convert_createdTable session ht, hsame.name, hsame.uniqueKeys]

/-- With all options on, a table of an enumeration, a truth value with a default and a key of its own,
and a document. -/
theorem convert_agrees_with_report_enum :
    let c : Converter := { options := ⟨true, true, true⟩ }
    let sql := ascii "CREATE TABLE s.t (id int, e enum('a','b'), b tinyint(1) DEFAULT '1' UNIQUE, " ++
      ascii "j json, PRIMARY KEY (id, e), KEY k (j))"
    KeysKept c.options sql ∧ ∃ d, TableDef.ofStatement? sql = some d ∧
      d.uniqueKeys
        = [⟨ascii "PRIMARY", [ascii "id", ascii "e"], true⟩, ⟨ascii "b", [ascii "b"], false⟩] ∧
      (c.convert none sql).converter.catalog
        = c.catalog.setTable (bareName d.name (shield sql).2) d.uniqueKeys := by
  intro c sql
  obtain ⟨hkept, hkeys⟩ : KeysKept c.options sql ∧ (TableDef.ofStatement? sql).map TableDef.uniqueKeys
      = some [⟨ascii "PRIMARY", [ascii "id", ascii "e"], true⟩, ⟨ascii "b", [ascii "b"], false⟩] := by
    simp only [c, sql]
    repeat rw [ascii_ofList]
    decide +kernel
  obtain ⟨d, hd, hunique⟩ := Option.map_eq_some_iff.1 hkeys
  exact ⟨hkept, d, hd, hunique, ((c.convert_agrees_with_report none sql).2.2 hkept d hd).2⟩

/-- The constraint for an enumeration repeats the name of its column, and a truth value takes the place
of whatever stands behind a second DEFAULT: a column called UNIQUE becomes a key that the report does
not have, and one that is unique behind a second default is none any more. -/
theorem convert_differs_from_report :
    let enum := ascii "CREATE TABLE t (`unique` enum('a','b'))"
    let bool := ascii "CREATE TABLE t (a tinyint(1) DEFAULT 1 DEFAULT UNIQUE)"
    (TableDef.ofStatement? enum).map TableDef.uniqueKeys = some [] ∧
    ((({ options := { enumCheck := true } } : Converter).convert none enum).converter.catalog.keys
      (ascii "t")) = [⟨ascii "unique", [ascii "unique"], false⟩] ∧
    (TableDef.ofStatement? bool).map TableDef.uniqueKeys
      = some [⟨ascii "a", [ascii "a"], false⟩] ∧
    ((({ options := { tinyInt1AsBoolean := true } } : Converter).convert none bool).converter.catalog.keys
      (ascii "t")) = [] := by
  repeat rw [ascii_ofList]
  decide +kernel

end Converter

end SqlDialect
