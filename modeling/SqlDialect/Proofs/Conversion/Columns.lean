import SqlDialect.Proofs.Conversion.Report
import SqlDialect.Proofs.Table.Backing
import SqlDialect.Proofs.Table.ReadColumn

set_option autoImplicit false

/-! # No column is lost

A table definition and the report on it have the columns of the items, in their order. A column that
is written with its name in backticks is one item of the body, and it is read as that column unless its
name opens a key or a constraint (`WrittenColumn.ReadAsColumn`). So the report has the column at its
place, and the output holds its definition, whatever stands around it. -/

namespace SqlDialect

open Bytes

/-! ## The columns of a table -/

/-- The column that an item is. -/
def TableItem.column? : TableItem → Option Column
  | column col => some col
  | _ => none

theorem TableItem.columns_addTo (lits : LiteralTable) (d : TableDef) (item : TableItem) :
    (item.addTo lits d).columns = d.columns ++ item.column?.toList := by
  cases item with
  | primaryKey parts rendered => exact (List.append_nil _).symm
  | index key rendered =>
    rw [addTo]
    split <;> exact (List.append_nil _).symm
  | column col =>
    rw [addTo]
    dsimp only
    split
    · rfl
    · split <;> rfl
  | verbatim text => exact (List.append_nil _).symm

/-- The columns of a definition come from its items. -/
theorem columns_createTable? {s : Bytes} {lits : LiteralTable} {opts : TypeOptions}
    {t : CreatedTable} (ht : createTable? s lits opts = some t) :
    t.definition.columns
      = (tableItems s).filterMap fun item => (TableItem.ofText lits opts item).column? :=
  collected_createTable? (TableItem.columns_addTo lits) (fun _ => rfl) (fun _ _ => rfl) ht

/-- The column with the literals in its default and its attributes. -/
def Column.restored (lits : LiteralTable) (col : Column) : Column :=
  { col with
    defaultValue := restore col.defaultValue lits
    attrs := restore col.attrs lits }

/-- The columns that a report has for items as they are written. -/
def reportedColumns (lits : LiteralTable) (items : List Bytes) : List Column :=
  (items.flatMap fun item => bodyItems (replaceBackticks item)).filterMap fun item =>
    (TableItem.ofText lits {} item).column?.map (Column.restored lits)

/-- The report on a table has the columns of its items. -/
theorem TableParts.exists_report {sql head tail : Bytes} {items : List Bytes}
    (h : TableParts sql head items tail) :
    ∃ d, TableDef.ofStatement? sql = some d ∧ d.columns = reportedColumns (shield sql).2 items := by
  obtain ⟨t, ht⟩ := h.exists_createTable? {}
  have hcreated : createdTable? {} sql = some t := by rw [createdTable?, if_pos h.kind, ht]
  refine ⟨_, by rw [TableDef.ofStatement?_eq, hcreated, Option.map_some], ?_⟩
  show t.definition.columns.map (Column.restored (shield sql).2) = _
  rw [columns_createTable? ht, h.tableItems, reportedColumns, List.map_filterMap]

namespace WrittenColumn

/-- The report on a written column is the column. -/
theorem reportedColumns_text {w : WrittenColumn} (h : w.ReadAsColumn) (lits : LiteralTable)
    (before after : List Bytes) : reportedColumns lits (before ++ w.text :: after)
      = reportedColumns lits before ++ w.column {} :: reportedColumns lits after := by
  have hrestored : (w.column {}).restored lits = w.column {} := by
    have hattrs : (w.column {}).attrs = [] := by
      rw [column, Column.enumConstraint_unasked]
      rfl
    rw [Column.restored, hattrs]
    rfl
  simp only [reportedColumns, List.flatMap_append, List.flatMap_cons, w.bodyItems_text,
    List.filterMap_append, List.singleton_append, List.filterMap_cons, ofText_core h,
    TableItem.column?, Option.map_some, hrestored]

end WrittenColumn

/-! ## The output -/

namespace Converter

variable {κ : Type} [Cache κ]

/-- What stays of an item stands in the body of the converted definition, with its literals. -/
theorem holdsItem_convert (c : Converter κ) (session : Option Session) {sql head tail : Bytes}
    {items : List Bytes} (h : TableParts sql head items tail) {item kept : Bytes}
    (hitem : item ∈ tableItems (replaceBackticks (shield sql).1))
    (hkept : (TableItem.ofText (shield sql).2 c.options item).kept? c.options = some kept) :
    ∃ front table body, (c.convert session sql).output
        = front ++ ascii " TABLE IF NOT EXISTS " ++ table ++ ascii " (" ++ body ∧
      HoldsItem body (restore kept (shield sql).2) := by
  obtain ⟨m, hm, -⟩ := h.exists_body
  obtain ⟨t, ht⟩ := h.exists_createTable? c.options
  obtain ⟨front, body, htext, hbody⟩ := holdsItem_of_createTable? hm ht
  have htable : Fence (ascii " TABLE IF NOT EXISTS ") :=
    ⟨32, ascii "TABLE IF NOT EXISTS", 32, by decide⟩
  have hopen : Fence (ascii " (") := ⟨32, [], 40, by decide⟩
  refine ⟨restore front (shield sql).2, restore (normalizeName (m.group 3)) (shield sql).2,
    restore body (shield sql).2, ?_, (hbody item hitem kept hkept).restore _⟩
  rw [c.output_convert_createTable session h.kind, createdTable?, if_pos h.kind, ht,
    Option.map_some, Option.getD_some, htext, hopen.restore_append, htable.restore_append]

/-- **No column is lost.** In a table definition, between any items whose names and parentheses are
closed, a column that is written with its name in backticks, a type of letters and perhaps a list of
numbers, and whose name opens no key and no constraint, is an item that is read as the column. The
report has it at its place. And for every converter and session the output is a definition of the
table whose body holds the column as it is rendered, if no placeholder stands in its name. -/
theorem columns_kept (c : Converter κ) (session : Option Session) {sql head tail : Bytes}
    {before after : List Bytes} {w : WrittenColumn}
    (h : TableParts sql head (before ++ w.text :: after) tail) (hread : w.ReadAsColumn)
    (hname : containsText w.name marker = false) :
    (w.core ∈ tableItems (replaceBackticks (shield sql).1) ∧
      ∀ opts, TableItem.ofText (shield sql).2 opts w.core = .column (w.column opts)) ∧
    (∃ d, TableDef.ofStatement? sql = some d ∧
      d.columns = reportedColumns (shield sql).2 before ++
        w.column {} :: reportedColumns (shield sql).2 after) ∧
    ∃ front table body, (c.convert session sql).output
        = front ++ ascii " TABLE IF NOT EXISTS " ++ table ++ ascii " (" ++ body ∧
      HoldsItem body ((w.column c.options).render c.options) := by
  have hcore : w.core ∈ tableItems (replaceBackticks (shield sql).1) := by
    rw [h.tableItems, List.flatMap_append, List.flatMap_cons, w.bodyItems_text]
    simp
  refine ⟨⟨hcore, fun opts => WrittenColumn.ofText_core hread _ opts⟩, ?_, ?_⟩
  · obtain ⟨d, hd, hcolumns⟩ := h.exists_report
    exact ⟨d, hd, hcolumns.trans (WrittenColumn.reportedColumns_text hread _ before after)⟩
  · have hkept : (TableItem.ofText (shield sql).2 c.options w.core).kept? c.options
        = some ((w.column c.options).render c.options) := by
      rw [WrittenColumn.ofText_core hread]
      rfl
    obtain ⟨front, table, body, hout, hheld⟩ := c.holdsItem_convert session h hcore hkept
    rw [w.restore_render hname] at hheld
    exact ⟨front, table, body, hout, hheld⟩

/-- A column `key` in front of a key. -/
theorem columns_kept_reserved :
    let sql := ascii "CREATE TABLE t (a int, `key` decimal(9, 2), KEY k (a))"
    (∃ d, TableDef.ofStatement? sql = some d ∧
      d.columns = [{ name := ascii "a", dataType := ascii "int" },
        { name := ascii "\"key\"", dataType := ascii "decimal", args := ascii "9, 2" }]) ∧
    ∃ front table body, (({} : Converter).convert none sql).output
        = front ++ ascii " TABLE IF NOT EXISTS " ++ table ++ ascii " (" ++ body ∧
      HoldsItem body (ascii "\"key\" numeric(9,2)") := by
  intro sql
  have hchars : sql = _ := ascii_ofList _
  let w : WrittenColumn :=
    { lead := [32], name := ascii "key", gap := [32], type := ascii "decimal"
      numbers := some (ascii "9, 2"), trail := []
      lead_blank := by decide, name_bare := by decide, gap_ne := by decide
      gap_blank := by decide
      type_ne := by decide, type_letter := by decide, numbers_byte := by decide
      trail_blank := by decide }
  have hbalanced : ∀ part ∈ [ascii "a int", ascii " KEY k (a)"], ClosedItem part := by
    intro part hpart
    simp only [List.mem_cons, List.not_mem_nil, or_false] at hpart
    rcases hpart with rfl | rfl <;> exact ⟨by decide, by decide +kernel⟩
  have hparts : TableParts sql (ascii "CREATE TABLE t ")
      ([ascii "a int"] ++ w.text :: [ascii " KEY k (a)"]) [] :=
    { kind := by
        rw [hchars]
        decide +kernel
      text := by
        rw [hchars]
        decide +kernel
      head := ⟨by decide, by decide +kernel, by decide +kernel⟩
      items_ne := by decide
      closed := by
        intro part hpart
        rcases List.mem_append.1 hpart with hpart | hpart
        · exact hbalanced part (List.mem_append_left [ascii " KEY k (a)"] hpart)
        rcases List.mem_cons.1 hpart with rfl | hpart
        · exact w.closed
        · exact hbalanced part (List.mem_append_right [ascii "a int"] hpart) }
  obtain ⟨-, ⟨d, hd, hcolumns⟩, hout⟩ := columns_kept ({} : Converter) none hparts (by decide +kernel) (by decide)
  have hbefore : reportedColumns (shield sql).2 [ascii "a int"]
      = [{ name := ascii "a", dataType := ascii "int" }] := by decide +kernel
  have hafter : reportedColumns (shield sql).2 [ascii " KEY k (a)"] = [] := by decide +kernel
  have hcolumn : w.column {}
      = { name := ascii "\"key\"", dataType := ascii "decimal", args := ascii "9, 2" } := by
    decide +kernel
  have hrender : (w.column {}).render {} = ascii "\"key\" numeric(9,2)" := by decide +kernel
  rw [hbefore, hafter, hcolumn] at hcolumns
  exact ⟨⟨d, hd, hcolumns⟩, hrender ▸ hout⟩

/-- The reserved words do not know `FULLTEXT`: a column of this name with a list of numbers is dropped
as a key. -/
theorem columns_lose_fulltext :
    let sql := ascii "CREATE TABLE t (`fulltext` varchar(10), b int)"
    (TableDef.ofStatement? sql).map (fun d => d.columns.map Column.name) = some [ascii "b"] ∧
      (({} : Converter).convert none sql).output = ascii "CREATE TABLE IF NOT EXISTS t ( b int);" := by
  repeat rw [ascii_ofList]
  decide +kernel

end Converter

end SqlDialect
