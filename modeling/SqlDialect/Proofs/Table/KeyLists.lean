import Mathlib.Data.List.Forall2
import SqlDialect.Proofs.Identifier.TableName
import SqlDialect.Proofs.Pattern.Spelling
import SqlDialect.Proofs.Statement.Comments
import SqlDialect.Table.Index

set_option autoImplicit false

/-! # The columns of a key

The columns of a key are noted by their names, and they are listed once more in the statement that
creates the index, where each may have a direction behind it. Both come from the same items, one by
one. So where each item of the list is a column (`IsColumn`), the list in the output names the
columns that are noted, in their order (`listsColumns_rendered`). -/

namespace SqlDialect

open Bytes

/-! ## Column names -/

namespace NameSegment

/-- The column that a segment means, as the catalog knows it. -/
def column (g : NameSegment) : Bytes :=
  KeyCatalog.unquoteName g.inside

variable {lits : LiteralTable} {g : NameSegment} {s : Bytes}

/-- The output names the same column. -/
theorem Written.normalizeName (h : g.Written lits s) :
    ∃ g' : NameSegment, g'.Written lits (normalizeName s) ∧ g'.column = g.column := by
  cases g with
  | bare word =>
    -- a bare word may get quotes, and between them it may be in lower case
    obtain ⟨rfl, hw, hplain⟩ := h
    rw [normalizeName_of_nameWord hw hplain]
    rcases rendersWord_quoteIdent hw with heq | ⟨v, heq, hv, hlower⟩
    · rw [heq]
      exact ⟨.bare s, ⟨rfl, hw, hplain⟩, rfl⟩
    · have hinside : replaceAll [doubleQuote] [doubleQuote, doubleQuote] v = v :=
        replaceAll_of_notMem hv.quote_notMem
      refine ⟨.quoted v, ?_, ?_⟩
      · rw [heq, Written, doubleQuoted, hinside]
      · rw [column, column, inside, inside, hinside, KeyCatalog.unquoteName_of_nameWord hv,
          KeyCatalog.unquoteName_of_nameWord hw.map_lowerByte, map_lowerByte_idem, hlower]
  | quoted name =>
    obtain rfl := h
    rw [normalizeName_of_quoted rfl]
    exact ⟨.quoted name, rfl, rfl⟩
  | literal body =>
    rw [normalizeName_of_isPlaceholder h.isPlaceholder]
    exact ⟨.literal body, h, rfl⟩

end NameSegment

/-! ## The items of a list of columns -/

/-- The item is a column: its name, perhaps with a length limit and a direction. -/
def IsColumn (lits : LiteralTable) (item : Bytes) : Prop :=
  ∃ m ∈ keyPartPattern.find? item, ∃ g : NameSegment, g.Written lits (m.group 1)

/-- The item names the column, by itself or with a direction behind it. -/
def NamesColumn (lits : LiteralTable) (item column : Bytes) : Prop :=
  ∃ (g : NameSegment) (name direction : Bytes), item = name ++ direction ∧
    g.Written lits name ∧ g.column = column ∧ direction ∈ [[], ascii " ASC", ascii " DESC"]

/-- The items of the list name the columns one by one. -/
def ListsColumns (lits : LiteralTable) (list : Bytes) (columns : List Bytes) : Prop :=
  ∃ ps : List Spaced, list = ofItems ps ∧
    List.Forall₂ (fun p column => AllBlank p.lead ∧ AllBlank p.trail ∧
      NamesColumn lits p.core column) ps columns

/-- A direction is one of two words, however it is spelled. -/
theorem direction_of_keyPart {item d : Bytes} {m : Match}
    (hm : keyPartPattern.find? item = some m) (hd : m.group? 3 = some d) :
    toUpper d = ascii "ASC" ∨ toUpper d = ascii "DESC" := by
  obtain ⟨q, hq, c, c', hleads, htakes⟩ := Pattern.leads_of_group? hm hd
  obtain rfl : q = .keywords ["ASC", "DESC"] := List.mem_singleton.1 hq
  obtain ⟨word, hword, hkey⟩ := Pattern.leads_keywords (by decide) hleads
  have hcapital : ∀ word ∈ ["ASC", "DESC"], Pattern.OneCapital word ∧
      (toUpper (ascii word) = ascii "ASC" ∨ toUpper (ascii word) = ascii "DESC") := by
    decide +kernel
  obtain ⟨hone, hupper⟩ := hcapital word hword
  obtain ⟨t, ht, htoUpper⟩ := Pattern.toUpper_of_leads_keyword hone hkey
  rwa [htakes.unique ht, htoUpper]

namespace KeyColumns

variable {lits : LiteralTable}

/-- A column is noted under the name that it has in the output. -/
theorem namesColumn_renderPart {item : Bytes} (h : IsColumn lits item) :
    ∃ part, part? lits item = some part ∧
      NamesColumn lits (renderPart item) (KeyCatalog.unquoteName part.name) := by
  obtain ⟨m, hm, g, hg⟩ := h
  obtain ⟨g', hg', hcolumn⟩ := hg.normalizeName
  refine ⟨⟨bareName (m.group 1) lits, m.group 2⟩, by rw [part?, Option.mem_def.1 hm]; rfl, ?_⟩
  rw [renderPart, Option.mem_def.1 hm, hg.bareName]
  refine ⟨g', _, _, rfl, hg', hcolumn, ?_⟩
  -- the direction is what the third group has taken, in capitals
  cases hd : m.group? 3 with
  | none => exact List.mem_cons_self
  | some d =>
    show ascii " " ++ toUpper d ∈ _
    rcases direction_of_keyPart hm hd with h | h
    · rw [h]
      decide
    · rw [h]
      decide

end KeyColumns

/-! ## Lists -/

/-- Around an item there are blanks only. -/
theorem Spaced.allBlank_ofText (s : Bytes) :
    AllBlank (Spaced.ofText s).lead ∧ AllBlank (Spaced.ofText s).trail := by
  refine ⟨fun b hb => blank_of_isBlank ?_, fun b hb => blank_of_isBlank ?_⟩
  · exact List.all_eq_true.1 List.all_takeWhile b hb
  · exact of_mem_drop_dropTailWhile hb

/-- A list of columns in the output names the columns that are noted. -/
theorem KeyColumns.listsColumns_rendered {lits : LiteralTable} {list : Bytes}
    (h : ∀ p ∈ items list, IsColumn lits p.core) :
    ListsColumns lits (mapItems renderPart list)
      (((items list).filterMap fun p => part? lits p.core).map fun part =>
        KeyCatalog.unquoteName part.name) := by
  refine ⟨_, rfl, ?_⟩
  have hblank : ∀ p ∈ items list, AllBlank p.lead ∧ AllBlank p.trail := by
    intro p hp
    obtain ⟨s, -, rfl⟩ := List.mem_map.1 hp
    exact Spaced.allBlank_ofText s
  generalize items list = ps at h hblank
  induction ps with
  | nil => exact .nil
  | cons p ps ih =>
    obtain ⟨hp, hps⟩ := List.forall_mem_cons.1 h
    obtain ⟨hpblank, hpsblank⟩ := List.forall_mem_cons.1 hblank
    obtain ⟨part, hpart, hnames⟩ := namesColumn_renderPart hp
    rw [List.filterMap_cons, hpart, List.map_cons, List.map_cons]
    exact .cons ⟨hpblank.1, hpblank.2, hnames⟩ (ih hps hpsblank)

end SqlDialect
