import SqlDialect.Catalog.Basic
import SqlDialect.Proofs.Checked.Access

set_option autoImplicit false

/-! # The key catalog by place

The names of tables and columns are stripped of their quotes, and lists of columns compared, by
place. -/

namespace SqlDialect.Checked

/-! ## Names -/

/-- A name without surrounding space and quotes, in lower case. -/
def unquoteName (name : Bytes) : Except Fault Bytes := do
  let name := Bytes.trimSpace name
  if 2 ≤ name.length then
    let first ← elementAt name 0
    let last ← elementAt name ((name.length : Int) - 1)
    if first = 34 ∧ last = 34 ∨ first = 96 ∧ last = 96 then
      let inner ← slice name 1 ((name.length : Int) - 1)
      return Bytes.toLower inner
    else return Bytes.toLower name
  else return Bytes.toLower name

theorem unquoteName_ok (name : Bytes) : unquoteName name = .ok (KeyCatalog.unquoteName name) := by
  rw [unquoteName, KeyCatalog.unquoteName]
  generalize Bytes.trimSpace name = s
  dsimp only
  by_cases hlen : 2 ≤ s.length
  · obtain ⟨a, inner, z, rfl, hlast, hinner⟩ := exists_between_ends hlen
    have hget : (a :: (inner ++ [z])).getLast? = some z := by
      rw [← List.cons_append, List.getLast?_concat]
    rw [if_pos hlen, elementAt_cons, ok_bind, hlast, ok_bind, hinner, hget]
    have hbool : (decide (2 ≤ (a :: (inner ++ [z])).length) && some a == some 34 &&
          some z == some 34
        || decide (2 ≤ (a :: (inner ++ [z])).length) && some a == some 96 && some z == some 96)
        = decide (a = 34 ∧ z = 34 ∨ a = 96 ∧ z = 96) := by
      rw [Bool.eq_iff_iff]
      simp
    rw [List.head?_cons, hbool]
    by_cases hquoted : a = 34 ∧ z = 34 ∨ a = 96 ∧ z = 96
    · rw [if_pos hquoted, if_pos (decide_eq_true hquoted)]
      simp
    · rw [if_neg hquoted, if_neg (by simpa using hquoted)]
      rfl
  · rw [if_neg hlen]
    simp [hlen]

/-- The catalog name of a possibly qualified and quoted table name. -/
def catalogName (table : Bytes) : Except Fault Bytes :=
  match Bytes.lastPlaceOf? 46 table with
  | none => unquoteName table
  | some i => do
    let table ← sliceFrom table ((i + 1 : Nat) : Int)
    unquoteName table

theorem eq_append_of_cutLast? {sep : UInt8} {s before after : Bytes}
    (h : Bytes.cutLast? sep s = some (before, after)) : s = before ++ sep :: after := by
  induction s generalizing before with
  | nil => cases h
  | cons b s ih =>
    rw [Bytes.cutLast?] at h
    cases hcut : Bytes.cutLast? sep s with
    | none =>
      rw [hcut] at h
      dsimp only at h
      split at h
      · rename_i hb
        obtain ⟨rfl, rfl⟩ := Prod.mk.inj (Option.some.inj h)
        rw [hb]
        rfl
      · cases h
    | some parts =>
      obtain ⟨lead, rest⟩ := parts
      rw [hcut] at h
      obtain ⟨rfl, rfl⟩ := Prod.mk.inj (Option.some.inj h)
      rw [ih hcut]
      rfl

theorem catalogName_ok (table : Bytes) : catalogName table = .ok (KeyCatalog.tableName table) := by
  rw [catalogName, KeyCatalog.tableName, Bytes.lastPlaceOf?]
  cases hcut : Bytes.cutLast? 46 table with
  | none => exact unquoteName_ok table
  | some parts =>
    obtain ⟨before, after⟩ := parts
    have hafter : sliceFrom table ((before.length + 1 : Nat) : Int) = .ok after :=
      sliceFrom_eq (a := before ++ [46]) (by rw [eq_append_of_cutLast? hcut]; simp) (by simp)
    dsimp only [Option.map_some]
    rw [hafter, ok_bind]
    exact unquoteName_ok after

/-- Columns in catalog form. -/
def normalizeColumns (columns : List Bytes) : Except Fault (List Bytes) :=
  writeEach [] unquoteName columns

theorem normalizeColumns_ok (columns : List Bytes) :
    normalizeColumns columns = .ok (columns.map KeyCatalog.unquoteName) :=
  writeEach_ok [] fun column _ => unquoteName_ok column

/-- Whether two lists hold the same elements from a place on, up to the end of the first one. -/
def sameFrom (a b : List Bytes) (i : Nat) : Except Fault Bool :=
  if i < a.length then do
    let x ← elementAt a i
    let y ← elementAt b i
    if x ≠ y then return false else sameFrom a b (i + 1)
  else return true
termination_by a.length - i

/-- Whether two lists hold the same columns. -/
def sameColumns (a b : List Bytes) : Except Fault Bool :=
  if a.length ≠ b.length then return false else sameFrom a b 0

theorem sameColumns_ok (a b : List Bytes) : sameColumns a b = .ok (a == b) := by
  have hfrom : ∀ a b c d : List Bytes, c.length = d.length → a.length = b.length →
      sameFrom (a ++ c) (b ++ d) a.length = .ok (c == d) := by
    intro a b c
    induction c generalizing a b with
    | nil =>
      intro d hcd hab
      obtain rfl := List.length_eq_zero_iff.1 hcd.symm
      rw [sameFrom, if_neg (by simp)]
      rfl
    | cons x c ih =>
      intro d hcd hab
      obtain ⟨y, d, rfl⟩ := List.exists_cons_of_length_eq_add_one hcd.symm
      have hnext := ih (a ++ [x]) (b ++ [y]) d (Nat.succ.inj hcd) (by simp [hab])
      rw [List.append_assoc, List.append_assoc, List.length_append] at hnext
      rw [sameFrom, if_pos (by simp), elementAt_eq (a := a) rfl rfl, ok_bind,
        elementAt_eq (a := b) rfl (congrArg Nat.cast hab), ok_bind]
      by_cases hxy : x = y
      · rw [if_neg fun h => h hxy]
        refine hnext.trans ?_
        simp [hxy]
      · rw [if_pos hxy]
        simp [hxy]
  rw [sameColumns]
  by_cases hlen : a.length = b.length
  · rw [if_neg fun h => h hlen]
    exact hfrom [] [] a b hlen rfl
  · rw [if_pos hlen, Bool.eq_false_iff.2 fun h => hlen (congrArg List.length (beq_iff_eq.1 h))]
    rfl

/-! ## Reading -/

/-- The keys known for a table, primary keys first. -/
def keys (c : KeyCatalog) (table : Bytes) : Except Fault (List TableKey) := do
  let name ← catalogName table
  writeEach ⟨[], [], false⟩ (fun k => .ok k) (c.entry name)

theorem keys_ok (c : KeyCatalog) (table : Bytes) : keys c table = .ok (c.keys table) := by
  have hall : writeEach (⟨[], [], false⟩ : TableKey) (fun k => .ok k) (c.keys table)
      = .ok ((c.keys table).map id) := writeEach_ok _ fun _ _ => rfl
  rw [keys, catalogName_ok, ok_bind]
  rwa [List.map_id] at hall

/-- The columns of the first key of the table whose columns are all among the given ones. -/
def coveredKey (c : KeyCatalog) (table : Bytes) (columns : List Bytes) :
    Except Fault (Option (List Bytes)) := do
  let present ← normalizeColumns columns
  let name ← catalogName table
  return ((c.entry name).find? fun k => k.columns.all present.contains).map TableKey.columns

theorem coveredKey_ok (c : KeyCatalog) (table : Bytes) (columns : List Bytes) :
    coveredKey c table columns = .ok (c.conflictTarget? table columns) := by
  rw [coveredKey, normalizeColumns_ok, ok_bind, catalogName_ok]
  rfl

/-! ## Writing -/

/-- Whether one of the keys has these columns. -/
def anyKnown (columns : List Bytes) : List TableKey → Except Fault Bool
  | [] => return false
  | k :: keys => do if ← sameColumns k.columns columns then return true else anyKnown columns keys

theorem anyKnown_ok (columns : List Bytes) (keys : List TableKey) :
    anyKnown columns keys = .ok (keys.any (·.columns == columns)) := by
  induction keys with
  | nil => rfl
  | cons k keys ih =>
    rw [anyKnown, sameColumns_ok, ok_bind, ih, List.any_cons]
    cases k.columns == columns <;> rfl

/-- Adds a key to a table. A key without columns, or with the columns of a known one, is ignored. -/
def register (c : KeyCatalog) (table : Bytes) (key : TableKey) : Except Fault KeyCatalog :=
  if key.columns.isEmpty then return c
  else do
    let name ← catalogName table
    let columns ← normalizeColumns key.columns
    if ← anyKnown columns (c.entry name) then return c
    else return c.setEntry name (KeyCatalog.place (c.entry name) { key with columns })

theorem register_ok (c : KeyCatalog) (table : Bytes) (key : TableKey) :
    register c table key = .ok (c.register table key) := by
  have hempty : (KeyCatalog.normalize key).columns.isEmpty = key.columns.isEmpty := by
    rw [KeyCatalog.normalize, List.isEmpty_map]
  rw [register, KeyCatalog.register, hempty]
  by_cases hnil : key.columns.isEmpty = true
  · rw [if_pos hnil, hnil]
    rfl
  · rw [if_neg hnil, catalogName_ok, ok_bind, normalizeColumns_ok, ok_bind, anyKnown_ok, ok_bind,
      Bool.eq_false_iff.2 hnil, Bool.false_or]
    exact (apply_ite Except.ok _ _ _).symm

/-- Replaces all that is known about a table. -/
def setTable (c : KeyCatalog) (table : Bytes) (keys : List TableKey) : Except Fault KeyCatalog := do
  let name ← catalogName table
  let kept ← keys.foldlM (fun kept k =>
    if k.columns.isEmpty then return kept
    else do
      let columns ← normalizeColumns k.columns
      return KeyCatalog.place kept { k with columns }) []
  return c.setEntry name kept

theorem setTable_ok (c : KeyCatalog) (table : Bytes) (keys : List TableKey) :
    setTable c table keys = .ok (c.setTable table keys) := by
  have hfold : ∀ kept : List TableKey, keys.foldlM (fun kept k =>
      if k.columns.isEmpty then return kept
      else do
        let columns ← normalizeColumns k.columns
        return KeyCatalog.place kept { k with columns }) kept
      = (.ok (((keys.filter fun k => !k.columns.isEmpty).map KeyCatalog.normalize).foldl
          KeyCatalog.place kept) : Except Fault (List TableKey)) := by
    intro kept
    induction keys generalizing kept with
    | nil => rfl
    | cons k keys ih =>
      rw [List.foldlM_cons, List.filter_cons]
      by_cases hnil : k.columns.isEmpty = true
      · rw [if_pos hnil, hnil]
        exact ih kept
      · rw [if_neg hnil, normalizeColumns_ok, Bool.eq_false_iff.2 hnil]
        exact ih _
  rw [setTable, catalogName_ok, ok_bind, hfold]
  rfl

end SqlDialect.Checked
