import Mathlib.Data.List.Forall2
import SqlDialect.Proofs.Table.Items
import SqlDialect.Proofs.Table.KeyClauses
import SqlDialect.Proofs.Text.Bytes

set_option autoImplicit false

/-! # Every specification contributes

An ALTER TABLE statement is put out specification by specification. What each of them contributes is
said by what is written (`Contributes`): actions, which go into one statement, a statement in front
of it for a new name, one behind it for an index, and a key that the catalog learns. The output is
made of exactly these, in the order of the specifications (`alterTable_conserves`). Only a FULLTEXT or
SPATIAL key contributes nothing.

The conditions of `WritesPlainly` say where a specification is read as it is written. -/

namespace SqlDialect

open Bytes Pattern

/-! ## How specifications are written -/

/-- The specification adds something other than a primary key, by what follows ADD. -/
def Adds (spec rest : Bytes) : Prop :=
  addPrimaryPattern.find? spec = none ∧ ∃ m, addPattern.find? spec = some m ∧ m.after = rest

/-- The specification adds nothing. -/
def AddsNothing (spec : Bytes) : Prop :=
  addPrimaryPattern.find? spec = none ∧ addPattern.find? spec = none

/-- The specification gives a column a new definition, and with CHANGE also a name: `old` is the one that
it had. -/
inductive Redefines (spec : Bytes) : Option Bytes → Bytes → Prop where
  | modify {m : Match} (hadds : AddsNothing spec) (hm : modifyPattern.find? spec = some m) :
    Redefines spec none (positionPattern.erase m.after)
  | change {m : Match} (hadds : AddsNothing spec) (hmodify : modifyPattern.find? spec = none)
    (hm : changePattern.find? spec = some m) :
    Redefines spec (some (normalizeName (m.group 1))) (positionPattern.erase m.after)

/-- The specification is about something else: it neither adds anything nor redefines a column. -/
structure IsOther (spec : Bytes) : Prop where
  adds : AddsNothing spec
  modify : modifyPattern.find? spec = none
  change : changePattern.find? spec = none

/-- The specification opens with ADD PRIMARY KEY. -/
def OpensPrimary (spec : Bytes) : Prop :=
  (Pattern.seqs [.textStart, .keyword "ADD", .blanks1, constraintLead, .phrase ["PRIMARY", "KEY"],
    .wordEdge]).occursIn spec = true

/-- The specification opens with DROP INDEX or DROP KEY. -/
def OpensDrop (spec : Bytes) : Prop :=
  (Pattern.seqs [.textStart, .keyword "DROP", .blanks1, .keywords ["INDEX", "KEY"],
    .blanks1]).occursIn spec = true

/-- A key that is added or dropped is written in the common form: with a name for its constraint, and
with a name of one word. -/
structure WritesPlainly (spec : Bytes) : Prop where
  added : ∀ rest, Adds spec rest → ReadsPlainly rest
  primary : OpensPrimary spec → addPrimaryPattern.occursIn spec = true
  dropped : OpensDrop spec → dropIndexPattern.occursIn spec = true

instance (spec : Bytes) : Decidable (OpensPrimary spec) :=
  inferInstanceAs (Decidable (_ = true))

instance (spec : Bytes) : Decidable (OpensDrop spec) :=
  inferInstanceAs (Decidable (_ = true))

instance (spec : Bytes) : Decidable (WritesPlainly spec) :=
  decidable_of_iff
    ((∀ m ∈ addPattern.find? spec, addPrimaryPattern.find? spec = none → ReadsPlainly m.after) ∧
      (OpensPrimary spec → addPrimaryPattern.occursIn spec = true) ∧
      (OpensDrop spec → dropIndexPattern.occursIn spec = true))
    ⟨fun h => ⟨by rintro rest ⟨hnone, m, hm, rfl⟩; exact h.1 m hm hnone, h.2.1, h.2.2⟩,
      fun h => ⟨fun m hm hnone => h.added _ ⟨hnone, m, hm, rfl⟩, h.primary, h.dropped⟩⟩

/-! ## What specifications contribute -/

/-- The statement that gives a column its new name, if it had another. -/
def renameStatements (t : AlteredTable) (lits : LiteralTable) (col : Column) (old : Option Bytes) :
    List Bytes :=
  match old with
  | some old =>
    if bareName col.name lits = bareName old lits then []
    else [ascii "ALTER TABLE " ++ t.name ++ ascii " RENAME COLUMN " ++ old ++ ascii " TO " ++ col.name]
  | none => []

/-- What a specification contributes, by what is written. -/
inductive Contributes (t : AlteredTable) (lits : LiteralTable) (opts : TypeOptions) (spec : Bytes) :
    AlterEffect → Prop where
  /-- A primary key stays, and the catalog learns it. -/
  | primaryKey {m : Match} (hm : addPrimaryPattern.find? spec = some m) :
    Contributes t lits opts spec
      { actions := [ascii "ADD PRIMARY KEY (" ++ (KeyColumns.ofText m.after lits).rendered ++ ascii ")"]
        key := some ⟨ascii "PRIMARY", (KeyColumns.ofText m.after lits).parts.map KeyPart.name, true⟩ }
  /-- A key becomes an index, and the catalog learns it exactly if UNIQUE is written. -/
  | indexed {rest : Bytes} {m : Match} {key : Option TableKey} (hadds : Adds spec rest)
    (hm : keyClause? rest = some m)
    (hclause : WritesPlainly spec → WritesKey rest ∧ ¬ SaysKind ["FULLTEXT", "SPATIAL"] rest)
    (hunique : WritesPlainly spec →
      ((TableIndex.ofClause m lits).1.kind = .unique ↔ SaysKind ["UNIQUE"] rest))
    (hkey : key = if (TableIndex.ofClause m lits).1.kind = .unique then
      some ⟨(TableIndex.ofClause m lits).1.name,
        (TableIndex.ofClause m lits).1.columns.map KeyPart.name, false⟩ else none) :
    Contributes t lits opts spec
      { after := [(TableIndex.ofClause m lits).1.create t.name t.bare (TableIndex.ofClause m lits).2]
        key }
  /-- A FULLTEXT or SPATIAL key is left out. -/
  | leftOut {rest : Bytes} {m : Match} (hadds : Adds spec rest) (hm : keyClause? rest = some m)
    (hdropped : (TableIndex.ofClause m lits).1.kind.isDropped = true)
    (hclause : WritesPlainly spec → SaysKind ["FULLTEXT", "SPATIAL"] rest) :
    Contributes t lits opts spec {}
  /-- A column is added in the form that it has in a definition. -/
  | column {rest : Bytes} {col : Column} (hadds : Adds spec rest)
    (hclause : WritesPlainly spec → ¬ WritesKey rest ∧ ¬ OpensPrimary spec)
    (hconstraint : constraintPattern.occursIn rest = false)
    (hcol : Column.ofText? (positionPattern.erase (columnWordPattern.erase rest)) lits opts false
      = some col) :
    Contributes t lits opts spec { actions := [ascii "ADD COLUMN " ++ col.render opts] }
  /-- A constraint, and what is no column, is passed on. -/
  | added {rest : Bytes} (hadds : Adds spec rest)
    (hclause : WritesPlainly spec → ¬ WritesKey rest ∧ ¬ OpensPrimary spec)
    (hother : constraintPattern.occursIn rest = true ∨
      Column.ofText? (positionPattern.erase (columnWordPattern.erase rest)) lits opts false = none) :
    Contributes t lits opts spec { actions := [spec] }
  /-- A new definition takes several actions, behind the statement for the name. -/
  | redefined {old : Option Bytes} {definition : Bytes} {col : Column}
    (hspec : Redefines spec old definition)
    (hcol : Column.ofText? definition lits opts true = some col) :
    Contributes t lits opts spec
      { before := renameStatements t lits col old, actions := col.alterActions opts }
  | unread {old : Option Bytes} {definition : Bytes} (hspec : Redefines spec old definition)
    (hcol : Column.ofText? definition lits opts true = none) :
    Contributes t lits opts spec { actions := [spec] }
  /-- An index is dropped by a statement of its own. -/
  | dropIndex {m : Match} (hother : IsOther spec) (hm : dropIndexPattern.find? spec = some m) :
    Contributes t lits opts spec
      { after := [dropIndex t.bare (bareName (normalizeName (m.group 1)) lits)] }
  | other (hother : IsOther spec) (hdrop : dropIndexPattern.find? spec = none)
    (hplain : WritesPlainly spec → ¬ OpensDrop spec) :
    Contributes t lits opts spec { actions := [spec] }

namespace AlterEffect

variable {t : AlteredTable} {lits : LiteralTable} {opts : TypeOptions} {spec : Bytes}

/-- A column that changes its name and its definition. -/
theorem append_renameColumn (old : Bytes) (col : Column) :
    (renameColumn t lits old (some col)).append (changeColumn (some col) opts spec)
      = { before := renameStatements t lits col (some old), actions := col.alterActions opts } := by
  rw [renameColumn, renameStatements]
  split <;> rfl

theorem contributes_ofChange (hadds : AddsNothing spec) :
    Contributes t lits opts spec (ofChange t lits opts spec) := by
  rw [ofChange]
  cases hmodify : modifyPattern.find? spec with
  | some m =>
    have hspec : Redefines spec none (positionPattern.erase m.after) := .modify hadds hmodify
    dsimp only
    cases hcol : Column.ofText? (positionPattern.erase m.after) lits opts true with
    | some col => exact .redefined hspec hcol
    | none => exact .unread hspec hcol
  | none =>
    dsimp only
    cases hchange : changePattern.find? spec with
    | some m =>
      have hspec : Redefines spec (some (normalizeName (m.group 1))) (positionPattern.erase m.after) :=
        .change hadds hmodify hchange
      dsimp only
      cases hcol : Column.ofText? (positionPattern.erase m.after) lits opts true with
      | some col =>
        rw [append_renameColumn]
        exact .redefined hspec hcol
      | none => exact .unread hspec hcol
    | none =>
      have hother : IsOther spec := ⟨hadds, hmodify, hchange⟩
      dsimp only
      cases hdrop : dropIndexPattern.find? spec with
      | some m => exact .dropIndex hother hdrop
      | none =>
        refine .other hother hdrop fun h hopens => ?_
        have hoccurs := h.dropped hopens
        rw [occursIn, hdrop] at hoccurs
        cases hoccurs

/-- Each specification contributes what is written says. -/
theorem contributes_ofSpec (t : AlteredTable) (lits : LiteralTable) (opts : TypeOptions)
    (spec : Bytes) : Contributes t lits opts spec (ofSpec t lits opts spec) := by
  rw [ofSpec]
  cases hprimary : addPrimaryPattern.find? spec with
  | some m => exact .primaryKey hprimary
  | none =>
    cases hadd : addPattern.find? spec with
    | none => exact contributes_ofChange ⟨hprimary, hadd⟩
    | some added =>
      have hadds : Adds spec added.after := ⟨hprimary, added, hadd, rfl⟩
      have hnoPrimary : WritesPlainly spec → ¬ OpensPrimary spec := by
        intro h hopens
        have hoccurs := h.primary hopens
        rw [occursIn, hprimary] at hoccurs
        cases hoccurs
      dsimp only
      cases hclause : keyClause? added.after with
      | some m =>
        dsimp only [addKey]
        split
        · rename_i hdropped
          exact .leftOut hadds hclause hdropped
            fun h => (isDropped_iff_saysKind (h.added _ hadds).named hclause lits).1 hdropped
        · rename_i hdropped
          refine .indexed hadds hclause
            (fun h => ⟨writesKey_of_keyClause? (h.added _ hadds) hclause, ?_⟩)
            (fun h => isUnique_iff_saysKind (h.added _ hadds).named hclause lits) rfl
          rwa [← isDropped_iff_saysKind (h.added _ hadds).named hclause lits]
      | none =>
        have hno : WritesPlainly spec → ¬ WritesKey added.after ∧ ¬ OpensPrimary spec := fun h =>
          ⟨not_writesKey_of_keyClause? (h.added _ hadds) hclause, hnoPrimary h⟩
        dsimp only
        split
        · rename_i hconstraint
          exact .added hadds hno (Or.inl hconstraint)
        · rename_i hconstraint
          rw [addColumn]
          cases hcol : Column.ofText? (positionPattern.erase (columnWordPattern.erase added.after))
              lits opts false with
          | some col => exact .column hadds hno (Bool.eq_false_iff.2 hconstraint) hcol
          | none => exact .added hadds hno (Or.inr hcol)

/-- Nothing is put out for the specification. -/
def IsNothing (e : AlterEffect) : Prop :=
  e.before = [] ∧ e.actions = [] ∧ e.after = []

end AlterEffect

/-- The specification adds a FULLTEXT or SPATIAL key. -/
def LeavesOut (spec : Bytes) : Prop :=
  ∃ rest, Adds spec rest ∧ SaysKind ["FULLTEXT", "SPATIAL"] rest

section

variable {t : AlteredTable} {lits : LiteralTable} {opts : TypeOptions} {spec : Bytes}
  {e : AlterEffect}

theorem not_leavesOut_of_adds {rest : Bytes} (hadds : Adds spec rest)
    (h : ¬ SaysKind ["FULLTEXT", "SPATIAL"] rest) : ¬ LeavesOut spec := by
  obtain ⟨-, m, hm, rfl⟩ := hadds
  rintro ⟨rest', ⟨-, m', hm', rfl⟩, hkind⟩
  obtain rfl := Option.some.inj (hm.symm.trans hm')
  exact h hkind

theorem not_leavesOut_of_addsNothing (h : AddsNothing spec) : ¬ LeavesOut spec := by
  rintro ⟨rest, ⟨-, m, hm, -⟩, -⟩
  rw [h.2] at hm
  cases hm

theorem Redefines.addsNothing {old : Option Bytes} {definition : Bytes}
    (h : Redefines spec old definition) : AddsNothing spec := by
  cases h with
  | modify hadds _ => exact hadds
  | change hadds _ _ => exact hadds

/-- Nothing is put out for FULLTEXT and SPATIAL keys, and for nothing else. -/
theorem Contributes.isNothing_iff (h : Contributes t lits opts spec e) (hplain : WritesPlainly spec) :
    e.IsNothing ↔ LeavesOut spec := by
  have hwrites : ∀ {rest}, ¬ WritesKey rest → ¬ SaysKind ["FULLTEXT", "SPATIAL"] rest :=
    fun hno hkind => hno (Or.inl (Or.inl (hkind.mono (by decide) (by decide))))
  have hactions : ∀ {e : AlterEffect}, e.actions ≠ [] → ¬ e.IsNothing := fun hne h => hne h.2.1
  have hafter : ∀ {e : AlterEffect}, e.after ≠ [] → ¬ e.IsNothing := fun hne h => hne h.2.2
  cases h with
  | primaryKey hm =>
    refine iff_of_false (hactions (List.cons_ne_nil _ _)) ?_
    rintro ⟨rest, ⟨hnone, -⟩, -⟩
    rw [hm] at hnone
    cases hnone
  | indexed hadds _ hclause _ _ =>
    exact iff_of_false (hafter (List.cons_ne_nil _ _))
      (not_leavesOut_of_adds hadds (hclause hplain).2)
  | leftOut hadds _ _ hclause =>
    exact iff_of_true ⟨rfl, rfl, rfl⟩ ⟨_, hadds, hclause hplain⟩
  | column hadds hclause _ _ =>
    exact iff_of_false (hactions (List.cons_ne_nil _ _))
      (not_leavesOut_of_adds hadds (hwrites (hclause hplain).1))
  | added hadds hclause _ =>
    exact iff_of_false (hactions (List.cons_ne_nil _ _))
      (not_leavesOut_of_adds hadds (hwrites (hclause hplain).1))
  | redefined hspec _ =>
    exact iff_of_false (hactions (List.cons_ne_nil _ _))
      (not_leavesOut_of_addsNothing hspec.addsNothing)
  | unread hspec _ =>
    exact iff_of_false (hactions (List.cons_ne_nil _ _))
      (not_leavesOut_of_addsNothing hspec.addsNothing)
  | dropIndex hother _ =>
    exact iff_of_false (hafter (List.cons_ne_nil _ _)) (not_leavesOut_of_addsNothing hother.adds)
  | other hother _ _ =>
    exact iff_of_false (hactions (List.cons_ne_nil _ _)) (not_leavesOut_of_addsNothing hother.adds)

end

/-! ## The output -/

/-- The table that a statement alters, by the match of its head. -/
def alteredTable (m : Match) (lits : LiteralTable) : AlteredTable :=
  ⟨normalizeName (m.group 2), bareName (lastSegment (normalizeName (m.group 2))) lits⟩

/-- The specifications of a statement as they are written, by the match of its head. -/
def specifications (m : Match) : List Bytes :=
  bodyItems (trimStatementEnd m.after).1

theorem isEmpty_alterStatements_iff (table : Bytes) (effects : List AlterEffect) :
    (alterStatements table effects).isEmpty = true ↔ ∀ e ∈ effects, e.IsNothing := by
  rw [List.isEmpty_iff, alterStatements, List.append_eq_nil_iff, List.append_eq_nil_iff,
    List.flatMap_eq_nil_iff, List.flatMap_eq_nil_iff]
  constructor
  · rintro ⟨⟨hbefore, hactions⟩, hafter⟩ e he
    refine ⟨hbefore e he, ?_, hafter e he⟩
    split at hactions
    · rename_i hnil
      exact List.flatMap_eq_nil_iff.1 (List.isEmpty_iff.1 hnil) e he
    · cases hactions
  · intro h
    refine ⟨⟨fun e he => (h e he).1, ?_⟩, fun e he => (h e he).2.2⟩
    rw [if_pos (List.isEmpty_iff.2 (List.flatMap_eq_nil_iff.2 fun e he => (h e he).2.1))]

/-- A text that has items does not end in the run of blanks and semicolons alone. -/
theorem trimStatementEnd_append (a : Bytes) {b : Bytes} (hb : (trimStatementEnd b).1 ≠ []) :
    (trimStatementEnd (a ++ b)).2 = (trimStatementEnd b).2 := by
  rw [trimStatementEnd] at hb ⊢
  rw [trimStatementEnd]
  dsimp only at hb ⊢
  rw [dropTailWhile_append_of_ne_nil a hb, List.length_append, ← List.drop_drop, List.drop_left]

theorem bodyItems_nil : bodyItems [] = [] := by
  decide

/-- The output of a statement with the contributions of its specifications, and what the catalog knows
then. -/
structure AlterOutput (s : Bytes) (m : Match) (lits : LiteralTable) (c : KeyCatalog)
    (effects : List AlterEffect) (out : Bytes × KeyCatalog) : Prop where
  unchanged : (∀ e ∈ effects, e.IsNothing) → out.1 = s
  text : ¬ (∀ e ∈ effects, e.IsNothing) → out.1 = m.group 1 ++
    join (ascii ";\n") (effects.flatMap AlterEffect.before ++
      (if (effects.flatMap AlterEffect.actions).isEmpty then []
        else [ascii "ALTER TABLE " ++ (alteredTable m lits).name ++ ascii " " ++
          join (ascii ", ") (effects.flatMap AlterEffect.actions)]) ++
      effects.flatMap AlterEffect.after) ++
    semicolonIf (trimStatementEnd s).2
  catalog : out.2 = (effects.filterMap AlterEffect.key).foldl
    (fun c key => c.register (alteredTable m lits).bare key) c

theorem alterOutput_alterTable {s : Bytes} {m : Match} (hm : alterTablePattern.find? s = some m)
    (lits : LiteralTable) (opts : TypeOptions) (c : KeyCatalog) :
    AlterOutput s m lits c
      ((specifications m).map (AlterEffect.ofSpec (alteredTable m lits) lits opts))
      (alterTable s lits opts c) := by
  refine ⟨fun hnothing => ?_, fun hsome => ?_, snd_alterTable hm lits opts c⟩
  · simp only [alterTable, hm]
    exact congrArg Prod.fst (if_pos ((isEmpty_alterStatements_iff _ _).2 hnothing))
  · have hend : (trimStatementEnd s).2 = (trimStatementEnd m.after).2 := by
      rw [← Pattern.text_of_find? hm]
      refine trimStatementEnd_append _ fun hnil => hsome fun e he => ?_
      rw [specifications, hnil, bodyItems_nil] at he
      cases he
    rw [hend]
    simp only [alterTable, hm]
    exact congrArg Prod.fst (if_neg fun hnil => hsome ((isEmpty_alterStatements_iff _ _).1 hnil))

/-- **An ALTER TABLE statement conserves its specifications.** Each of them contributes what is written
says, and nothing only if it adds a FULLTEXT or SPATIAL key. The output is the statements for new
names, one statement with all actions, and the statements for indexes, each in the order of the
specifications, with a semicolon if there was one; it is the statement itself if there is none of
them. The catalog learns the keys in that order. -/
theorem alterTable_conserves {s : Bytes} {m : Match} (hm : alterTablePattern.find? s = some m)
    (lits : LiteralTable) (opts : TypeOptions) (c : KeyCatalog) :
    ∃ effects, List.Forall₂ (fun spec e => Contributes (alteredTable m lits) lits opts spec e ∧
          (WritesPlainly spec → (e.IsNothing ↔ LeavesOut spec))) (specifications m) effects ∧
      AlterOutput s m lits c effects (alterTable s lits opts c) := by
  refine ⟨_, ?_, alterOutput_alterTable hm lits opts c⟩
  rw [List.forall₂_map_right_iff]
  refine List.forall₂_same.2 fun spec _ => ?_
  have hcontributes := AlterEffect.contributes_ofSpec (alteredTable m lits) lits opts spec
  exact ⟨hcontributes, hcontributes.isNothing_iff⟩

/-- A statement with a new name, keys of several kinds, a dropped index and a new column. -/
theorem alterTable_conserves_kinds :
    let s := ascii ("ALTER TABLE t CHANGE a b int, ADD UNIQUE KEY k (b), ADD FULLTEXT KEY f (b), " ++
      "DROP INDEX i, ADD PRIMARY KEY (b), ADD c text; ")
    ∃ m, alterTablePattern.find? s = some m ∧ (∀ spec ∈ specifications m, WritesPlainly spec) ∧
      ∃ effects, List.Forall₂ (fun spec e => Contributes (alteredTable m []) [] {} spec e ∧
          (WritesPlainly spec → (e.IsNothing ↔ LeavesOut spec))) (specifications m) effects ∧
        AlterOutput s m [] {} effects (alterTable s [] {} {}) := by
  intro s
  have hsome : (alterTablePattern.find? s).isSome := by decide +kernel
  have hplain : ∀ m ∈ alterTablePattern.find? s, ∀ spec ∈ specifications m, WritesPlainly spec := by
    decide +kernel
  obtain ⟨m, hm⟩ := Option.isSome_iff_exists.1 hsome
  exact ⟨m, hm, hplain m hm, alterTable_conserves hm [] {} {}⟩

/-- A unique key behind CONSTRAINT without a name becomes a plain index, which the catalog does not
learn, and an index whose name has a blank is not dropped by a statement of its own. -/
theorem alterTable_loses_unique :
    let s := ascii "ALTER TABLE t ADD CONSTRAINT UNIQUE KEY k (a), DROP INDEX \"my idx\""
    SaysKind ["UNIQUE"] (ascii "CONSTRAINT UNIQUE KEY k (a)") ∧
      OpensDrop (ascii "DROP INDEX \"my idx\"") ∧
      (alterTablePattern.find? s).map specifications
        = some [ascii "ADD CONSTRAINT UNIQUE KEY k (a)", ascii "DROP INDEX \"my idx\""] ∧
      alterTable s [] {} {} = (ascii ("ALTER TABLE t DROP INDEX \"my idx\";\n" ++
        "CREATE INDEX IF NOT EXISTS t_k ON t (a)"), {}) := by
  repeat rw [ascii_ofList]
  decide +kernel

end SqlDialect
