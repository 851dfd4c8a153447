import SqlDialect.Conversion.Converter
import SqlDialect.Proofs.Conversion.Rule

set_option autoImplicit false

/-! # What the conversion does with the catalog

Two statements about a run of the rules. For every kind but INSERT the catalog cannot be seen: a run
with another catalog ends with the same fault, or with the same text, literals and log. For the
kinds that are neither inserts nor table definitions it is not touched either: the run hands on the
catalog that it was given.

Both are simulations: two runs start with drafts that differ in the catalog only, and each rule
keeps them in step. -/

namespace SqlDialect

/-- The draft with another catalog. -/
def Draft.withCatalog (d : Draft) (c : KeyCatalog) : Draft :=
  { d with catalog := c }

/-- Two runs end alike: with the same fault, or with related drafts. -/
def EndAlike (R : Draft → Draft → Prop) : Except Fault Draft → Except Fault Draft → Prop
  | .ok d₁, .ok d₂ => R d₁ d₂
  | .error f₁, .error f₂ => f₁ = f₂
  | _, _ => False

/-- From related drafts the step ends alike. -/
def KeepsInStep (R : Draft → Draft → Prop) (step : Draft → Except Fault Draft) : Prop :=
  ∀ d₁ d₂, R d₁ d₂ → EndAlike R (step d₁) (step d₂)

theorem EndAlike.mono {R R' : Draft → Draft → Prop} (h : ∀ d₁ d₂, R d₁ d₂ → R' d₁ d₂)
    {e₁ e₂ : Except Fault Draft} (he : EndAlike R e₁ e₂) : EndAlike R' e₁ e₂ := by
  cases e₁ with
  | error f₁ => cases e₂ with
    | error f₂ => exact he
    | ok d₂ => exact he
  | ok d₁ => cases e₂ with
    | error f₂ => exact he
    | ok d₂ => exact h d₁ d₂ he

theorem EndAlike.bind {R : Draft → Draft → Prop} {step : Draft → Except Fault Draft}
    (hstep : KeepsInStep R step) {e₁ e₂ : Except Fault Draft} (he : EndAlike R e₁ e₂) :
    EndAlike R (e₁.bind step) (e₂.bind step) := by
  cases e₁ with
  | error f₁ => cases e₂ with
    | error f₂ => exact he
    | ok d₂ => exact False.elim he
  | ok d₁ => cases e₂ with
    | error f₂ => exact False.elim he
    | ok d₂ => exact hstep d₁ d₂ he

/-- Rules that keep two runs in step do so one after the other. -/
theorem keepsInStep_runRules {R : Draft → Draft → Prop} {rs : List Rule}
    (h : ∀ r ∈ rs, KeepsInStep R r.run) : KeepsInStep R (runRules rs) := by
  induction rs with
  | nil => exact fun d₁ d₂ hd => hd
  | cons r rs ih =>
    rw [List.forall_mem_cons] at h
    intro d₁ d₂ hd
    rw [runRules_cons, runRules_cons]
    exact (h.1 d₁ d₂ hd).bind (ih h.2)

/-- The second draft is the first with the catalog `c`, and they are of kind `k`. -/
def CarriesCatalog (k : Kind) (c : KeyCatalog) (d₁ d₂ : Draft) : Prop :=
  d₁.kind = k ∧ d₂ = d₁.withCatalog c

/-- The drafts differ in the catalog at most, and they are of kind `k`. -/
def SameButCatalog (k : Kind) (d₁ d₂ : Draft) : Prop :=
  ∃ c, CarriesCatalog k c d₁ d₂

/-! ## Single rules -/

/-- A rule keeps two runs in step on kinds that it is not for. -/
theorem keepsInStep_run {k : Kind} {c : KeyCatalog} {r : Rule}
    (h : k ∈ r.kinds → KeepsInStep (CarriesCatalog k c) r.apply) :
    KeepsInStep (CarriesCatalog k c) r.run := by
  intro d₁ d₂ hd
  obtain ⟨hk, rfl⟩ := hd
  by_cases hmem : d₁.kind ∈ r.kinds
  · rw [Rule.run_of_mem hmem, Rule.run_of_mem (d := d₁.withCatalog c) hmem]
    exact h (hk ▸ hmem) d₁ _ ⟨hk, rfl⟩
  · rw [Rule.run_of_notMem hmem, Rule.run_of_notMem (d := d₁.withCatalog c) hmem]
    exact ⟨hk, rfl⟩

theorem carriesCatalog_onText (name : String) (kinds : List Kind) (f : Bytes → Bytes) (k : Kind)
    (c : KeyCatalog) : KeepsInStep (CarriesCatalog k c) (Rule.onText name kinds f).run := by
  apply keepsInStep_run
  rintro - d₁ d₂ ⟨hk, rfl⟩
  exact ⟨hk, rfl⟩

theorem carriesCatalog_onLiterals (name : String) (kinds : List Kind)
    (f : Bytes → LiteralTable → LiteralTable) (k : Kind) (c : KeyCatalog) :
    KeepsInStep (CarriesCatalog k c) (Rule.onLiterals name kinds f).run := by
  apply keepsInStep_run
  rintro - d₁ d₂ ⟨hk, rfl⟩
  exact ⟨hk, rfl⟩

theorem carriesCatalog_showTables (name : String) (kinds : List Kind) (k : Kind) (c : KeyCatalog) :
    KeepsInStep (CarriesCatalog k c) (Rule.total name kinds Draft.showTables).run := by
  apply keepsInStep_run
  rintro - d₁ d₂ ⟨hk, rfl⟩
  show CarriesCatalog k c d₁.showTables (d₁.withCatalog c).showTables
  simp only [Draft.showTables, Draft.withCatalog]
  cases convertShowTables? d₁.text d₁.literals with
  | none => exact ⟨hk, rfl⟩
  | some p => exact ⟨hk, rfl⟩

/-- Unquoting a sort column fails for its literals, not for the catalog. -/
theorem carriesCatalog_sortRule (k : Kind) (c : KeyCatalog) :
    KeepsInStep (CarriesCatalog k c) sortRule.run := by
  apply keepsInStep_run
  rintro - d₁ d₂ ⟨hk, rfl⟩
  show EndAlike _ ((unquoteOrderByLiteral d₁.text d₁.literals).map _)
    ((unquoteOrderByLiteral d₁.text d₁.literals).map _)
  cases unquoteOrderByLiteral d₁.text d₁.literals with
  | error f => rfl
  | ok text => exact ⟨hk, rfl⟩

/-- A rule that carries every catalog along shows none. -/
theorem sameButCatalog_of_carriesCatalog {k : Kind} {step : Draft → Except Fault Draft}
    (h : ∀ c, KeepsInStep (CarriesCatalog k c) step) : KeepsInStep (SameButCatalog k) step := by
  rintro d₁ d₂ ⟨c, hd⟩
  exact (h c d₁ d₂ hd).mono fun _ _ hd' => ⟨c, hd'⟩

/-- A rule shows no catalog if what it does to statements of its kinds shows none. -/
theorem sameButCatalog_total (name : String) (kinds : List Kind) {f : Draft → Draft} (k : Kind)
    (hf : ∀ d c, d.kind = k → SameButCatalog k (f d) (f (d.withCatalog c))) :
    KeepsInStep (SameButCatalog k) (Rule.total name kinds f).run := by
  rintro d₁ d₂ ⟨c, hk, rfl⟩
  by_cases hmem : d₁.kind ∈ kinds
  · rw [Rule.run_of_mem (r := Rule.total name kinds f) hmem,
      Rule.run_of_mem (r := Rule.total name kinds f) (d := d₁.withCatalog c) hmem]
    exact hf d₁ c hk
  · rw [Rule.run_of_notMem (r := Rule.total name kinds f) hmem,
      Rule.run_of_notMem (r := Rule.total name kinds f) (d := d₁.withCatalog c) hmem]
    exact ⟨c, hk, rfl⟩

/-- CREATE TABLE writes to the catalog but reads nothing from it. -/
theorem sameButCatalog_createTable (k : Kind) (d : Draft) (c : KeyCatalog) (hk : d.kind = k) :
    SameButCatalog k d.createTable (d.withCatalog c).createTable := by
  simp only [Draft.createTable, Draft.withCatalog]
  cases createTable? d.text d.literals d.options with
  | none => exact ⟨c, hk, rfl⟩
  | some t => exact ⟨_, hk, rfl⟩

/-- The text that ALTER TABLE is converted to does not depend on the catalog. -/
theorem alterTable_fst (s : Bytes) (lits : LiteralTable) (opts : TypeOptions)
    (c₁ c₂ : KeyCatalog) : (alterTable s lits opts c₁).1 = (alterTable s lits opts c₂).1 := by
  simp only [alterTable]
  cases alterTablePattern.find? s with
  | none => rfl
  | some m =>
    dsimp only
    split <;> rfl

theorem sameButCatalog_alterTable (k : Kind) (d : Draft) (c : KeyCatalog) (hk : d.kind = k) :
    SameButCatalog k d.alterTable (d.withCatalog c).alterTable := by
  have htext := alterTable_fst d.text d.literals d.options d.catalog c
  refine ⟨(SqlDialect.alterTable d.text d.literals d.options c).2, hk, ?_⟩
  simp only [Draft.alterTable, Draft.withCatalog, htext]

/-! ## The chain of rules -/

/-- For the plain kinds each rule carries the catalog along. -/
theorem carriesCatalog_of_mem {k : Kind} (hk : k ∈ plainKinds) (c : KeyCatalog) :
    ∀ r ∈ conversionRules, KeepsInStep (CarriesCatalog k c) r.run := by
  have hskip : ∀ (k' : Kind) (name : String) (f : Draft → Draft), k' ∉ plainKinds →
      KeepsInStep (CarriesCatalog k c) (Rule.total name [k'] f).run := by
    rintro k' name f hk' d₁ d₂ ⟨rfl, rfl⟩
    rw [Rule.run_total_of_plain hk hk',
      Rule.run_total_of_plain (d := d₁.withCatalog c) hk hk']
    exact ⟨rfl, rfl⟩
  apply forall_conversionRules
  case onText => exact fun name kinds f => carriesCatalog_onText name kinds f k c
  case patterns => exact carriesCatalog_onLiterals _ _ _ k c
  case zeroDates => exact carriesCatalog_onLiterals _ _ _ k c
  case sortColumns => exact carriesCatalog_sortRule k c
  case showTables => exact carriesCatalog_showTables _ _ k c
  case createTable => exact hskip _ _ _ (by decide)
  case alterTable => exact hskip _ _ _ (by decide)
  case onDuplicate => exact hskip _ _ _ (by decide)
  case insertIgnore => exact hskip _ _ _ (by decide)

/-- For every kind but INSERT each rule keeps runs with different catalogs in step. -/
theorem sameButCatalog_of_mem {k : Kind} (hk : k ≠ .insert) :
    ∀ r ∈ conversionRules, KeepsInStep (SameButCatalog k) r.run := by
  have hskip : ∀ (name : String) (f : Draft → Draft),
      KeepsInStep (SameButCatalog k) (Rule.total name [.insert] f).run := by
    intro name f
    apply sameButCatalog_of_carriesCatalog
    intro c
    apply keepsInStep_run
    intro hmem
    exact absurd (List.mem_singleton.1 hmem) hk
  apply forall_conversionRules
  case onText =>
    exact fun name kinds f =>
      sameButCatalog_of_carriesCatalog (carriesCatalog_onText name kinds f k)
  case patterns => exact sameButCatalog_of_carriesCatalog (carriesCatalog_onLiterals _ _ _ k)
  case zeroDates => exact sameButCatalog_of_carriesCatalog (carriesCatalog_onLiterals _ _ _ k)
  case sortColumns => exact sameButCatalog_of_carriesCatalog (carriesCatalog_sortRule k)
  case showTables => exact sameButCatalog_of_carriesCatalog (carriesCatalog_showTables _ _ k)
  case createTable => exact sameButCatalog_total _ _ k (sameButCatalog_createTable k)
  case alterTable => exact sameButCatalog_total _ _ k (sameButCatalog_alterTable k)
  case onDuplicate => exact hskip _ _
  case insertIgnore => exact hskip _ _

/-! ## One conversion -/

namespace Converter

variable {κ : Type}

/-- What a statement becomes by the rules alone and the catalog afterwards: where a rule fails, the
statement and the catalog stay as they are. -/
def settle (c : Converter κ) (sql : Bytes) (kind : Kind) (text : Bytes) (literals : LiteralTable) :
    Bytes × KeyCatalog :=
  match c.convertFresh sql kind text literals with
  | .ok (output, catalog, _) => (output, catalog)
  | .error _ => (sql, c.catalog)

/-- Converters with the same options convert a statement that is no INSERT to the same text. -/
theorem settle_fst {κ' : Type} {c₁ : Converter κ} {c₂ : Converter κ'} (hopts : c₁.options = c₂.options) {kind : Kind}
    (hk : kind ≠ .insert) (sql text : Bytes) (literals : LiteralTable) :
    (c₁.settle sql kind text literals).1 = (c₂.settle sql kind text literals).1 := by
  have hrun : EndAlike (SameButCatalog kind) (c₁.runRules kind text literals)
      (c₂.runRules kind text literals) := by
    apply keepsInStep_runRules (sameButCatalog_of_mem hk)
    exact ⟨c₂.catalog, rfl, by rw [hopts]; rfl⟩
  rw [settle, settle, convertFresh, convertFresh]
  cases h₁ : c₁.runRules kind text literals with
  | error f₁ => cases h₂ : c₂.runRules kind text literals with
    | error f₂ => rfl
    | ok d₂ => rw [h₁, h₂] at hrun; exact False.elim hrun
  | ok d₁ => cases h₂ : c₂.runRules kind text literals with
    | error f₂ => rw [h₁, h₂] at hrun; exact False.elim hrun
    | ok d₂ =>
      rw [h₁, h₂] at hrun
      obtain ⟨c, _, rfl⟩ := hrun
      rfl

/-- Statements of the plain kinds leave the catalog alone. -/
theorem settle_snd (c : Converter κ) {kind : Kind} (hk : kind ∈ plainKinds) (sql text : Bytes)
    (literals : LiteralTable) : (c.settle sql kind text literals).2 = c.catalog := by
  have hrun : EndAlike (CarriesCatalog kind c.catalog) (c.runRules kind text literals)
      (c.runRules kind text literals) :=
    keepsInStep_runRules (carriesCatalog_of_mem hk c.catalog) _ _ ⟨rfl, rfl⟩
  rw [settle, convertFresh]
  cases hd : c.runRules kind text literals with
  | error f => rfl
  | ok d =>
    -- the draft is its own copy with the converter's catalog
    rw [hd] at hrun
    exact congrArg Draft.catalog hrun.2

end Converter

end SqlDialect
