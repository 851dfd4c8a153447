import SqlDialect.Proofs.Conversion.Faults
import SqlDialect.Proofs.Query.Nesting

set_option autoImplicit false

/-! # Balanced statements stay balanced

A statement that is neither an insert nor a table definition and whose parentheses are balanced outside
its literals comes out of the rules with balanced parentheses; so does the query that stands for a
question for the row count. What carries the argument is that each rule of the chain keeps a balanced
text balanced. -/

namespace SqlDialect

/-! ## Single rules -/

/-- On the plain kinds the rule keeps a balanced text balanced, and the kind. -/
def Rule.KeepsBalance (r : Rule) : Prop :=
  ∀ d d' : Draft, d.kind ∈ plainKinds → Balanced d.text → r.run d = .ok d' →
    Balanced d'.text ∧ d'.kind = d.kind

namespace Rule.KeepsBalance

theorem of_apply {r : Rule} (h : ∀ d d' : Draft, Balanced d.text → r.apply d = .ok d' →
    Balanced d'.text ∧ d'.kind = d.kind) : r.KeepsBalance := by
  intro d d' _ hd hrun
  by_cases hmem : d.kind ∈ r.kinds
  · rw [run_of_mem hmem] at hrun
    exact h d d' hd hrun
  · rw [run_of_notMem hmem] at hrun
    cases hrun
    exact ⟨hd, rfl⟩

/-- A rule for other kinds does nothing. -/
theorem of_kinds {r : Rule} (h : ∀ k ∈ r.kinds, k ∉ plainKinds) : r.KeepsBalance := by
  intro d d' hkind hd hrun
  rw [run_of_notMem fun hmem => h _ hmem hkind] at hrun
  cases hrun
  exact ⟨hd, rfl⟩

theorem onText (name : String) (kinds : List Kind) {f : Bytes → Bytes}
    (h : ∀ s, Balanced s → Balanced (f s)) : (Rule.onText name kinds f).KeepsBalance := by
  refine of_apply fun d d' hd happly => ?_
  cases happly
  exact ⟨h _ hd, rfl⟩

theorem of_sameNesting (name : String) (kinds : List Kind) {f : Bytes → Bytes}
    (h : ∀ s, SameNesting (f s) s) : (Rule.onText name kinds f).KeepsBalance :=
  onText name kinds fun s hs => (h s).balanced_iff.2 hs

theorem onLiterals (name : String) (kinds : List Kind) (f : Bytes → LiteralTable → LiteralTable) :
    (Rule.onLiterals name kinds f).KeepsBalance := by
  refine of_apply fun d d' hd happly => ?_
  cases happly
  exact ⟨hd, rfl⟩

theorem showTables (name : String) (kinds : List Kind) :
    (Rule.total name kinds Draft.showTables).KeepsBalance := by
  refine of_apply fun d d' hd happly => ?_
  cases happly
  unfold Draft.showTables
  cases hshow : convertShowTables? d.text d.literals with
  | none => exact ⟨hd, rfl⟩
  | some p => exact ⟨balanced_showTables hshow, rfl⟩

theorem sortColumns : sortRule.KeepsBalance := by
  refine of_apply fun d d' hd happly => ?_
  change (unquoteOrderByLiteral d.text d.literals).map _ = _ at happly
  cases hsort : unquoteOrderByLiteral d.text d.literals with
  | error e =>
    rw [hsort] at happly
    cases happly
  | ok text =>
    rw [hsort] at happly
    cases happly
    exact ⟨(sameNesting_unquoteOrderByLiteral hsort).balanced_iff.2 hd, rfl⟩

end Rule.KeepsBalance

/-! ## The chain -/

theorem keepsBalance_conversionRules : ∀ r ∈ conversionRules, r.KeepsBalance := by
  have hbackticks : ∀ s, SameNesting (replaceBackticks s) s :=
    fun s => sameNesting_of_parens (parens_replaceBackticks s)
  have hreplace : ∀ s, SameNesting ((convertReplace? s).getD s) s := by
    intro s
    cases h : convertReplace? s with
    | none => exact .refl s
    | some t => exact sameNesting_convertReplace h
  -- one entry for each rule, in their order; those of other kinds do not run
  simp only [conversionRules, List.forall_mem_cons]
  exact ⟨.of_sameNesting _ _ hbackticks,
    .showTables _ _,
    .of_kinds (by decide),
    .of_kinds (by decide),
    .of_sameNesting _ _ sameNesting_stripCalcFoundRows,
    .of_sameNesting _ _ sameNesting_likeToILike,
    .of_sameNesting _ _ sameNesting_regexpToTilde,
    .onLiterals _ _ _,
    .of_sameNesting _ _ sameNesting_convertFunctions,
    .of_sameNesting _ _ sameNesting_castDateCalls,
    .of_sameNesting _ _ sameNesting_castOrderByPlusZero,
    .sortColumns,
    .of_sameNesting _ _ sameNesting_limitToOffset,
    .of_sameNesting _ _ sameNesting_stripFinalLimit,
    .onText _ _ fun s hs => (sameNesting_aliasCountsAndGroup hs).balanced_iff.2 hs,
    .onLiterals _ _ _,
    .of_kinds (by decide),
    .of_kinds (by decide),
    .of_sameNesting _ _ hreplace,
    .of_kinds (by decide),
    .of_sameNesting _ _ sameNesting_quoteBareIdentifiers,
    fun _ hr => absurd hr List.not_mem_nil⟩

/-- Rules that keep balance do so one after the other. -/
theorem balanced_runRules {rs : List Rule} (hrs : ∀ r ∈ rs, r.KeepsBalance) {d d' : Draft}
    (hkind : d.kind ∈ plainKinds) (hd : Balanced d.text) (hrun : runRules rs d = .ok d') :
    Balanced d'.text := by
  induction rs generalizing d with
  | nil =>
    cases hrun
    exact hd
  | cons r rs ih =>
    obtain ⟨hr, hrs⟩ := List.forall_mem_cons.1 hrs
    rw [runRules_cons] at hrun
    cases hstep : r.run d with
    | error e =>
      rw [hstep] at hrun
      cases hrun
    | ok d₁ =>
      rw [hstep] at hrun
      obtain ⟨hd₁, hkind₁⟩ := hr d d₁ hkind hd hstep
      exact ih hrs (hkind₁ ▸ hkind) hd₁ hrun

/-! ## Statements -/

namespace Converter

variable {κ : Type}

/-- The text whose parentheses count is balanced: that of the statement outside its literals, or, for a
question for the row count, that of the last query. -/
def InputBalanced (session : Option Session) (sql : Bytes) : Prop :=
  Balanced (if IsLookup sql then (shield (lastQuery session)).1 else (shield sql).1)

instance (session : Option Session) (sql : Bytes) : Decidable (InputBalanced session sql) :=
  inferInstanceAs (Decidable (Balanced _))

/-- **Parentheses stay balanced.** A statement of a plain kind with balanced parentheses has balanced
parentheses when all rules have run on it. -/
theorem attempt_balanced {c : Converter κ} {session : Option Session} {sql : Bytes} {d : Draft}
    (hkind : Kind.ofStatement sql ∈ plainKinds) (hinput : InputBalanced session sql)
    (hd : c.attempt session sql = .ok d) : Balanced d.text := by
  have htext : Balanced (ruleInput session sql).1 := by
    unfold ruleInput
    unfold InputBalanced at hinput
    by_cases hlookup : IsLookup sql
    · rw [if_pos hlookup] at hinput ⊢
      exact balanced_foundRowsQuery hinput
    · rw [if_neg hlookup] at hinput ⊢
      exact hinput
  have hrules : ∀ d₀ : Draft, d₀.kind = Kind.ofStatement sql →
      d₀.text = (ruleInput session sql).1 →
      SqlDialect.runRules conversionRules d₀ = .ok d →
      Balanced d.text := by
    intro d₀ hk ht hrun
    exact balanced_runRules keepsBalance_conversionRules (hk ▸ hkind) (ht ▸ htext) hrun
  exact hrules _ rfl rfl hd

/-- A query with calls, a count and a plain column whose name holds parentheses. -/
def groupedQuery : Bytes :=
  ascii "SELECT `a(b)`, COUNT(x) FROM t WHERE DATE(UNIX_TIMESTAMP()) > (1)"

theorem attempt_balanced_groupedQuery :
    ∃ d, attempt ({} : Converter) none groupedQuery = .ok d ∧ Balanced d.text := by
  have hok : (attempt ({} : Converter) none groupedQuery).isOk = true := by decide +kernel
  cases hd : attempt ({} : Converter) none groupedQuery with
  | error e =>
    rw [hd] at hok
    cases hok
  | ok d => exact ⟨d, rfl, attempt_balanced (by decide +kernel) (by decide +kernel) hd⟩

end Converter

end SqlDialect
