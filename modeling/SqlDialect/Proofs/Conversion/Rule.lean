import SqlDialect.Conversion.Rule

set_option autoImplicit false

/-! # The chain of rules

How rules run one after the other, and what the rules of the chain are. A fact about all rules is
proved through `forall_conversionRules`, which asks for it once for the rules that change only the
text and once for each of the others. -/

namespace SqlDialect

/-! ## Running rules -/

theorem runRules_cons (r : Rule) (rs : List Rule) (d : Draft) :
    runRules (r :: rs) d = (r.run d).bind (runRules rs) :=
  rfl

theorem runRules_append (rs₁ rs₂ : List Rule) (d : Draft) :
    runRules (rs₁ ++ rs₂) d = (runRules rs₁ d).bind (runRules rs₂) :=
  List.foldlM_append

theorem Rule.run_of_notMem {r : Rule} {d : Draft} (h : d.kind ∉ r.kinds) : r.run d = .ok d := by
  rw [Rule.run, if_neg]
  simpa using h

theorem Rule.run_of_mem {r : Rule} {d : Draft} (h : d.kind ∈ r.kinds) : r.run d = r.apply d := by
  rw [Rule.run, if_pos]
  simpa using h

/-- Rules for other kinds leave a statement as it is. -/
theorem runRules_of_notMem {rs : List Rule} {d : Draft} (h : ∀ r ∈ rs, d.kind ∉ r.kinds) :
    runRules rs d = .ok d := by
  induction rs with
  | nil => rfl
  | cons r rs ih =>
    obtain ⟨hr, hrs⟩ := List.forall_mem_cons.1 h
    rw [runRules_cons, Rule.run_of_notMem hr]
    exact ih hrs

/-! ## The rules -/

/-- The rule that writes a sort column in quotes as a plain column. -/
def sortRule : Rule :=
  ⟨"order-by-literal", [.select], fun d =>
    (unquoteOrderByLiteral d.text d.literals).map fun text => { d with text }⟩

/-- What holds of the rules that change only the text, and of each of the others, holds of all. -/
theorem forall_conversionRules {P : Rule → Prop}
    (onText : ∀ name kinds f, P (.onText name kinds f))
    (patterns : P (.onLiterals "pattern-literals" Kind.exprKinds singleQuotePatterns))
    (zeroDates : P (.onLiterals "zero-date" Kind.rowKinds replaceZeroDates))
    (sortColumns : P sortRule)
    (showTables : P (.total "show-tables" [.other] Draft.showTables))
    (createTable : P (.total "create-table" [.createTable] Draft.createTable))
    (alterTable : P (.total "alter-table" [.alterTable] Draft.alterTable))
    (onDuplicate : P (.total "on-duplicate-key" [.insert] Draft.onDuplicate))
    (insertIgnore : P (.total "insert-ignore" [.insert] Draft.insertIgnore)) :
    ∀ r ∈ conversionRules, P r := by
  simp only [conversionRules, List.forall_mem_cons]
  exact ⟨onText _ _ _, showTables, createTable, alterTable, onText _ _ _, onText _ _ _,
    onText _ _ _, patterns, onText _ _ _, onText _ _ _, onText _ _ _, sortColumns, onText _ _ _,
    onText _ _ _, onText _ _ _, zeroDates, onDuplicate, insertIgnore, onText _ _ _, onText _ _ _,
    onText _ _ _, fun r hr => absurd hr List.not_mem_nil⟩

/-- The rules that run before the one of the given name. -/
def rulesBefore (name : String) : List Rule :=
  conversionRules.takeWhile (·.name != name)

/-- The rules that run after the one of the given name. -/
def rulesAfter (name : String) : List Rule :=
  (conversionRules.dropWhile (·.name != name)).drop 1

/-- The chain is cut at the rule for sort columns. -/
theorem conversionRules_at_sortRule :
    conversionRules = rulesBefore sortRule.name ++ sortRule :: rulesAfter sortRule.name :=
  rfl

/-- No other rule has the name of the one for sort columns. -/
theorem name_ne_of_mem {r : Rule}
    (hr : r ∈ rulesBefore sortRule.name ∨ r ∈ rulesAfter sortRule.name) :
    r.name ≠ sortRule.name := by
  have hnames : sortRule.name ∉
      (rulesBefore sortRule.name ++ rulesAfter sortRule.name).map Rule.name := by
    decide
  intro h
  apply hnames
  rw [List.mem_map]
  exact ⟨r, List.mem_append.2 hr, h⟩

/-! ## Kinds -/

/-- The kinds that are neither inserts nor table definitions. -/
def plainKinds : List Kind := [.other, .select, .replace, .update, .delete]

/-- A rule for another kind leaves statements of the plain kinds alone. -/
theorem Rule.run_total_of_plain {d : Draft} (hd : d.kind ∈ plainKinds) {k : Kind}
    (hk : k ∉ plainKinds) (name : String) (f : Draft → Draft) :
    (Rule.total name [k] f).run d = .ok d := by
  apply Rule.run_of_notMem
  intro hmem
  rw [List.mem_singleton.1 hmem] at hd
  exact hk hd

end SqlDialect
