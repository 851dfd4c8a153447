import SqlDialect.Conversion.Converter
import SqlDialect.Proofs.Conversion.Rule

set_option autoImplicit false

/-! # Literal contents do not steer the conversion

A rule is *blind* on a text if it never looks at a literal to decide what to write: whatever the
literals are, it ends with the same text, and it changes each literal by a function of that literal
and its number. Blind steps compose, so a chain of rules is blind if each of its rules is.

All rules are blind but those for inserts and table definitions, which compare names in literals,
and the one that writes `ORDER BY 'column'` as `ORDER BY column`. The latter is blind on texts that
sort by no literal, and for the kinds that no other such rule is for this makes the whole conversion
blind. -/

namespace SqlDialect

/-! ## Changes of literals -/

/-- The literal is exactly a zero date. -/
def Literal.IsZeroDate (l : Literal) : Prop :=
  l.body = ascii "0000-00-00" ∨ l.body = ascii "0000-00-00 00:00:00"

instance (l : Literal) : Decidable l.IsZeroDate :=
  inferInstanceAs (Decidable (_ ∨ _))

/-- A change of literals, by their numbers, that leaves single-quoted ones alone unless they are
zero dates. -/
def KeepsPlain (f : Nat → Literal → Literal) : Prop :=
  ∀ i l, l.quote = singleQuote → ¬ l.IsZeroDate → f i l = l

theorem keepsPlain_id : KeepsPlain fun _ l => l :=
  fun _ _ _ _ => rfl

theorem KeepsPlain.comp {f g : Nat → Literal → Literal} (hg : KeepsPlain g) (hf : KeepsPlain f) :
    KeepsPlain fun i l => g i (f i l) := by
  intro i l hquote hzero
  show g i (f i l) = l
  rw [hf i l hquote hzero, hg i l hquote hzero]

theorem mapIdx_id (t : LiteralTable) : t.mapIdx (fun _ l => l) = t := by
  apply List.ext_getElem?
  intro i
  simp

/-- Changing the literal behind a token, if there is one, changes one number of the table. -/
theorem LiteralTable.replace_lookup (t : LiteralTable) (token : Bytes) (g : Literal → Literal) :
    (match t.lookup? token with
      | some l => t.replace token (g l)
      | none => t)
      = t.mapIdx fun i l => if placeholderIndex? token = some i then g l else l := by
  cases hn : placeholderIndex? token with
  | none => simp [LiteralTable.lookup?, hn, mapIdx_id]
  | some n =>
    simp only [LiteralTable.lookup?, LiteralTable.replace, hn, Option.bind_some]
    apply List.ext_getElem?
    intro i
    rw [List.getElem?_mapIdx]
    -- a token beyond the end of the table changes nothing on either side
    by_cases hni : n = i
    · subst hni
      cases hl : t[n]? with
      | none => simp [hl]
      | some l => simp [(List.getElem?_eq_some_iff.1 hl).1]
    · cases t[n]? with
      | none => simp [hni]
      | some l => simp [hni]

/-- Changes one after the other are one change. -/
theorem foldl_mapIdx {α : Type} (g : α → Nat → Literal → Literal) (as : List α)
    (t : LiteralTable) :
    as.foldl (fun t a => List.mapIdx (g a) t) t
      = t.mapIdx fun i l => as.foldl (fun l a => g a i l) l := by
  induction as generalizing t with
  | nil => exact (mapIdx_id t).symm
  | cons a as ih =>
    rw [List.foldl_cons, ih, List.mapIdx_mapIdx]
    rfl

theorem keepsPlain_foldl {α : Type} {g : α → Nat → Literal → Literal}
    (hg : ∀ a, KeepsPlain (g a)) (as : List α) :
    KeepsPlain fun i l => as.foldl (fun l a => g a i l) l := by
  intro i l hquote hzero
  induction as with
  | nil => rfl
  | cons a as ih =>
    show as.foldl (fun l a => g a i l) (g a i l) = l
    rw [hg a i l hquote hzero]
    exact ih

/-- A function on literals that leaves plain single-quoted ones alone does so on one number. -/
theorem keepsPlain_at {g : Literal → Literal}
    (hg : ∀ l, l.quote = singleQuote → ¬ l.IsZeroDate → g l = l) (token : Bytes) :
    KeepsPlain fun i l => if placeholderIndex? token = some i then g l else l := by
  intro i l hquote hzero
  show (if placeholderIndex? token = some i then g l else l) = l
  rw [hg l hquote hzero, ite_self]

/-- The literal between single quotes, if it is between double quotes. -/
def Literal.unDoubled (l : Literal) : Literal :=
  if l.quote = doubleQuote then l.toSingleQuoted else l

theorem LiteralTable.singleQuote_eq_mapIdx (t : LiteralTable) (token : Bytes) :
    t.singleQuote token
      = t.mapIdx fun i l => if placeholderIndex? token = some i then l.unDoubled else l := by
  rw [← LiteralTable.replace_lookup t token Literal.unDoubled, LiteralTable.singleQuote]
  cases hl : t.lookup? token with
  | none => rfl
  | some l =>
    show (if l.quote = doubleQuote then t.replace token l.toSingleQuoted else t)
      = t.replace token l.unDoubled
    rw [Literal.unDoubled]
    split
    · rfl
    · -- putting a literal back in its place changes nothing
      obtain ⟨n, hn, hget⟩ := Option.bind_eq_some_iff.1 hl
      obtain ⟨hlt, hval⟩ := List.getElem?_eq_some_iff.1 hget
      rw [LiteralTable.replace, hn]
      show t = t.set n l
      rw [← hval, List.set_getElem_self]

theorem unDoubled_of_singleQuote (l : Literal) (hquote : l.quote = singleQuote)
    (_ : ¬ l.IsZeroDate) : l.unDoubled = l := by
  rw [Literal.unDoubled, if_neg]
  rw [hquote]
  decide

theorem withoutZeroDate_of_plain (l : Literal) (hquote : l.quote = singleQuote)
    (hzero : ¬ l.IsZeroDate) : l.withoutZeroDate = l := by
  obtain ⟨hdate, htime⟩ := not_or.1 hzero
  rw [Literal.withoutZeroDate, if_neg (by simp [hquote]), if_neg htime, if_neg hdate]

theorem singleQuotePatterns_eq_mapIdx (s : Bytes) :
    ∃ f, KeepsPlain f ∧ ∀ t, singleQuotePatterns s t = t.mapIdx f := by
  refine ⟨_, keepsPlain_foldl (fun m : Match =>
    keepsPlain_at unDoubled_of_singleQuote (m.group 1)) (patternOperand.all s), fun t => ?_⟩
  rw [← foldl_mapIdx, singleQuotePatterns]
  simp only [LiteralTable.singleQuote_eq_mapIdx]

theorem replaceZeroDates_eq_mapIdx (s : Bytes) :
    ∃ f, KeepsPlain f ∧ ∀ t, replaceZeroDates s t = t.mapIdx f := by
  refine ⟨_, keepsPlain_foldl (fun m : Match =>
    keepsPlain_at withoutZeroDate_of_plain m.text) (exactLiteralToken.all s), fun t => ?_⟩
  rw [← foldl_mapIdx, replaceZeroDates]
  congr 1
  funext t m
  exact LiteralTable.replace_lookup t m.text Literal.withoutZeroDate

/-! ## Blind steps -/

/-- On statements of kind `k` with the text `s` the step looks at no literal: it always ends with
the text `s'` and changes literal number `i` by `f i`. It changes nothing else. -/
def Blind (step : Draft → Except Fault Draft) (k : Kind) (s s' : Bytes)
    (f : Nat → Literal → Literal) : Prop :=
  ∀ d : Draft, d.kind = k → d.text = s →
    step d = .ok { d with text := s', literals := d.literals.mapIdx f }

/-- The step is blind on statements of kind `k` with the text `s`, and keeps plain literals. -/
def LiteralBlind (step : Draft → Except Fault Draft) (k : Kind) (s : Bytes) : Prop :=
  ∃ s' f, KeepsPlain f ∧ Blind step k s s' f

theorem Blind.andThen {step₁ step₂ : Draft → Except Fault Draft} {k : Kind} {s s' s'' : Bytes}
    {f g : Nat → Literal → Literal} (h₁ : Blind step₁ k s s' f) (h₂ : Blind step₂ k s' s'' g) :
    Blind (fun d => (step₁ d).bind step₂) k s s'' fun i l => g i (f i l) := by
  intro d hk hs
  have h := h₂ { d with text := s', literals := d.literals.mapIdx f } hk rfl
  rw [List.mapIdx_mapIdx] at h
  show (step₁ d).bind step₂ = _
  rw [h₁ d hk hs]
  exact h

/-- A step that leaves statements of kind `k` with the text `s` alone. -/
theorem blind_of_eq_ok {step : Draft → Except Fault Draft} {k : Kind} {s : Bytes}
    (h : ∀ d : Draft, d.kind = k → d.text = s → step d = .ok d) :
    Blind step k s s fun _ l => l := by
  intro d hk hs
  rw [h d hk hs, mapIdx_id, ← hs]

theorem literalBlind_of_eq_ok {step : Draft → Except Fault Draft} {k : Kind} {s : Bytes}
    (h : ∀ d : Draft, d.kind = k → d.text = s → step d = .ok d) : LiteralBlind step k s :=
  ⟨s, _, keepsPlain_id, blind_of_eq_ok h⟩

/-- A rule is blind on statements of other kinds, and on its own if what it does is blind. -/
theorem literalBlind_run {r : Rule} {k : Kind} {s : Bytes}
    (h : k ∈ r.kinds → LiteralBlind r.apply k s) : LiteralBlind r.run k s := by
  by_cases hk : k ∈ r.kinds
  · obtain ⟨s', f, hf, hblind⟩ := h hk
    refine ⟨s', f, hf, fun d hd hs => ?_⟩
    rw [Rule.run_of_mem (by rwa [hd])]
    exact hblind d hd hs
  · exact literalBlind_of_eq_ok fun d hd _ => Rule.run_of_notMem (by rwa [hd])

theorem literalBlind_onText (name : String) (kinds : List Kind) (g : Bytes → Bytes) (k : Kind)
    (s : Bytes) : LiteralBlind (Rule.onText name kinds g).run k s := by
  apply literalBlind_run
  intro _
  refine ⟨g s, _, keepsPlain_id, fun d _ hs => ?_⟩
  rw [mapIdx_id, ← hs]
  rfl

theorem literalBlind_onLiterals (name : String) (kinds : List Kind)
    {g : Bytes → LiteralTable → LiteralTable}
    (hg : ∀ s, ∃ f, KeepsPlain f ∧ ∀ t, g s t = t.mapIdx f) (k : Kind) (s : Bytes) :
    LiteralBlind (Rule.onLiterals name kinds g).run k s := by
  apply literalBlind_run
  intro _
  obtain ⟨f, hf, heq⟩ := hg s
  refine ⟨s, f, hf, fun d _ hs => ?_⟩
  rw [← heq, ← hs]
  rfl

/-- The conversion of SHOW TABLES takes the pattern's literal along without looking at it. -/
theorem literalBlind_showTables (k : Kind) (s : Bytes) :
    LiteralBlind (fun d => .ok d.showTables) k s := by
  cases hm : showTablesPattern.find? s with
  | none =>
    apply literalBlind_of_eq_ok
    rintro d _ rfl
    simp [Draft.showTables, convertShowTables?, hm]
  | some m =>
    cases hg : m.group? 1 with
    | none =>
      refine ⟨tablesQuery ++ m.group 2, _, keepsPlain_id, ?_⟩
      rintro d _ rfl
      simp [Draft.showTables, convertShowTables?, hm, hg, mapIdx_id]
    | some token =>
      refine ⟨tablesQuery ++ ascii " AND tablename LIKE " ++ token ++ m.group 2, _,
        keepsPlain_at unDoubled_of_singleQuote token, ?_⟩
      rintro d _ rfl
      simp [Draft.showTables, convertShowTables?, hm, hg, LiteralTable.singleQuote_eq_mapIdx]

/-! ## Sorting by literals -/

/-- Whether an item of the text's ORDER BY, outside parentheses, is a lone literal. -/
def sortsByLiteral (s : Bytes) : Bool :=
  (findTop? Clause.orderByPattern s).any fun m =>
    (items (splitAtClause Clause.afterOrder m.after).1).any fun p =>
      literalOrderItem.occursIn p.core

theorem unquoteOrderItem_of_not_literal {item : Bytes}
    (h : literalOrderItem.occursIn item = false) (lits : LiteralTable) :
    unquoteOrderItem lits item = .ok { text := item } := by
  rw [Pattern.occursIn, Option.isSome_eq_false_iff, Option.isNone_iff_eq_none] at h
  rw [unquoteOrderItem, h]

theorem mapM_eq_ok_map {α β : Type} {f : α → Except Fault β} {g : α → β} {as : List α}
    (h : ∀ a ∈ as, f a = .ok (g a)) : as.mapM f = .ok (as.map g) := by
  induction as with
  | nil => rfl
  | cons a as ih =>
    rw [List.forall_mem_cons] at h
    rw [List.mapM_cons, h.1, ih h.2]
    rfl

/-- A text that sorts by no literal is left alone, whatever the literals are. -/
theorem unquoteOrderByLiteral_of_sortsByLiteral_eq_false {s : Bytes} (h : sortsByLiteral s = false)
    (lits : LiteralTable) : unquoteOrderByLiteral s lits = .ok s := by
  rw [unquoteOrderByLiteral]
  cases hm : findTop? Clause.orderByPattern s with
  | none => rfl
  | some m =>
    have hitems : ∀ p ∈ items (splitAtClause Clause.afterOrder m.after).1,
        unquoteOrderItem lits p.core = .ok { text := p.core } := by
      intro p hp
      apply unquoteOrderItem_of_not_literal
      rw [sortsByLiteral, hm, Option.any_some, List.any_eq_false] at h
      simpa using h p hp
    -- no item was unquoted, so there is no column to add
    have hnone : ∀ ps : List Spaced,
        (ps.map fun p => ({ text := p.core } : OrderItem)).filterMap OrderItem.column = [] := by
      intro ps
      simp
    simp only [mapM_eq_ok_map hitems, bind, Except.bind, hnone]
    rfl

/-! ## The chain of rules -/

/-- A chain of rules is blind if each of its rules is, on every text. -/
theorem literalBlind_runRules {rs : List Rule} {k : Kind}
    (h : ∀ r ∈ rs, ∀ s, LiteralBlind r.run k s) (s : Bytes) : LiteralBlind (runRules rs) k s := by
  induction rs generalizing s with
  | nil => exact literalBlind_of_eq_ok fun d _ _ => rfl
  | cons r rs ih =>
    rw [List.forall_mem_cons] at h
    obtain ⟨s', f, hf, hr⟩ := h.1 s
    obtain ⟨s'', g, hg, hrs⟩ := ih h.2 s'
    exact ⟨s'', _, hg.comp hf, hr.andThen hrs⟩

/-- For the plain kinds every rule but the one for sort columns is blind. -/
theorem literalBlind_of_mem {k : Kind} (hk : k ∈ plainKinds) :
    ∀ r ∈ conversionRules, r.name ≠ sortRule.name → ∀ s, LiteralBlind r.run k s := by
  have hskip : ∀ (k' : Kind) (name : String) (f : Draft → Draft), k' ∉ plainKinds →
      ∀ s, LiteralBlind (Rule.total name [k'] f).run k s := by
    intro k' name f hk' s
    apply literalBlind_of_eq_ok
    rintro d rfl _
    exact Rule.run_total_of_plain hk hk' name f
  apply forall_conversionRules
  case onText => exact fun name kinds f _ => literalBlind_onText name kinds f k
  case patterns => exact fun _ => literalBlind_onLiterals _ _ singleQuotePatterns_eq_mapIdx k
  case zeroDates => exact fun _ => literalBlind_onLiterals _ _ replaceZeroDates_eq_mapIdx k
  case sortColumns => exact fun h => absurd rfl h
  case showTables => exact fun _ s => literalBlind_run fun _ => literalBlind_showTables k s
  case createTable => exact fun _ => hskip _ _ _ (by decide)
  case alterTable => exact fun _ => hskip _ _ _ (by decide)
  case onDuplicate => exact fun _ => hskip _ _ _ (by decide)
  case insertIgnore => exact fun _ => hskip _ _ _ (by decide)

/-- The rule for sort columns is blind on texts that sort by no literal. -/
theorem literalBlind_sortRule {k : Kind} {s : Bytes}
    (hs : k = .select → sortsByLiteral s = false) : LiteralBlind sortRule.run k s := by
  apply literalBlind_run
  intro hmem
  have hsort := hs (List.mem_singleton.1 hmem)
  apply literalBlind_of_eq_ok
  rintro d _ rfl
  show (unquoteOrderByLiteral d.text d.literals).map _ = _
  rw [unquoteOrderByLiteral_of_sortsByLiteral_eq_false hsort]
  rfl

/-- The whole chain is blind on a statement that does not sort by a literal when the rule for sort
columns is reached. -/
theorem literalBlind_conversionRules {k : Kind} (hk : k ∈ plainKinds) {s : Bytes}
    (hsort : k = .select → ∃ d₀ : Draft, d₀.kind = k ∧ d₀.text = s ∧
      ∀ d, runRules (rulesBefore sortRule.name) d₀ = .ok d → sortsByLiteral d.text = false) :
    LiteralBlind (runRules conversionRules) k s := by
  have hmem := literalBlind_of_mem hk
  rw [conversionRules_at_sortRule, List.forall_mem_append, List.forall_mem_cons] at hmem
  obtain ⟨hbefore, _, hafter⟩ := hmem
  obtain ⟨s₁, f₁, hf₁, h₁⟩ :=
    literalBlind_runRules (fun r hr => hbefore r hr (name_ne_of_mem (Or.inl hr))) s
  have hs₁ : k = .select → sortsByLiteral s₁ = false := by
    intro hselect
    obtain ⟨d₀, hd₀, hs, hno⟩ := hsort hselect
    exact hno _ (h₁ d₀ hd₀ hs)
  -- the rule for sort columns is the only one whose blindness depends on the text it is given
  obtain ⟨s₂, f₂, hf₂, h₂⟩ := literalBlind_sortRule hs₁
  obtain ⟨s₃, f₃, hf₃, h₃⟩ :=
    literalBlind_runRules (fun r hr => hafter r hr (name_ne_of_mem (Or.inr hr))) s₂
  refine ⟨s₃, _, (hf₃.comp hf₂).comp hf₁, ?_⟩
  rw [conversionRules_at_sortRule]
  intro d hd hs
  rw [runRules_append]
  exact h₁.andThen (h₂.andThen h₃) d hd hs

/-! ## The conversion -/

variable {κ : Type}

/-- The statement as the rules of the converter get it. -/
def Converter.draft (c : Converter κ) (sql : Bytes) : Draft :=
  { kind := Kind.ofStatement sql
    text := (shield sql).1
    literals := (shield sql).2
    options := c.options
    catalog := c.catalog }

/-- The statements whose literals no rule looks at: those of the kinds OTHER, UPDATE, DELETE and
REPLACE, and the queries that ask for no row count and sort by no literal when the rule for sort
columns is reached. -/
def Converter.TextDriven (c : Converter κ) (sql : Bytes) : Prop :=
  Kind.ofStatement sql ∈ [Kind.other, .update, .delete, .replace] ∨
    Kind.ofStatement sql = .select ∧ isFoundRowsLookup (shield sql).1 = false ∧
      ∀ d, SqlDialect.runRules (rulesBefore sortRule.name) (c.draft sql) = .ok d →
        sortsByLiteral d.text = false

theorem Converter.TextDriven.literalBlind {c : Converter κ} {sql : Bytes} (h : c.TextDriven sql) :
    LiteralBlind (SqlDialect.runRules conversionRules) (Kind.ofStatement sql) (shield sql).1 := by
  rcases h with hk | ⟨hk, _, hsort⟩
  · apply literalBlind_conversionRules
    · revert hk
      cases Kind.ofStatement sql <;> decide
    · intro hselect
      rw [hselect] at hk
      exact absurd hk (by decide)
  · apply literalBlind_conversionRules
    · rw [hk]
      decide
    · exact fun _ => ⟨c.draft sql, rfl, rfl, hsort⟩

/-- **Literal contents never steer the conversion.** Of all statements with the shielded text of
`sql`, `sql` itself among them, the rules make the same text, and each literal becomes what a
function of its number and of nothing but itself makes of it. Text and function are the same for all
options and catalogs. A single-quoted literal that is no zero date stays as it is. -/
theorem runRules_ignores_literals (c : Converter κ) (sql : Bytes) (hsql : c.TextDriven sql) :
    ∃ (text : Bytes) (f : Nat → Literal → Literal),
      (∀ (c' : Converter κ) (other : Bytes), (shield other).1 = (shield sql).1 →
        ∃ d, c'.runRules (Kind.ofStatement other) (shield other).1 (shield other).2 = .ok d ∧
          d.text = text ∧ d.literals = (shield other).2.mapIdx f) ∧
      ∀ i l, l.quote = singleQuote →
        l.body ≠ ascii "0000-00-00" → l.body ≠ ascii "0000-00-00 00:00:00" → f i l = l := by
  obtain ⟨text, f, hf, hblind⟩ := hsql.literalBlind
  refine ⟨text, f, ?_, ?_⟩
  · intro c' other hsame
    have hkind : Kind.ofStatement other = Kind.ofStatement sql :=
      congrArg Kind.ofShielded hsame
    exact ⟨{ c'.draft other with text, literals := (shield other).2.mapIdx f },
      hblind (c'.draft other) hkind hsame, rfl, rfl⟩
  · intro i l hquote hdate htime
    exact hf i l hquote (not_or.2 ⟨hdate, htime⟩)

/-- A literal that reads like a clause takes no part in sorting. -/
theorem runRules_ignores_literals_order_by :
    ({} : Converter).TextDriven (ascii "SELECT a FROM t WHERE b = 'ORDER BY' ORDER BY a") ∧
      ∃ (text : Bytes) (f : Nat → Literal → Literal),
        (∀ (c' : Converter) (other : Bytes),
          (shield other).1 = (shield (ascii "SELECT a FROM t WHERE b = 'ORDER BY' ORDER BY a")).1 →
          ∃ d, c'.runRules (Kind.ofStatement other) (shield other).1 (shield other).2
              = .ok d ∧ d.text = text ∧ d.literals = (shield other).2.mapIdx f) ∧
        ∀ i l, l.quote = singleQuote →
          l.body ≠ ascii "0000-00-00" → l.body ≠ ascii "0000-00-00 00:00:00" → f i l = l := by
  have hsql : ({} : Converter).TextDriven
      (ascii "SELECT a FROM t WHERE b = 'ORDER BY' ORDER BY a") := by
    refine Or.inr ⟨by decide +kernel, by decide +kernel, fun d hd => ?_⟩
    have htext : ((runRules (rulesBefore sortRule.name) (({} : Converter).draft
        (ascii "SELECT a FROM t WHERE b = 'ORDER BY' ORDER BY a"))).toOption.map Draft.text).all
          (fun s => !sortsByLiteral s) = true := by
      decide +kernel
    rw [hd] at htext
    simpa [Except.toOption] using htext
  exact ⟨hsql, runRules_ignores_literals {} _ hsql⟩

end SqlDialect
