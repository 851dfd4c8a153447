import SqlDialect.Proofs.Conversion.Faults
import SqlDialect.Proofs.Query.Marks
import SqlDialect.Proofs.Statement.InsertRead

set_option autoImplicit false

/-! # Names in quotes are texts to the rules

The first rule writes a name in backticks as a bare or double-quoted name, and the rules behind it look
at the text without minding the quotes. So the words in a quoted name can be taken for operators,
calls, clauses or names. Which names come out as they were rendered is known exactly: those in whose
query no rule finds anything (`Spared`). Whatever one rule changes is not changed back by another one
(`LeavesAlone.comp`), and where a rule fails the name keeps its backticks. -/

namespace SqlDialect

open Bytes

/-! ## Texts without literals -/

theorem exists_mapM_error {α β : Type} {f : α → Except Fault β} {as : List α}
    (h : ∃ a ∈ as, ∃ e, f a = .error e) : ∃ e, as.mapM f = .error e := by
  obtain ⟨a, ha, e, he⟩ := h
  induction as with
  | nil => exact absurd ha List.not_mem_nil
  | cons a' as ih =>
    rw [List.mapM_cons]
    cases hfirst : f a' with
    | error e' => exact ⟨e', rfl⟩
    | ok b =>
      rcases List.mem_cons.1 ha with rfl | ha
      · rw [he] at hfirst
        cases hfirst
      · obtain ⟨e', hrest⟩ := ih ha
        exact ⟨e', by rw [hrest]; rfl⟩

/-- Without literals, sorting by one is a fault. -/
theorem unquoteOrderByLiteral_nil {s : Bytes} (h : sortsByLiteral s = true) :
    ∃ f, unquoteOrderByLiteral s [] = .error f := by
  rw [sortsByLiteral, Option.any_eq_true] at h
  obtain ⟨m, hm, hitems⟩ := h
  obtain ⟨p, hp, hliteral⟩ := List.any_eq_true.1 hitems
  obtain ⟨k, hk⟩ := Option.isSome_iff_exists.1 hliteral
  obtain ⟨f, hf⟩ := exists_mapM_error (f := fun p => unquoteOrderItem [] p.core)
    ⟨p, hp, .sliceStart 1 0, by rw [unquoteOrderItem, hk]; simp only [lookup?_nil]⟩
  exact ⟨f, by simp only [unquoteOrderByLiteral, hm, hf]; rfl⟩

/-! ## The chain of rules -/

/-- No rule for queries finds anything in the text: not the modifier for row counts, no operator or call
that is written in another way, no sort key that is, no `LIMIT` with two operands, no count without a
name and no bare name that is quoted. -/
structure Spared (s : Bytes) : Prop where
  modifier : calcFoundRowsPattern.occursIn s = false
  like : likePattern.occursIn s = false
  notRegexp : notRegexpPattern.occursIn s = false
  regexp : regexpPattern.occursIn s = false
  substring : (callHead "SUBSTRING_INDEX").occursIn s = false
  timestamp : (emptyCall "UTC_TIMESTAMP").occursIn s = false
  ifnull : (callHead "IFNULL").occursIn s = false
  rand : (emptyCall "RAND").occursIn s = false
  instant : closesCall (callHead "UNIX_TIMESTAMP") s = false
  date : closesCall (callHead "DATE") (splitAtClause dateClauses s).2 = false
  sum : sortsBySum s = false
  literal : sortsByLiteral s = false
  limit : limitCommaPattern.occursIn s = false
  count : hasUnnamedCount s = false
  name : usesBareName s = false

/-- What the rules between the backticks and the sort columns make of a query. -/
def beforeSort (s : Bytes) : Bytes :=
  castOrderByPlusZero (castDateCalls (convertFunctions (regexpToTilde (likeToILike
    (stripCalcFoundRows s)))))

/-- What the rules behind the sort columns make of a query. -/
def afterSort (s : Bytes) : Bytes :=
  quoteBareIdentifiers (aliasCountsAndGroup (limitToOffset s))

theorem runRules_select_of_no_literals {d : Draft} (hk : d.kind = .select) (hlits : d.literals = []) :
    runRules conversionRules d
      = (unquoteOrderByLiteral (beforeSort (replaceBackticks d.text)) []).map
          fun s => { d with text := afterSort s } := by
  obtain ⟨lits, hlen, hbefore⟩ := runRules_before_sort hk
  obtain ⟨kind, text, literals, options, catalog, log⟩ := d
  obtain rfl : kind = .select := hk
  obtain rfl : literals = [] := hlits
  obtain rfl : lits = [] := List.eq_nil_of_length_eq_zero hlen
  have hafter : ∀ s, runRules (rulesAfter sortRule.name) ⟨.select, s, [], options, catalog, log⟩
      = .ok ⟨.select, afterSort s, [], options, catalog, log⟩ := by
    intro s
    have hdates : replaceZeroDates (aliasCountsAndGroup (limitToOffset s)) [] = [] :=
      replaceZeroDates_eq_self _ fun l hl => absurd hl List.not_mem_nil
    have hrun : runRules (rulesAfter sortRule.name) ⟨.select, s, [], options, catalog, log⟩
        = .ok ⟨.select, afterSort s, replaceZeroDates (aliasCountsAndGroup (limitToOffset s)) [],
            options, catalog, log⟩ := rfl
    rw [hrun, hdates]
  rw [conversionRules_at_sortRule, runRules_append, hbefore]
  show runRules (sortRule :: rulesAfter sortRule.name) _ = _
  rw [runRules_cons, Rule.run_of_mem (List.mem_singleton.2 rfl)]
  show ((unquoteOrderByLiteral (beforeSort (replaceBackticks text)) []).map _).bind _ = _
  cases unquoteOrderByLiteral (beforeSort (replaceBackticks text)) [] with
  | error f => rfl
  | ok s => exact hafter s

theorem plainOutput_of_no_literals (opts : TypeOptions) {sql : Bytes}
    (hkind : Kind.ofStatement sql = .select) (hshield : shield sql = (sql, [])) :
    Converter.plainOutput opts sql
      = match unquoteOrderByLiteral (beforeSort (replaceBackticks sql)) [] with
        | .ok s => afterSort s
        | .error _ => sql := by
  rw [Converter.plainOutput, Converter.settle, Converter.convertFresh, Converter.runRules, hshield,
    runRules_select_of_no_literals hkind rfl]
  dsimp only
  cases unquoteOrderByLiteral (beforeSort (replaceBackticks sql)) [] with
  | error f => rfl
  | ok s => exact restore_of_no_literals (afterSort s)

/-- **A query without literals comes through the rules as it is exactly if none of them finds anything
in it.** -/
theorem comes_through_iff {s : Bytes} :
    (∃ t, unquoteOrderByLiteral (beforeSort s) [] = .ok t ∧ afterSort t = s) ↔ Spared s := by
  have hbefore := ((((leavesAlone_stripCalcFoundRows.comp leavesAlone_likeToILike).comp
    leavesAlone_regexpToTilde).comp leavesAlone_convertFunctions).comp
    leavesAlone_castDateCalls).comp leavesAlone_castOrderByPlusZero
  have hafter := (leavesAlone_limitToOffset.comp leavesAlone_aliasCountsAndGroup).comp
    leavesAlone_quoteBareIdentifiers
  constructor
  · rintro ⟨t, hsort, hend⟩
    have hliteral : sortsByLiteral (beforeSort s) = false := by
      rw [Bool.eq_false_iff]
      intro hsorts
      obtain ⟨f, hf⟩ := unquoteOrderByLiteral_nil hsorts
      rw [hf] at hsort
      cases hsort
    rw [unquoteOrderByLiteral_of_sortsByLiteral_eq_false hliteral] at hsort
    obtain rfl := Except.ok.inj hsort
    obtain ⟨hfirst, hlast⟩ := (hbefore.comp hafter).eq_iff.1 hend
    rw [show beforeSort s = s from hbefore.eq s hfirst] at hliteral
    obtain ⟨⟨⟨⟨⟨hmodifier, hlike⟩, hnot, hregexp⟩, ⟨⟨⟨hsubstring, htimestamp⟩, hifnull⟩, hrand⟩,
      hinstant⟩, hdate⟩, hsum⟩ := hfirst
    obtain ⟨⟨hlimit, hcount⟩, hname⟩ := hlast
    exact ⟨hmodifier, hlike, hnot, hregexp, hsubstring, htimestamp, hifnull, hrand, hinstant, hdate,
      hsum, hliteral, hlimit, hcount, hname⟩
  · intro h
    have hfirst : beforeSort s = s := hbefore.eq s ⟨⟨⟨⟨⟨h.modifier, h.like⟩, h.notRegexp, h.regexp⟩,
      ⟨⟨⟨h.substring, h.timestamp⟩, h.ifnull⟩, h.rand⟩, h.instant⟩, h.date⟩, h.sum⟩
    refine ⟨s, ?_, hafter.eq s ⟨⟨h.limit, h.count⟩, h.name⟩⟩
    rw [hfirst, unquoteOrderByLiteral_of_sortsByLiteral_eq_false h.literal]

/-! ## Columns in backticks -/

/-- A query for one column of a table. -/
def columnQuery (column : Bytes) : Bytes :=
  ascii "SELECT " ++ (column ++ ascii " FROM t")

section

variable {name : Bytes}

/-- A name in backticks is no literal, whatever it holds, and is rendered by itself. -/
theorem unticks_inBackticks (h : backtick ∉ name) :
    Unticks (backtick :: (name ++ [backtick])) (quoteIdent name) where
  ofText s := by
    rw [List.cons_append, List.append_assoc, List.singleton_append, Shielding.ofText,
      if_neg (by decide), if_pos rfl, throughByte_of_notMem h]
  replaceBackticks s := by
    rw [List.cons_append, List.append_assoc, List.singleton_append, replaceBackticks_name h]

theorem unticks_columnQuery (h : backtick ∉ name) :
    Unticks (columnQuery (backtick :: (name ++ [backtick]))) (columnQuery (quoteIdent name)) :=
  (unticks_of_plain (by decide)).append ((unticks_inBackticks h).append (unticks_of_plain (by decide)))

theorem shield_of_unticks {a a' : Bytes} (h : Unticks a a') : shield a = (a, []) := by
  have hcut := h.ofText []
  rw [List.append_nil, Shielding.ofText] at hcut
  rw [shield, hcut]
  simp [Shielding.text, Shielding.literals, Shielding.keep, Shielding.numbered]

theorem replaceBackticks_of_unticks {a a' : Bytes} (h : Unticks a a') : replaceBackticks a = a' := by
  have hrender := h.replaceBackticks []
  rwa [List.append_nil, replaceBackticks_nil, List.append_nil] at hrender

theorem kind_columnQuery (h : backtick ∉ name) :
    Kind.ofStatement (columnQuery (backtick :: (name ++ [backtick]))) = .select := by
  have hword : IsWord (ascii "SELECT") := by decide
  have hquery : ∀ column, columnQuery column
      = ascii "SELECT" ++ 32 :: (column ++ ascii " FROM t") := fun _ => rfl
  rw [Kind.ofStatement, shield_of_unticks (unticks_columnQuery h), Kind.ofShielded, hquery]
  obtain ⟨a, ha, hskip⟩ := skipLeadingComments_blank_append (a := [])
    (fun b hb => absurd hb List.not_mem_nil) hword
    (32 :: (backtick :: (name ++ [backtick]) ++ ascii " FROM t"))
  rw [List.nil_append] at hskip
  rw [hskip, words_blank_append ha, words_word_append hword (by decide), List.take_succ_cons,
    List.map_cons]
  rfl

/-- No question for the row count holds a backtick. -/
theorem not_isLookup_columnQuery (h : backtick ∉ name) :
    ¬ Converter.IsLookup (columnQuery (backtick :: (name ++ [backtick]))) := by
  rintro ⟨-, hlookup⟩
  rw [shield_of_unticks (unticks_columnQuery h)] at hlookup
  obtain ⟨m, hm⟩ := Option.isSome_iff_exists.1 hlookup
  obtain ⟨c', hplaces, -⟩ := Pattern.places_of_findFrom? hm
  have hfree : backtick ∉ m.text := Pattern.notMem_of_leads (show _ = true by decide) hplaces.leads
    hplaces.takes (List.mem_singleton.2 rfl) (by decide)
  have hwhole := @Pattern.text_eq_of_whole [.blanks, .phrase ["SELECT", "FOUND_ROWS"], .blanks,
    .text "(", .blanks, .text ")", .blanks, .opt (.text ";"), .blanks] _ _ hm
  rw [hwhole] at hfree
  exact hfree (List.mem_append_right _ List.mem_cons_self)

/-- A rendered name starts with a quote or with a byte of the name. -/
theorem head?_quoteIdent (name : Bytes) :
    (quoteIdent name).head? = some doubleQuote ∨ quoteIdent name = name := by
  rw [quoteIdent]
  split
  · exact Or.inl rfl
  · split
    · exact Or.inl rfl
    · exact Or.inr rfl

theorem columnQuery_ne (h : backtick ∉ name) :
    columnQuery (backtick :: (name ++ [backtick])) ≠ columnQuery (quoteIdent name) := by
  intro heq
  have hcolumn := List.append_cancel_right (List.append_cancel_left heq)
  rcases head?_quoteIdent name with hquoted | hbare
  · rw [← hcolumn] at hquoted
    exact absurd (Option.some.inj hquoted) (by decide)
  · rw [hbare] at hcolumn
    exact h (hcolumn ▸ List.mem_cons_self)

end

variable {κ : Type} [Cache κ] [LawfulCache κ]

/-- **Which names the rules leave as they were rendered.** A query for a column whose name stands in
backticks is converted to the same query for the rendered name exactly if no rule finds anything in
that query, in whatever session, with whatever options and catalog, and after any steps. -/
theorem SessionPool.answer_columnQuery_iff (c : Converter κ) (size : Int)
    (sessions : List (Bytes × Session)) (steps : List PoolStep) (session : Bytes) {name : Bytes}
    (hname : backtick ∉ name) :
    (SessionPool.run ⟨c.withMemo size, sessions⟩ steps).answer
        (.convert session (columnQuery (backtick :: (name ++ [backtick]))))
      = .converted .select (columnQuery (quoteIdent name)) ↔
    Spared (columnQuery (quoteIdent name)) := by
  have hmemo : (SessionPool.run ⟨c.withMemo size, sessions⟩ steps).converter.MemoSound :=
    SessionPool.converter_run (fun _ hc session sql => hc.convert session sql) (fun _ hc _ => hc)
      (c.memoSound_withMemo size) steps
  have hunticks := unticks_columnQuery hname
  have hkind := kind_columnQuery hname
  have hinsert : Kind.ofStatement (columnQuery (backtick :: (name ++ [backtick]))) ≠ .insert := by
    rw [hkind]
    decide
  rw [SessionPool.answer_convert, hmemo.output_eq_plainOutput _ (not_isLookup_columnQuery hname)
    hinsert, hkind, plainOutput_of_no_literals _ hkind (shield_of_unticks hunticks),
    replaceBackticks_of_unticks hunticks, ← comes_through_iff]
  cases unquoteOrderByLiteral (beforeSort (columnQuery (quoteIdent name))) [] with
  | error f =>
    -- the statement is passed through with its backticks
    refine ⟨fun heq => ?_, fun ⟨s, hs, _⟩ => by cases hs⟩
    injection heq with hsame hquery
    exact absurd hquery (columnQuery_ne hname)
  | ok s =>
    refine ⟨fun heq => ?_, fun ⟨t, ht, hend⟩ => ?_⟩
    · injection heq with hsame hquery
      exact ⟨s, rfl, hquery⟩
    · obtain rfl := Except.ok.inj ht
      exact congrArg _ hend

/-- A name made of keywords, with a comma, parentheses and quotes. -/
def keywordName : Bytes :=
  ascii "select (\"x\"), y from t order by z"

/-- Such a name comes through: nothing that a rule looks for is in it. -/
theorem SessionPool.answer_columnQuery_keywords :
    backtick ∉ keywordName ∧
    (SessionPool.run ⟨({} : Converter).withMemo 2, []⟩ []).answer
        (.convert [] (columnQuery (backtick :: (keywordName ++ [backtick]))))
      = .converted .select (columnQuery (quoteIdent keywordName)) := by
  have hname : backtick ∉ keywordName := by decide +kernel
  have hspared : Spared (columnQuery (quoteIdent keywordName)) := by
    constructor <;> decide +kernel
  exact ⟨hname, (SessionPool.answer_columnQuery_iff {} 2 [] [] [] hname).2 hspared⟩

/-- The column `like` is renamed: the operator's rule looks between the quotes. -/
theorem SessionPool.answer_columnQuery_like :
    ascii "like" ≠ [] ∧ backtick ∉ ascii "like" ∧
    (SessionPool.run ⟨({} : Converter).withMemo 2, []⟩ []).answer
        (.convert [] (columnQuery (backtick :: (ascii "like" ++ [backtick]))))
      = .converted .select (ascii "SELECT \"ILIKE\" FROM t") ∧
    ascii "SELECT \"ILIKE\" FROM t" ≠ columnQuery (quoteIdent (ascii "like")) := by
  rw [columnQuery, columnQuery]
  repeat rw [ascii_ofList]
  decide +kernel

end SqlDialect
