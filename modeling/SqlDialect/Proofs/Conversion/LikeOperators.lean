import SqlDialect.Proofs.Conversion.Faults
import SqlDialect.Proofs.Query.LikeClauses
import SqlDialect.Proofs.Query.Upsert

set_option autoImplicit false

/-! # No LIKE is left

A statement that holds expressions is written without the word LIKE outside its literals
(`Converter.noLike`). The rule for the operator leaves none, and no rule behind it brings one about. Five
things have to be kept apart for this (`Draft.LikesApart`): the rule does not see an operator that
touches a literal, for the placeholder of the literal is a word (`Converter.like_touches_literal`); and a
name that a rule takes from a literal or from the catalog, or what stands behind a text that a rule
replaces, could bring the word about behind it. -/

namespace SqlDialect

open Bytes

/-! ## What is kept apart -/

/-- The text of a statement when the rule for LIKE is reached, unless it lists tables. -/
def Draft.textAtLike (d : Draft) : Bytes :=
  if d.kind = .select then stripCalcFoundRows (replaceBackticks d.text) else replaceBackticks d.text

/-- The literals of a query when the rule for sort columns is reached. -/
def literalsAtSort (s : Bytes) (lits : LiteralTable) : LiteralTable :=
  singleQuotePatterns (regexpToTilde (likeToILike (stripCalcFoundRows (replaceBackticks s)))) lits

/-- Nothing in the statement brings a LIKE about that is not converted. -/
structure Draft.LikesApart (d : Draft) : Prop where
  /-- No operator touches a literal. -/
  operators : OperatorsApart d.textAtLike
  /-- No sort column that is named in a literal is the word. -/
  columns : d.kind = .select →
    ∀ col ∈ sortColumns (textAtSort d.text) (literalsAtSort d.text d.literals), likeWord.Absent col
  /-- No word goes on behind the operands of a LIMIT that are exchanged. -/
  operands : d.kind = .select → ∀ t,
    unquoteOrderByLiteral (textAtSort d.text) (literalsAtSort d.text d.literals) = .ok t →
      OperandsApart t
  /-- No word goes on behind a reference to an inserted value. -/
  references : d.kind = .insert → likeWord.ReferencesApart (textAtUpsert d.text)
  /-- No column of a key is the word. -/
  keys : d.kind = .insert → ∀ table, ∀ key ∈ d.catalog.keys table, ∀ col ∈ key.columns,
    likeWord.Absent col

/-! ## What the rules write -/

theorem notWritten_like : likeWord.NotWritten where
  calls := by decide +kernel
  clauses := by decide +kernel
  bare := ⟨by decide, by decide⟩
  foreign := ⟨by decide, by decide⟩
  head := by decide

/-! ## Inserts -/

/-- The clause that returns rows ends an insert. -/
theorem absent_append_returningAll {b : Bytes} (h : likeWord.Absent b) (had : Bool) :
    likeWord.Absent (b ++ returningAll ++ semicolonIf had) :=
  h.insert (by decide) (absent_semicolonIf had).1 (Or.inr (by decide))

theorem absent_onDuplicate {d : Draft} (h : likeWord.Absent d.text)
    (hrefs : likeWord.ReferencesApart d.text)
    (hkeys : ∀ table, ∀ key ∈ d.catalog.keys table, ∀ col ∈ key.columns, likeWord.Absent col) :
    likeWord.Absent d.onDuplicate.text := by
  rw [Draft.onDuplicate]
  split
  · split
    · rename_i u hu
      obtain ⟨head, rest, htext, -, habsent⟩ := convertOnDuplicate?_parts hu
      obtain ⟨hhead, hrest⟩ := habsent _ notWritten_like h hrefs hkeys
      show likeWord.Absent u.text
      rw [htext]
      exact absent_append_returningAll
        (hhead.insert (r := ascii " ON CONFLICT") (by decide) hrest (Or.inr (by decide))) _
    · exact h
  · exact h

theorem absent_insertIgnore {d : Draft} (h : likeWord.Absent d.text) :
    likeWord.Absent d.insertIgnore.text := by
  rw [Draft.insertIgnore]
  cases hins : ignoringInsert? d.text with
  | none => exact h
  | some ins =>
    obtain ⟨head, htext, habsent⟩ := convertInsertIgnore_parts (Option.filter_eq_some_iff.1 hins).1
    have hnothing : likeWord.Absent (ascii " DO NOTHING") := Sought.absent_of_infixFree (by decide)
    show likeWord.Absent (convertInsertIgnore ins)
    rw [htext]
    exact absent_append_returningAll ((habsent _ notWritten_like h).insert (r := ascii " ON CONFLICT")
      (by decide) hnothing (Or.inr (by decide))) _

theorem absent_returning {s : Bytes} (h : likeWord.Absent s) :
    likeWord.Absent (if hasReturning s then s else appendReturning s) := by
  split
  · exact h
  · exact absent_append_returningAll h.trimStatementEnd _

/-! ## Replacements -/

namespace Pattern

theorem lastOutside_blanks1 : LastOutside blanks1 := by
  intro c c' h
  obtain ⟨t, hne, ht, htakes⟩ := leads_blanks1 h
  rw [htakes.prev]
  cases hlast : t.getLast? with
  | none => exact absurd (List.getLast?_eq_none_iff.1 hlast) hne
  | some x => exact (ascii_of_blank (ht x (List.mem_of_getLast? hlast))).2.2

/-- Words that may be missing, with blanks behind them. -/
theorem LastOutside.opt {l : List Pattern} (hl : (seqs l).LastOutside) (p : Pattern) :
    (seqs (l ++ [.opt (.seq p blanks1)])).LastOutside := by
  intro c c' h
  obtain ⟨c₁, hlead, hend⟩ := (leads_seqs_append l _).1 h
  obtain ⟨c₂, hopt, hnil⟩ := leads_seqs_cons.1 hend
  obtain rfl := leads_nothing.1 hnil
  rcases leads_alt.1 hopt with hwords | hnone
  · obtain ⟨c₃, -, hblanks⟩ := leads_seq.1 hwords
    exact lastOutside_blanks1 _ _ hblanks
  · obtain rfl := leads_nothing.1 hnone
    exact hl _ _ hlead

end Pattern

/-- The head of a replacement ends in blanks. -/
theorem lastOutside_replaceHead : replaceHeadPattern.LastOutside :=
  (Pattern.LastOutside.append Pattern.lastOutside_blanks1
    [.textStart, .group 1 .blanks, .keyword "REPLACE"]).opt (.keywords ["LOW_PRIORITY", "DELAYED"])
    |>.opt (.keyword "INTO")

theorem absent_overwriteClause {cols : List Bytes} (h : ∀ col ∈ cols, likeWord.Absent col) :
    likeWord.Absent (overwriteClause cols) := by
  rcases cols with _ | ⟨col, _ | ⟨col', cols⟩⟩
  · exact absent_of_notMem (by decide)
  · have hcol := Sought.absent_nil.insert (r := ascii " ON CONFLICT (") (by decide)
      (h col List.mem_cons_self) (Or.inl rfl)
    exact hcol.append (v := ascii ") DO NOTHING") (Sought.absent_of_infixFree (by decide))
      (Sought.apart_of_edge rfl (Or.inr rfl))
  · obtain ⟨hcol, hcols⟩ := List.forall_mem_cons.1 h
    have hopen := Sought.absent_nil.insert (r := ascii " ON CONFLICT (") (by decide) hcol (Or.inl rfl)
    refine hopen.insert (r := ascii ") DO UPDATE SET ") (by decide)
      (Sought.Absent.join (by decide) rfl fun set hset => ?_) (Or.inr (by decide))
    obtain ⟨c, hc, rfl⟩ := List.mem_map.1 hset
    exact (hcols c hc).insert (by decide) (hcols c hc) (Or.inr (by decide))

theorem absent_convertReplace {s t : Bytes} (h : likeWord.Absent s) (ht : convertReplace? s = some t) :
    likeWord.Absent t := by
  obtain ⟨m, hm, hrest⟩ := Option.bind_eq_some_iff.1 ht
  obtain ⟨ins, hins, heq⟩ := Option.bind_eq_some_iff.1 hrest
  have hbefore := Pattern.before_eq_nil hm
  obtain ⟨c', hplaces, -⟩ := Pattern.places_of_findFrom? hm
  have hlast : m.text.getLast?.any isWord = false := by
    have hprev := lastOutside_replaceHead _ _ hplaces.leads
    rwa [hplaces.takes.prev, hbefore, List.getLast?_nil, Option.or_none, Option.or_none] at hprev
  have hafter : likeWord.Absent m.after := by
    rw [← Pattern.text_of_find? hm, hbefore, List.nil_append] at h
    exact h.right (Or.inl (Or.inl hlast))
  have hlead : ∀ b ∈ m.group 1, isWord b = false := by
    refine Pattern.group_of_leads (P := fun t => ∀ b ∈ t, isWord b = false) (by simp)
      (fun q hq c c' t hleads htakes b hb => ?_) hm
    have hone : replaceHeadPattern.recordedAs 1 = [.blanks] := rfl
    rw [hone] at hq
    obtain rfl := List.mem_singleton.1 hq
    obtain ⟨bl, hbl, hblTakes⟩ := Pattern.leads_blanks hleads
    rw [htakes.unique hblTakes] at hb
    exact (ascii_of_blank (hbl b hb)).2.2
  have hhead : likeWord.Absent (m.group 1 ++ ascii "INSERT INTO " ++ m.after) :=
    (Sought.absent_of_not_isWord hlead).insert (by decide) hafter
      (Or.inl (any_isWord_eq_false fun x hx => hlead x (List.mem_of_getLast? hx)))
  obtain rfl := Option.some.inj heq
  have hclause := absent_overwriteClause (hhead.columns hins)
  refine absent_append_returningAll (hhead.trimStatementEnd.append hclause
    (Sought.apart_of_edge rfl (Or.inr ?_))) _
  rcases ins.columns with _ | ⟨col, _ | ⟨col', cols⟩⟩ <;> rfl

/-! ## The chain of rules -/

section

variable {d d' : Draft}

/-- What the rules make of a query. -/
theorem runRules_select (hk : d.kind = .select) (h : runRules conversionRules d = .ok d') :
    ∃ t, unquoteOrderByLiteral (textAtSort d.text) (literalsAtSort d.text d.literals) = .ok t ∧
      d'.text = quoteBareIdentifiers (aliasCountsAndGroup (limitToOffset t)) := by
  obtain ⟨kind, text, literals, options, catalog, log⟩ := d
  obtain rfl : kind = .select := hk
  have hbefore : runRules (rulesBefore sortRule.name) ⟨.select, text, literals, options, catalog, log⟩
      = .ok ⟨.select, textAtSort text, literalsAtSort text literals, options, catalog, log⟩ := rfl
  rw [conversionRules_at_sortRule, runRules_append, hbefore] at h
  replace h : ((sortRule.run ⟨.select, textAtSort text, literalsAtSort text literals, options, catalog,
      log⟩).bind (runRules (rulesAfter sortRule.name))) = .ok d' := h
  rw [Rule.run_of_mem (List.mem_singleton.2 rfl)] at h
  replace h : ((unquoteOrderByLiteral (textAtSort text) (literalsAtSort text literals)).map fun t =>
      (⟨.select, t, literalsAtSort text literals, options, catalog, log⟩ : Draft)).bind
        (runRules (rulesAfter sortRule.name)) = .ok d' := h
  cases hsort : unquoteOrderByLiteral (textAtSort text) (literalsAtSort text literals) with
  | error e =>
    rw [hsort] at h
    cases h
  | ok t =>
    rw [hsort] at h
    obtain rfl := Except.ok.inj h
    exact ⟨t, rfl, rfl⟩

/-- What the rules make of a change of rows. -/
theorem runRules_change (hk : d.kind = .update ∨ d.kind = .delete)
    (h : runRules conversionRules d = .ok d') :
    d'.text = quoteBareIdentifiers (stripFinalLimit (castDateCalls (textAtUpsert d.text))) := by
  obtain ⟨kind, text, literals, options, catalog, log⟩ := d
  rcases hk with rfl | rfl
  all_goals
    obtain rfl := Except.ok.inj h
    rfl

/-- What the rules make of a replacement. -/
theorem runRules_replace (hk : d.kind = .replace) (h : runRules conversionRules d = .ok d') :
    d'.text = quoteBareIdentifiers
      ((convertReplace? (textAtUpsert d.text)).getD (textAtUpsert d.text)) := by
  obtain ⟨kind, text, literals, options, catalog, log⟩ := d
  obtain rfl : kind = .replace := hk
  obtain rfl := Except.ok.inj h
  rfl

/-- What the rules make of a statement that is not classified. -/
theorem runRules_other (hk : d.kind = .other) (h : runRules conversionRules d = .ok d') :
    d'.text = quoteBareIdentifiers (regexpToTilde (likeToILike
      (d.mapText replaceBackticks).showTables.text)) := by
  have hcut : conversionRules = [.onText "backticks" Kind.all replaceBackticks,
      .total "show-tables" [.other] Draft.showTables] ++ conversionRules.drop 2 := rfl
  have hkind : (d.mapText replaceBackticks).showTables.kind = .other :=
    (d.mapText replaceBackticks).sameTables_showTables.1.trans hk
  have hfirst : runRules [.onText "backticks" Kind.all replaceBackticks,
      .total "show-tables" [.other] Draft.showTables] d
        = .ok (d.mapText replaceBackticks).showTables := by
    obtain ⟨kind, text, literals, options, catalog, log⟩ := d
    obtain rfl : kind = .other := hk
    rfl
  rw [hcut, runRules_append, hfirst] at h
  generalize (d.mapText replaceBackticks).showTables = d₁ at h hkind
  obtain ⟨kind, text, literals, options, catalog, log⟩ := d₁
  obtain rfl : kind = .other := hkind
  obtain rfl := Except.ok.inj h
  rfl

/-- What the rules make of an insert. -/
theorem runRules_insert (hk : d.kind = .insert) (h : runRules conversionRules d = .ok d') :
    ∃ lits, d'.text = quoteBareIdentifiers
      (let s := (Draft.onDuplicate { d with text := textAtUpsert d.text, literals := lits
        }).insertIgnore.text
      if hasReturning s then s else appendReturning s) := by
  obtain ⟨lits, hbefore⟩ := runRules_before_upsert hk
  have hrules : conversionRules = rulesBefore upsertRuleName ++
      .total upsertRuleName [.insert] Draft.onDuplicate :: rulesAfter upsertRuleName := rfl
  rw [hrules, runRules_append, hbefore] at h
  replace h : runRules (.total upsertRuleName [.insert] Draft.onDuplicate :: rulesAfter upsertRuleName)
      { d with text := textAtUpsert d.text, literals := lits } = .ok d' := h
  rw [runRules_cons, Rule.run_total_one, if_pos hk] at h
  replace h : runRules (rulesAfter upsertRuleName)
      (Draft.onDuplicate { d with text := textAtUpsert d.text, literals := lits }) = .ok d' := h
  have hkind : (Draft.onDuplicate { d with text := textAtUpsert d.text, literals := lits }).kind
      = .insert := (Draft.kind_onDuplicate _).trans hk
  rw [runRules_rulesAfter_upsert hkind] at h
  obtain rfl := Except.ok.inj h
  exact ⟨lits, rfl⟩

/-- No LIKE is left in what the rules make of a statement. -/
theorem absent_of_runRules (hk : d.kind ∈ Kind.exprKinds) (hapart : d.LikesApart)
    (h : runRules conversionRules d = .ok d') : likeWord.Absent d'.text := by
  have hcalls := notWritten_like.calls
  have hcasts : ∀ r ∈ castTexts, likeWord.Neutral r := by decide
  have hbare : ∀ {s : Bytes}, likeWord.Absent s → likeWord.Absent (quoteBareIdentifiers s) :=
    fun hs => hs.quoteBareIdentifiers notWritten_like.bare
  -- the rules behind the one for LIKE, as far as all kinds share them
  have hoperators : ∀ {s : Bytes}, OperatorsApart s →
      likeWord.Absent (convertFunctions (regexpToTilde (likeToILike s))) := fun hs =>
    ((absent_likeToILike hs).regexpToTilde hcalls).convertFunctions hcalls notWritten_like.foreign
  have hupsert : d.kind ≠ .select → likeWord.Absent (textAtUpsert d.text) := fun hne =>
    hoperators (by simpa only [Draft.textAtLike, if_neg hne] using hapart.operators)
  have hkinds : d.kind = .other ∨ d.kind = .select ∨ d.kind = .insert ∨ d.kind = .replace ∨
      d.kind = .update ∨ d.kind = .delete := by
    simpa [Kind.exprKinds, Kind.rowKinds] using hk
  rcases hkinds with hother | hselect | hinsert | hreplace | hchange
  · have hne : d.kind ≠ .select := by simp [hother]
    have hops : OperatorsApart (replaceBackticks d.text) := by
      simpa only [Draft.textAtLike, if_neg hne] using hapart.operators
    rw [runRules_other hother h]
    refine hbare ((absent_likeToILike ?_).regexpToTilde hcalls)
    rw [Draft.showTables]
    cases htables : convertShowTables? (d.mapText replaceBackticks).text
      (d.mapText replaceBackticks).literals with
    | none => exact hops
    | some p => exact operatorsApart_showTables htables
  · obtain ⟨t, hsort, htext⟩ := runRules_select hselect h
    have hops : OperatorsApart (stripCalcFoundRows (replaceBackticks d.text)) := by
      simpa only [Draft.textAtLike, if_pos hselect] using hapart.operators
    have hcast : likeWord.Absent (textAtSort d.text) :=
      ((hoperators hops).castDateCalls hcasts rfl).castOrderByPlusZero hcasts rfl (by decide)
    have hsorted := absent_unquoteOrderByLiteral hsort hcast (hapart.columns hselect)
    rw [htext]
    exact hbare (absent_aliasCountsAndGroup
      (absent_limitToOffset hsorted (hapart.operands hselect t hsort)))
  · obtain ⟨lits, htext⟩ := runRules_insert hinsert h
    rw [htext]
    have hdone := absent_onDuplicate (d := { d with text := textAtUpsert d.text, literals := lits })
      (hupsert (by simp [hinsert])) (hapart.references hinsert) (hapart.keys hinsert)
    exact hbare (absent_returning (absent_insertIgnore hdone))
  · rw [runRules_replace hreplace h]
    have hwritten := hupsert (by simp [hreplace])
    refine hbare ?_
    cases hrow : convertReplace? (textAtUpsert d.text) with
    | none => exact hwritten
    | some t => exact absent_convertReplace hwritten hrow
  · rw [runRules_change hchange h]
    have hwritten := hupsert (by rcases hchange with hk | hk <;> simp [hk])
    exact hbare (absent_stripFinalLimit (hwritten.castDateCalls hcasts rfl))

end

/-! ## Statements -/

namespace Converter

variable {κ : Type} [Cache κ] [LawfulCache κ]

/-- **No LIKE is left.** Take a statement that may hold expressions, does not ask for the row count, and
holds nothing that brings a LIKE about unseen. Where the rules do not fail, the word LIKE stands nowhere
by itself in what they make of the statement, in any letter case, the literals aside; and with a sound
store that text, with its literals put back, is the answer. The rules do not fail on ordinary text. -/
theorem noLike (c : Converter κ) (session : Option Session) {sql : Bytes}
    (hkind : Kind.ofStatement sql ∈ Kind.exprKinds) (hlookup : ¬ IsLookup sql)
    (hapart : (c.draft sql).LikesApart) :
    (∀ d, c.attempt session sql = .ok d → likeWord.Absent d.text ∧
      (c.MemoSound → (c.convert session sql).output = d.result)) ∧
    (Unmarked sql →
      (Kind.ofStatement sql = .select → ModifiersApart (replaceBackticks (shield sql).1)) →
      sql.length < int64Limit → ∃ d, c.attempt session sql = .ok d) := by
  have hrun : ∀ session, c.attempt session sql = SqlDialect.runRules conversionRules (c.draft sql) := by
    intro session
    rw [attempt, ruleInput, if_neg hlookup]
    rfl
  refine ⟨fun d hd => ⟨?_, fun hmemo => hmemo.output_of_attempt hd⟩, fun hsql hdrops hlen => ?_⟩
  · rw [hrun] at hd
    exact absent_of_runRules hkind hapart hd
  · obtain ⟨d, hd⟩ := c.exists_attempt none hsql unmarked_nil
      ⟨by rwa [ruleInput, if_neg hlookup], fun h => absurd h hlookup⟩ hlen (by decide)
    exact ⟨d, by rwa [hrun] at hd ⊢⟩

/-- A query that looks for a pattern, sorts by a literal and has a limit. -/
def patternQuery : Bytes :=
  ascii "SELECT a FROM t WHERE b LIKE 'x' ORDER BY 'c' LIMIT 1,2"

/-- How the query is read: its operator stands apart from the literal, and the column that the other
literal names is added to the select list. -/
theorem read_patternQuery :
    let d := draft ({} : Converter) patternQuery
    (Kind.ofStatement patternQuery = .select ∧ ¬ IsLookup patternQuery ∧ Unmarked patternQuery ∧
      ModifiersApart (replaceBackticks (shield patternQuery).1)) ∧
    d.kind = .select ∧
    d.textAtLike = ascii "SELECT a FROM t WHERE b " ++ ascii "LIKE "
      ++ ascii "__pglit0__ ORDER BY __pglit1__ LIMIT 1,2" ∧
    sortColumns (textAtSort d.text) (literalsAtSort d.text d.literals) = [ascii "c"] ∧
    (unquoteOrderByLiteral (textAtSort d.text) (literalsAtSort d.text d.literals)).toOption
      = some (ascii "SELECT a, c FROM t WHERE b ILIKE __pglit0__ ORDER BY c LIMIT 1,2") ∧
    OperandsApart (ascii "SELECT a, c FROM t WHERE b ILIKE __pglit0__ ORDER BY c LIMIT 1,2") := by
  have hchars : patternQuery = _ := ascii_ofList _
  rw [hchars]
  repeat rw [ascii_ofList]
  decide +kernel

theorem likesApart_patternQuery : (draft ({} : Converter) patternQuery).LikesApart := by
  obtain ⟨-, hkind, htext, hcolumns, hsorted, hoperands⟩ := read_patternQuery
  exact
    { operators := by
        have hhead : likeWord.Absent (ascii "SELECT a FROM t WHERE b ") := absent_of_notMem (by decide)
        have htail : likeWord.Absent (ascii "__pglit0__ ORDER BY __pglit1__ LIMIT 1,2") :=
          absent_of_notMem (by decide)
        rw [htext]
        exact (hhead.operatorsApart.append operatorsApart_like rfl).append htail.operatorsApart rfl
      columns := fun _ col hcol => by
        rw [hcolumns] at hcol
        obtain rfl := List.mem_singleton.1 hcol
        exact absent_of_notMem (by decide)
      operands := fun _ t ht => by
        rw [ht] at hsorted
        obtain rfl := Option.some.inj hsorted
        exact hoperands
      references := fun h => Kind.noConfusion (hkind.symm.trans h)
      keys := fun h => Kind.noConfusion (hkind.symm.trans h) }

/-- The query is written with ILIKE. -/
theorem noLike_patternQuery :
    ∃ d, attempt ({} : Converter) none patternQuery = .ok d ∧ likeWord.Absent d.text ∧
      (convert ({} : Converter) none patternQuery).output = d.result := by
  obtain ⟨⟨hkind, hlookup, hsql, hmodifiers⟩, -⟩ := read_patternQuery
  obtain ⟨hall, hok⟩ := noLike ({} : Converter) none (by rw [hkind]; decide) hlookup
    likesApart_patternQuery
  obtain ⟨d, hd⟩ := hok hsql (fun _ => hmodifiers) (by decide)
  exact ⟨d, hd, (hall d hd).1, (hall d hd).2 (memoSound_of_memo_eq_none rfl)⟩

/-- An operator that touches its pattern. -/
def touchingQuery : Bytes :=
  ascii "SELECT a FROM t WHERE b LIKE'x'"

/-- The rule does not see the operator, and the query stays as it is. -/
theorem like_touches_literal :
    Kind.ofStatement touchingQuery = .select ∧ 96 ∉ touchingQuery ∧ ¬ IsLookup touchingQuery ∧
      ∃ d, attempt ({} : Converter) none touchingQuery = .ok d ∧ ¬ likeWord.Absent d.text ∧
        (convert ({} : Converter) none touchingQuery).output = touchingQuery := by
  refine ⟨by decide +kernel, by decide, by decide +kernel, ?_⟩
  have hrun : (attempt ({} : Converter) none touchingQuery).toOption.map (fun d => (d.text, d.result))
      = some (ascii "SELECT a FROM t WHERE b " ++ ascii "LIKE" ++ (marker ++ ascii "0" ++ markerEnd),
          touchingQuery) := by
    have hchars : touchingQuery = _ := ascii_ofList _
    rw [hchars]
    repeat rw [ascii_ofList]
    decide +kernel
  cases hd : attempt ({} : Converter) none touchingQuery with
  | error e =>
    rw [hd] at hrun
    cases hrun
  | ok d =>
    rw [hd] at hrun
    obtain ⟨htext, hresult⟩ := Prod.mk.inj (Option.some.inj hrun)
    have hout := (convert_of_attempt hd (Or.inr (by decide +kernel))).1
    refine ⟨d, rfl, fun h => ?_, hout.trans hresult⟩
    exact h _ _ _ htext
      { reads := by decide
        left := Or.inl rfl
        right := Or.inr ⟨rfl, _, ⟨ascii "0", by decide, by decide, rfl⟩, List.prefix_refl _⟩
        led := Sought.led_of_none rfl _ }

end Converter

end SqlDialect
