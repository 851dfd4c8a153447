import SqlDialect.Proofs.Conversion.Literals
import SqlDialect.Proofs.Conversion.Sessions
import SqlDialect.Proofs.Identifier.Names
import SqlDialect.Proofs.Pattern.Complete
import SqlDialect.Proofs.Statement.Cut

set_option autoImplicit false

/-! # Statements that no rule changes

A rule that finds nothing to change gives back its text byte for byte, however it cuts the text and
puts it together again. For most rules this is what their pattern not occurring in the text says.
Two rules search only behind a clause: what they would find there occurs in the whole text too
(`occursIn_append_left`). So a statement in which none of the patterns of the rules for its kind occurs
passes through the whole chain, and comes back with its literals. -/

namespace SqlDialect

open Bytes

/-! ## Rules that find nothing -/

namespace Pattern

variable {p : Pattern} {s : Bytes}

theorem find?_of_absent (h : p.occursIn s = false) : p.find? s = none :=
  Option.isNone_iff_eq_none.1 (Option.isSome_eq_false_iff.1 h)

theorem all_of_absent (h : p.occursIn s = false) : p.all s = [] := by
  have hnone : p.findFrom? 0 none s = none := find?_of_absent h
  rw [all, allFrom, hnone]

theorem replaceWith_of_absent (h : p.occursIn s = false) (f : Match → Bytes) :
    p.replaceWith f s = s := by
  rw [replaceWith, all_of_absent h]
  rfl

theorem replace_of_absent (h : p.occursIn s = false) (new : Bytes) : p.replace new s = s :=
  replaceWith_of_absent h _

end Pattern

/-- Whether the first call whose head the pattern matches is closed. -/
def closesCall (head : Pattern) (s : Bytes) : Bool :=
  (head.find? s).any fun m => (splitParen? m.after).isSome

theorem mapCalls_of_closesCall_eq_false {head : Pattern} {s : Bytes} (h : closesCall head s = false)
    (f : Bytes → Bytes) : mapCalls head f s = s := by
  rw [mapCalls]
  split
  · rfl
  · rename_i m hm
    rw [closesCall, hm, Option.any_some] at h
    split
    · rfl
    · rename_i arg rest hp
      rw [hp] at h
      cases h

theorem mapCalls_of_absent {head : Pattern} {s : Bytes} (h : head.occursIn s = false)
    (f : Bytes → Bytes) : mapCalls head f s = s :=
  mapCalls_of_closesCall_eq_false (by rw [closesCall, Pattern.find?_of_absent h]; rfl) f

theorem singleQuotePatterns_of_absent {s : Bytes} (h : patternOperand.occursIn s = false)
    (lits : LiteralTable) : singleQuotePatterns s lits = lits := by
  rw [singleQuotePatterns, Pattern.all_of_absent h]
  rfl

theorem quoteBareIdentifiers_of_absent {s : Bytes} (h : bareNamePattern.occursIn s = false) :
    quoteBareIdentifiers s = s := by
  rw [quoteBareIdentifiers, Pattern.all_of_absent h]
  rfl

/-! ## Calls of DATE -/

theorem startsAscii_callHead {name : String} (hname : Pattern.AsciiHead name) :
    (callHead name).StartsAscii := by
  intro c c' h
  obtain ⟨c₁, hedge, h₁⟩ := Pattern.leads_seqs_cons.1 h
  obtain ⟨rfl, -⟩ := Pattern.leads_wordEdge.1 hedge
  obtain ⟨c₂, hkey, -⟩ := Pattern.leads_seqs_cons.1 h₁
  exact Pattern.leads_keyword_head hname hkey

/-- A clause starts outside words, so the calls found from there on are calls of the whole text. -/
theorem castDateCalls_of_absent {s : Bytes} (h : (callHead "DATE").occursIn s = false) :
    castDateCalls s = s := by
  rw [castDateCalls_eq]
  rcases splitAtClause_cases (fun p hp => (dateClauses_start p hp).1) s with
    hcut | ⟨p, hp, m, c', hplaces, hs, hcut⟩
  · rw [hcut]
    dsimp only
    rw [mapCalls_of_absent (by decide), List.append_nil]
  · have hedge := (dateClauses_start p hp).2 _ _ hplaces.leads
    rw [Option.or_none] at hedge
    have habsent : (callHead "DATE").occursIn (m.text ++ m.after) = false := by
      rw [Bool.eq_false_iff]
      intro hoccurs
      have hwhole := Pattern.occursIn_append_of_startFree
        (startsAscii_callHead (by decide)) (by decide) hedge hoccurs
      rw [← List.append_assoc, ← hs, h] at hwhole
      cases hwhole
    rw [hcut]
    dsimp only
    rw [mapCalls_of_absent habsent, hs, List.append_assoc]

/-! ## Sorting by a sum -/

theorem startsAscii_plusZero : plusZeroPattern.StartsAscii := by
  intro c c' h
  obtain ⟨c₁, hgroup, -⟩ := Pattern.leads_seqs_cons.1 h
  obtain ⟨c₂, hmany, -⟩ := Pattern.leads_group.1 hgroup
  obtain ⟨c₃, hone, -⟩ := Pattern.leads_seq.1 hmany
  obtain ⟨b, hb, -, htakes, -⟩ := Pattern.leads_one_ascii (by decide) hone
  exact ⟨b, c₃.rest, htakes.rest, hb⟩

/-- What stands in front of a sum does not matter to it. -/
theorem leads_plusZero_of_rest {c c' d : Pattern.Cursor} (h : Pattern.Leads plusZeroPattern c c')
    (hrest : d.rest = c.rest) : ∃ d', Pattern.Leads plusZeroPattern d d' := by
  obtain ⟨c₁, hgroup, htail⟩ := Pattern.leads_seqs_cons.1 h
  obtain ⟨c₂, hmany, rfl⟩ := Pattern.leads_group.1 hgroup
  obtain ⟨c₃, hone, hmore⟩ := Pattern.leads_seq.1 hmany
  obtain ⟨d₃, hone', hsame₃⟩ := Pattern.leads_one_of_rest hone hrest
  obtain ⟨d₂, hmore', hsame₂⟩ := hmore.samePlace hsame₃
  obtain ⟨d', htail', -⟩ := htail.samePlace (hsame₂.record 1 c d)
  exact ⟨d', Pattern.leads_seqs_cons.2 ⟨_, .group (.seq hone' hmore'), htail'⟩⟩

theorem castOrderByPlusZero_of_absent {s : Bytes} (h : plusZeroPattern.occursIn s = false) :
    castOrderByPlusZero s = s := by
  rw [castOrderByPlusZero]
  cases hfind : findTop? Clause.orderByPattern s with
  | none => rfl
  | some m =>
    obtain ⟨hs, -⟩ := Pattern.places_of_findTop?
      (Pattern.consumes_wholePhrase (by decide) _) hfind
    have habsent : plusZeroPattern.occursIn m.after = false := by
      rw [Bool.eq_false_iff]
      intro hoccurs
      have hwhole := Pattern.occursIn_append_left startsAscii_plusZero (a := m.before ++ m.text)
        (fun ⟨c', hc'⟩ => leads_plusZero_of_rest hc' rfl) hoccurs
      rw [← hs, h] at hwhole
      cases hwhole
    dsimp only
    rw [Pattern.replaceWith_of_absent habsent, ← hs]

/-! ## Counts -/

/-- Whether an item of the select list starts with a call of COUNT. -/
def hasCountItem (s : Bytes) : Bool :=
  (SelectParts.ofText? s).any fun p => (items p.list).any fun q => countHead.occursIn q.core

/-- Whether an item of the select list is a count that gets a name. -/
def hasUnnamedCount (s : Bytes) : Bool :=
  (SelectParts.ofText? s).any fun p => (items p.list).any fun q => isUnnamedCount q.core

theorem aliasCountsAndGroup_of_hasUnnamedCount_eq_false {s : Bytes} (h : hasUnnamedCount s = false) :
    aliasCountsAndGroup s = s := by
  rw [aliasCountsAndGroup]
  cases hparts : SelectParts.ofText? s with
  | none => rfl
  | some p =>
    rw [hasUnnamedCount, hparts, Option.any_some] at h
    simp only [h]
    rfl

theorem aliasCountsAndGroup_of_absent {s : Bytes} (h : hasCountItem s = false) :
    aliasCountsAndGroup s = s := by
  apply aliasCountsAndGroup_of_hasUnnamedCount_eq_false
  rw [hasUnnamedCount]
  cases hparts : SelectParts.ofText? s with
  | none => rfl
  | some p =>
    rw [hasCountItem, hparts, Option.any_some, List.any_eq_false] at h
    rw [Option.any_some, List.any_eq_false]
    intro q hq
    have hhead := Pattern.find?_of_absent (Bool.eq_false_iff.2 (h q hq))
    rw [isUnnamedCount, isCountCall, hhead, Bool.and_false]
    exact Bool.false_ne_true

/-! ## Zero dates -/

theorem Literal.withoutZeroDate_eq_self {l : Literal}
    (h : l.quote = singleQuote → ¬ l.IsZeroDate) : l.withoutZeroDate = l := by
  by_cases hquote : l.quote = singleQuote
  · exact withoutZeroDate_of_plain l hquote (h hquote)
  · rw [withoutZeroDate, if_pos (by simpa using hquote)]

/-- Putting a literal back in its place changes nothing. -/
theorem LiteralTable.replace_of_lookup? {t : LiteralTable} {token : Bytes} {l : Literal}
    (h : t.lookup? token = some l) : t.replace token l = t := by
  obtain ⟨n, hn, hget⟩ := Option.bind_eq_some_iff.1 h
  obtain ⟨hlt, rfl⟩ := List.getElem?_eq_some_iff.1 hget
  rw [replace, hn]
  exact List.set_getElem_self hlt

theorem replaceZeroDates_eq_self (s : Bytes) {lits : LiteralTable}
    (h : ∀ l ∈ lits, l.quote = singleQuote → ¬ l.IsZeroDate) : replaceZeroDates s lits = lits := by
  rw [replaceZeroDates]
  induction exactLiteralToken.all s with
  | nil => rfl
  | cons m ms ih =>
    rw [List.foldl_cons]
    cases hl : lits.lookup? m.text with
    | none => exact ih
    | some l =>
      obtain ⟨n, -, hget⟩ := Option.bind_eq_some_iff.1 hl
      dsimp only
      rw [Literal.withoutZeroDate_eq_self (h l (List.mem_of_getElem? hget)),
        LiteralTable.replace_of_lookup? hl]
      exact ih

/-! ## The chain -/

/-- The kinds that may pass through: neither inserts nor table definitions. -/
def passingKinds : List Kind := [.other, .select, .update, .delete]

/-- The heads of the calls that are written in another way. -/
def callPatterns : List Pattern :=
  [callHead "SUBSTRING_INDEX", emptyCall "UTC_TIMESTAMP", callHead "IFNULL", emptyCall "RAND",
    callHead "UNIX_TIMESTAMP"]

/-- The patterns that the rules search the text for, by the kinds of statements. -/
def rulePatterns : List (List Kind × List Pattern) :=
  [([.other], [showTablesPattern]),
    ([.select], [calcFoundRowsPattern, plusZeroPattern, limitCommaPattern]),
    ([.update, .delete], [finalLimitPattern]),
    ([.select, .update, .delete], [callHead "DATE"]),
    (Kind.rowKinds, callPatterns),
    (Kind.exprKinds,
      [likePattern, notRegexpPattern, regexpPattern, patternOperand, bareNamePattern])]

/-- No rule for statements of the kind finds anything to change. -/
structure Untouched (kind : Kind) (s : Bytes) (lits : LiteralTable) : Prop where
  backtick : backtick ∉ s
  absent : ∀ e ∈ rulePatterns, kind ∈ e.1 → ∀ p ∈ e.2, p.occursIn s = false
  sorts : kind = .select → sortsByLiteral s = false
  counts : kind = .select → hasCountItem s = false
  dates : kind ∈ Kind.rowKinds → ∀ l ∈ lits, l.quote = singleQuote → ¬ l.IsZeroDate

theorem convertFunctions_of_absent {s : Bytes} (h : ∀ p ∈ callPatterns, p.occursIn s = false) :
    convertFunctions s = s := by
  simp only [callPatterns, List.forall_mem_cons] at h
  obtain ⟨hsubstring, htimestamp, hifnull, hrand, hunix, -⟩ := h
  rw [convertFunctions, Pattern.replace_of_absent hsubstring, Pattern.replace_of_absent htimestamp,
    Pattern.replace_of_absent hifnull, Pattern.replace_of_absent hrand, mapCalls_of_absent hunix]

theorem regexpToTilde_of_absent {s : Bytes} (hnot : notRegexpPattern.occursIn s = false)
    (h : regexpPattern.occursIn s = false) : regexpToTilde s = s := by
  rw [regexpToTilde, Pattern.replace_of_absent hnot, Pattern.replace_of_absent h]

theorem showTables_of_absent {d : Draft} (h : showTablesPattern.occursIn d.text = false) :
    d.showTables = d := by
  rw [Draft.showTables, convertShowTables?, Pattern.find?_of_absent h]
  rfl

theorem runRules_eq_ok {rs : List Rule} {d : Draft} (h : ∀ r ∈ rs, r.run d = .ok d) :
    runRules rs d = .ok d := by
  induction rs with
  | nil => rfl
  | cons r rs ih =>
    obtain ⟨hr, hrs⟩ := List.forall_mem_cons.1 h
    rw [runRules_cons, hr]
    exact ih hrs

section

variable {d : Draft} {kinds : List Kind} {name : String}

theorem Rule.run_of_apply {r : Rule} (h : d.kind ∈ r.kinds → r.apply d = .ok d) :
    r.run d = .ok d := by
  by_cases hkind : d.kind ∈ r.kinds
  · rw [Rule.run_of_mem hkind, h hkind]
  · exact Rule.run_of_notMem hkind

theorem Rule.run_onText_of_eq {f : Bytes → Bytes} (h : d.kind ∈ kinds → f d.text = d.text) :
    (Rule.onText name kinds f).run d = .ok d := by
  refine Rule.run_of_apply fun hkind => ?_
  show Except.ok { d with text := f d.text } = Except.ok d
  rw [h hkind]

theorem Rule.run_onLiterals_of_eq {f : Bytes → LiteralTable → LiteralTable}
    (h : d.kind ∈ kinds → f d.text d.literals = d.literals) :
    (Rule.onLiterals name kinds f).run d = .ok d := by
  refine Rule.run_of_apply fun hkind => ?_
  show Except.ok { d with literals := f d.text d.literals } = Except.ok d
  rw [h hkind]

/-- Each rule gives back a statement in which it finds nothing. -/
theorem run_of_untouched (hkind : d.kind ∈ passingKinds)
    (h : Untouched d.kind d.text d.literals) : ∀ r ∈ conversionRules, r.run d = .ok d := by
  have habsent := h.absent
  simp only [rulePatterns, List.forall_mem_cons] at habsent
  obtain ⟨hother, hselect, hlimit, hdate, hcalls, hexpr, -⟩ := habsent
  have hforeign : ∀ (k : Kind) (r : Rule), k ∉ passingKinds → r.kinds = [k] →
      r.run d = .ok d := by
    intro k r hk hr
    apply Rule.run_of_notMem
    rw [hr, List.mem_singleton]
    exact fun hmem => hk (hmem ▸ hkind)
  -- a rule is for other kinds, or the pattern it looks for does not occur
  simp only [conversionRules, List.forall_mem_cons]
  refine ⟨?backticks, ?showTables, hforeign .createTable _ (by decide) rfl,
    hforeign .alterTable _ (by decide) rfl, ?calcFoundRows, ?like, ?regexp, ?patterns, ?functions,
    ?dates, ?plusZero, ?sortColumns, ?limitComma, ?finalLimit, ?counts, ?zeroDates,
    hforeign .insert _ (by decide) rfl, hforeign .insert _ (by decide) rfl,
    hforeign .replace _ (by decide) rfl, hforeign .insert _ (by decide) rfl, ?bareNames,
    fun r hr => absurd hr List.not_mem_nil⟩
  case backticks => exact Rule.run_onText_of_eq fun _ => replaceBackticks_of_notMem h.backtick
  case showTables =>
    exact Rule.run_of_apply fun hk => congrArg Except.ok (showTables_of_absent (hother hk).1)
  case calcFoundRows =>
    exact Rule.run_onText_of_eq fun hk => Pattern.replace_of_absent (hselect hk).1 _
  case like => exact Rule.run_onText_of_eq fun hk => Pattern.replace_of_absent (hexpr hk).1 _
  case regexp =>
    exact Rule.run_onText_of_eq fun hk =>
      regexpToTilde_of_absent (hexpr hk).2.1 (hexpr hk).2.2.1
  case patterns =>
    exact Rule.run_onLiterals_of_eq fun hk =>
      singleQuotePatterns_of_absent (hexpr hk).2.2.2.1 d.literals
  case functions => exact Rule.run_onText_of_eq fun hk => convertFunctions_of_absent (hcalls hk)
  case dates => exact Rule.run_onText_of_eq fun hk => castDateCalls_of_absent (hdate hk).1
  case plusZero =>
    exact Rule.run_onText_of_eq fun hk => castOrderByPlusZero_of_absent (hselect hk).2.1
  case sortColumns =>
    refine Rule.run_of_apply fun hk => ?_
    dsimp only
    rw [unquoteOrderByLiteral_of_sortsByLiteral_eq_false (h.sorts (List.mem_singleton.1 hk))]
    rfl
  case limitComma =>
    exact Rule.run_onText_of_eq fun hk => Pattern.replaceWith_of_absent (hselect hk).2.2.1 _
  case finalLimit =>
    exact Rule.run_onText_of_eq fun hk => Pattern.replaceWith_of_absent (hlimit hk).1 _
  case counts =>
    exact Rule.run_onText_of_eq fun hk =>
      aliasCountsAndGroup_of_absent (h.counts (List.mem_singleton.1 hk))
  case zeroDates =>
    exact Rule.run_onLiterals_of_eq fun hk => replaceZeroDates_eq_self d.text (h.dates hk)
  case bareNames =>
    exact Rule.run_onText_of_eq fun hk => quoteBareIdentifiers_of_absent (hexpr hk).2.2.2.2.1

end

/-! ## Passing through -/

theorem plainOutput_of_untouched (opts : TypeOptions) {sql : Bytes}
    (hkind : Kind.ofStatement sql ∈ passingKinds)
    (h : Untouched (Kind.ofStatement sql) (shield sql).1 (shield sql).2) :
    Converter.plainOutput opts sql = restore (shield sql).1 (shield sql).2 := by
  have hrun := runRules_eq_ok (run_of_untouched
    (d := ({ options := opts } : Converter).draft sql) hkind h)
  rw [Converter.plainOutput, Converter.settle, Converter.convertFresh, Converter.runRules]
  rw [Converter.draft] at hrun
  rw [hrun]
  rfl

variable {κ : Type} [Cache κ] [LawfulCache κ]

/-- **Statements in which no rule finds anything pass through byte for byte**, whatever the options,
the catalog and the store are, if the store finds only what was added, in every session and after any steps. -/
theorem SessionPool.answer_of_untouched (c : Converter κ) (size : Int)
    (sessions : List (Bytes × Session)) (steps : List PoolStep) (name sql : Bytes)
    (hkind : Kind.ofStatement sql ∈ passingKinds) (hlookup : ¬ Converter.IsLookup sql)
    (hround : restore (shield sql).1 (shield sql).2 = sql)
    (hsql : Untouched (Kind.ofStatement sql) (shield sql).1 (shield sql).2) :
    (SessionPool.run ⟨c.withMemo size, sessions⟩ steps).answer (.convert name sql)
      = .converted (Kind.ofStatement sql) sql := by
  have hmemo : (SessionPool.run ⟨c.withMemo size, sessions⟩ steps).converter.MemoSound :=
    SessionPool.converter_run (fun _ hc session sql => hc.convert session sql) (fun _ hc _ => hc)
      (c.memoSound_withMemo size) steps
  have hinsert : Kind.ofStatement sql ≠ .insert := by
    intro hins
    rw [hins] at hkind
    exact absurd hkind (by decide)
  rw [SessionPool.answer_convert, hmemo.output_eq_plainOutput _ hlookup hinsert,
    plainOutput_of_untouched _ hkind hsql, hround]

/-- A query with a literal and a limit passes through, also when it is stored. -/
theorem SessionPool.answer_of_untouched_query :
    let sql := ascii "SELECT a FROM t WHERE b = 'x' LIMIT 1"
    let steps := [PoolStep.convert [] sql]
    (Kind.ofStatement sql ∈ passingKinds ∧ ¬ Converter.IsLookup sql ∧
      restore (shield sql).1 (shield sql).2 = sql ∧
      Untouched (Kind.ofStatement sql) (shield sql).1 (shield sql).2) ∧
    (SessionPool.run ⟨({} : Converter).withMemo 2, []⟩ steps).answer (.convert (ascii "s") sql)
      = .converted (Kind.ofStatement sql) sql := by
  intro sql steps
  have hkind : Kind.ofStatement sql ∈ passingKinds := by decide +kernel
  have hlookup : ¬ Converter.IsLookup sql := by decide +kernel
  have hround : restore (shield sql).1 (shield sql).2 = sql := by decide +kernel
  have hsql : Untouched (Kind.ofStatement sql) (shield sql).1 (shield sql).2 :=
    ⟨by decide +kernel, by decide +kernel, by decide +kernel, by decide +kernel, by decide +kernel⟩
  exact ⟨⟨hkind, hlookup, hround, hsql⟩,
    SessionPool.answer_of_untouched {} 2 [] steps (ascii "s") sql hkind hlookup hround hsql⟩

end SqlDialect
