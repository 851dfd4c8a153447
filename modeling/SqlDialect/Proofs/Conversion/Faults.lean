import SqlDialect.Proofs.Checked.Conversion
import SqlDialect.Proofs.Conversion.Keys
import SqlDialect.Proofs.Conversion.Literals
import SqlDialect.Proofs.Conversion.Memo
import SqlDialect.Proofs.Query.Settled

set_option autoImplicit false

/-! # Conversions without fault

Of all accesses that a conversion makes by place (`SqlDialect.Checked.convert`), one can be out of
range: the content of the literal is cut out behind a sort item that reads as a placeholder but
stands for no literal. The statement is then passed through as it is. On a settled text no sort item
is such a stretch, and the rules keep texts settled. So a statement whose text outside its literals
holds no start of a placeholder is converted without fault, and so is the count of such a last
query, unless dropping the modifier of a query joins the two halves of a placeholder. -/

namespace SqlDialect

open Bytes

/-! ## Sort items -/

/-- What the pattern of placeholders takes. -/
theorem leads_literalToken {c c' : Pattern.Cursor} (h : Pattern.Leads literalToken c c') :
    ∃ t ds, c.Takes t c' ∧ t.head? = some 95 ∧ ds ≠ [] ∧ (∀ b ∈ ds, isDigit b = true) ∧
      t.map lowerByte = marker ++ ds ++ markerEnd := by
  obtain ⟨c₁, hkey, h₁⟩ := Pattern.leads_seqs_cons.1 h
  obtain ⟨c₂, hdigits, h₂⟩ := Pattern.leads_seqs_cons.1 h₁
  obtain ⟨c₃, hend, hnil⟩ := Pattern.leads_seqs_cons.1 h₂
  obtain rfl := Pattern.leads_nothing.1 hnil
  obtain ⟨w, hw, hlower⟩ := Pattern.leads_keyword_ascii (by decide) hkey
  obtain ⟨ds, hne, hds, htakes⟩ := Pattern.leads_many1_ascii (by decide) hdigits
  have hdigit : ∀ b ∈ ds, isDigit b = true ∧ lowerByte b = b := by
    intro b hb
    have hset := hds b hb
    rw [contains_digit] at hset
    exact ⟨hset, lowerByte_of_isDigit hset⟩
  refine ⟨w ++ ds ++ markerEnd, ds, (hw.trans htakes).trans (Pattern.leads_text (by decide) hend),
    ?_, hne, fun b hb => (hdigit b hb).1, ?_⟩
  · cases w with
    | nil => exact absurd hlower (by decide)
    | cons x w => exact congrArg some (lowerByte_eq_underscore.1 (List.cons.inj hlower).1)
  · have hsame : ds.map lowerByte = ds :=
      (List.map_congr_left fun b hb => (hdigit b hb).2).trans (List.map_id' ds)
    rw [List.map_append, List.map_append, hlower, hsame]
    rfl

/-- What the pattern of sort items that are lone placeholders takes and records. -/
theorem leads_literalOrderItem {c c' : Pattern.Cursor} (h : Pattern.Leads literalOrderItem c c') :
    c.prev = none ∧ ∃ t ds rest, c.Takes (t ++ rest) c' ∧ t.head? = some 95 ∧ ds ≠ [] ∧
      (∀ b ∈ ds, isDigit b = true) ∧ t.map lowerByte = marker ++ ds ++ markerEnd ∧
      (c.taken = 0 → c.groups = [] →
        (c'.groups.map fun g => (g.number, g.text c.rest)).lookup 1 = some t) := by
  obtain ⟨c₁, hstart, h₁⟩ := Pattern.leads_seqs_cons.1 h
  obtain ⟨rfl, hprev⟩ : c₁ = c ∧ c.prev = none := by
    cases hstart with
    | textStart hprev => exact ⟨rfl, hprev⟩
  obtain ⟨c₂, hgroup, h₂⟩ := Pattern.leads_seqs_cons.1 h₁
  obtain ⟨d, htoken, rfl⟩ := Pattern.leads_group.1 hgroup
  obtain ⟨t, ds, htakes, hhead, hne, hds, hlower⟩ := leads_literalToken htoken
  obtain ⟨rest, hrest⟩ := h₂.takes
  refine ⟨hprev, t, ds, rest, (htakes.record 1 _).trans hrest, hhead, hne, hds, hlower, ?_⟩
  intro htaken hnone
  have hd : (d.record 1 c₁).groups = [⟨1, c₁.taken, d.taken - c₁.taken⟩] := by
    rw [Pattern.Cursor.record, htoken.groups_eq (by decide), hnone]
  have htext := Pattern.text_recorded htaken (.refl c₁) htakes 1
  obtain ⟨c₃, hopt, h₃⟩ := Pattern.leads_seqs_cons.1 h₂
  obtain ⟨c₄, hend, hnil⟩ := Pattern.leads_seqs_cons.1 h₃
  obtain rfl := Pattern.leads_nothing.1 hnil
  rw [hend.groups_eq (by decide)]
  rcases Pattern.leads_alt.1 hopt with hdir | hnone
  · -- the direction is recorded in front of the token
    obtain ⟨e, hwords, rfl⟩ := Pattern.leads_group.1 hdir
    rw [Pattern.Cursor.record, hwords.groups_eq (by decide), hd, List.map_cons, List.map_singleton,
      htext]
    rfl
  · obtain rfl := Pattern.leads_nothing.1 hnone
    rw [hd, List.map_singleton, htext]
    rfl

/-- A lone placeholder among the sort items of a settled text has its literal. -/
theorem unquoteOrderItem_ok {lits : LiteralTable} (hlits : lits.length ≤ int64Limit)
    {a item b : Bytes} {prev : Option UInt8} (h : Settled false lits.length prev (a ++ item ++ b))
    (hstart : (a.getLast?.or prev).any isWord = true → item.head? ≠ some 95) :
    ∃ o, unquoteOrderItem lits item = .ok o := by
  rw [unquoteOrderItem]
  cases hfind : literalOrderItem.find? item with
  | none => exact ⟨_, rfl⟩
  | some m =>
    obtain ⟨c', hplaces, hgroups⟩ := Pattern.places_of_findFrom? hfind
    obtain ⟨hprev, t, ds, rest, htakes, hhead, hne, hds, hlower, hrecorded⟩ :=
      leads_literalOrderItem hplaces.leads
    have hgroup : m.group 1 = t := by
      rw [Match.group, Match.group?, hgroups, hrecorded rfl rfl]
      rfl
    have hitem : item = t ++ (rest ++ m.after) := by
      rw [Option.or_none] at hprev
      rw [← Pattern.text_of_find? hfind, List.getLast?_eq_none_iff.1 hprev,
        hplaces.takes.unique htakes, List.nil_append, List.append_assoc]
    -- a token that is no stray stretch is the placeholder of a literal, so it has a value
    have hnot : ¬ Stray false lits.length t := by
      intro hstray
      refine hstart ?_ ?_
      · refine h a t (rest ++ m.after ++ b) ?_ hstray
        rw [hitem]
        simp only [List.append_assoc]
      · rw [hitem, head?_append_left hstray.ne_nil, hhead]
    obtain ⟨k, hk, rfl⟩ : ∃ k < lits.length, t = placeholder k := by
      refine Classical.byContradiction fun hno => hnot ⟨hhead, ⟨ds, hne, hds, ?_⟩, ?_⟩
      · rw [unticked_false, hlower]
      · intro k hk heq
        exact hno ⟨k, hk, by rwa [unticked_false] at heq⟩
    have hlookup : lits.lookup? (placeholder k) = some lits[k] := by
      rw [placeholder, lookup?_of_digits lits (fun b hb => isDigit_of_mem_decimal hb)
        (decimal_ne_nil k) hlits, digitsValue_decimal, List.getElem?_eq_getElem hk]
    dsimp only
    rw [hgroup, hlookup]
    dsimp only
    split
    · exact ⟨_, rfl⟩
    · exact ⟨_, rfl⟩

theorem exists_mapM_ok {α β : Type} {f : α → Except Fault β} {as : List α}
    (h : ∀ a ∈ as, ∃ b, f a = .ok b) : ∃ bs, as.mapM f = .ok bs := by
  induction as with
  | nil => exact ⟨[], rfl⟩
  | cons a as ih =>
    obtain ⟨⟨b, hb⟩, has⟩ := List.forall_mem_cons.1 h
    obtain ⟨bs, hbs⟩ := ih has
    refine ⟨b :: bs, ?_⟩
    rw [List.mapM_cons, hb, hbs]
    rfl

/-- The rule for sort columns does not fail on a settled text. -/
theorem unquoteOrderByLiteral_ok {s : Bytes} {lits : LiteralTable}
    (hlits : lits.length ≤ int64Limit) (h : Settled false lits.length none s) :
    ∃ s', unquoteOrderByLiteral s lits = .ok s' := by
  rw [unquoteOrderByLiteral]
  cases hfind : findTop? Clause.orderByPattern s with
  | none => exact ⟨s, rfl⟩
  | some m =>
    obtain ⟨hs, c', hplaces⟩ := Pattern.places_of_findTop? consumes_orderBy hfind
    have hafter : Settled false lits.length m.text.getLast? m.after := by
      rw [hs] at h
      exact h.right_of_ne_nil (hplaces.text_ne_nil consumes_orderBy)
    have hsplit := splitAtClause_append Clause.afterOrder m.after
    have hitems : ∀ p ∈ items (splitAtClause Clause.afterOrder m.after).1,
        ∃ o, unquoteOrderItem lits p.core = .ok o := by
      intro p hp
      obtain ⟨a, b, hlist, ha⟩ := items_core hp
      rw [← hsplit] at hafter
      have hcore := hafter.left
      rw [hlist] at hcore
      refine unquoteOrderItem_ok hlits hcore fun hword hhead => ?_
      cases hlast : a.getLast? with
      | some x =>
        rw [hlast] at hword
        exact absurd ((ha x hlast).symm.trans hword) Bool.false_ne_true
      | none =>
        -- the item starts the list, and no word follows the words ORDER BY directly
        rw [hlast, ← hplaces.prev_eq consumes_orderBy] at hword
        have hnext := endsOutside_orderBy _ _ hplaces.leads hword
        rw [← hplaces.after, ← hsplit, hlist, List.getLast?_eq_none_iff.1 hlast, List.nil_append,
          List.append_assoc, List.head?_append, hhead] at hnext
        exact absurd hnext (show ¬ isWord 95 = false by decide)
    obtain ⟨orders, horders⟩ := exists_mapM_ok hitems
    simp only [horders, bind, Except.bind]
    split
    · exact ⟨_, rfl⟩
    · exact ⟨_, rfl⟩

/-! ## The chain of rules -/

theorem length_singleQuotePatterns (s : Bytes) (t : LiteralTable) :
    (singleQuotePatterns s t).length = t.length := by
  rw [singleQuotePatterns]
  generalize patternOperand.all s = ms
  induction ms generalizing t with
  | nil => rfl
  | cons m ms ih => rw [List.foldl_cons, ih, LiteralTable.singleQuote_eq_mapIdx, List.length_mapIdx]

/-- The text of a query when the rule for sort columns is reached. -/
def textAtSort (s : Bytes) : Bytes :=
  castOrderByPlusZero (castDateCalls (convertFunctions (regexpToTilde (likeToILike
    (stripCalcFoundRows (replaceBackticks s))))))

theorem runRules_before_sort {d : Draft} (hk : d.kind = .select) :
    ∃ lits, lits.length = d.literals.length ∧ runRules (rulesBefore sortRule.name) d
      = .ok { d with text := textAtSort d.text, literals := lits } := by
  obtain ⟨kind, text, literals, options, catalog, log⟩ := d
  obtain rfl : kind = .select := hk
  exact ⟨_, length_singleQuotePatterns _ literals, rfl⟩

theorem runRules_after_sort {d : Draft} (hk : d.kind = .select) :
    ∃ d', runRules (rulesAfter sortRule.name) d = .ok d' := by
  obtain ⟨kind, text, literals, options, catalog, log⟩ := d
  obtain rfl : kind = .select := hk
  exact ⟨_, rfl⟩

theorem Settled.textAtSort {n : Nat} {s : Bytes} (h : Settled true n none s)
    (hapart : ModifiersApart (replaceBackticks s)) : Settled false n none (textAtSort s) :=
  have hstripped := ((respells_replaceBackticks s).settled h).stripCalcFoundRows hapart
  hstripped.likeToILike.regexpToTilde.convertFunctions.castDateCalls.castOrderByPlusZero

/-- The rules do not fail on a query whose text is settled through its backticks. -/
theorem runRules_select_ok {d : Draft} (hk : d.kind = .select)
    (hlits : d.literals.length ≤ int64Limit) (h : Settled true d.literals.length none d.text)
    (hapart : ModifiersApart (replaceBackticks d.text)) :
    ∃ d', runRules conversionRules d = .ok d' := by
  obtain ⟨lits, hlen, hbefore⟩ := runRules_before_sort hk
  have hsettled := h.textAtSort hapart
  rw [← hlen] at hsettled hlits
  obtain ⟨text, htext⟩ := unquoteOrderByLiteral_ok hlits hsettled
  rw [conversionRules_at_sortRule, runRules_append, hbefore]
  have hsort : sortRule.run { d with text := textAtSort d.text, literals := lits }
      = .ok { d with text := text, literals := lits } := by
    rw [Rule.run_of_mem (List.mem_singleton.2 hk)]
    show (unquoteOrderByLiteral _ lits).map _ = _
    rw [htext]
    rfl
  obtain ⟨d', hafter⟩ := runRules_after_sort
    (d := { d with text := text, literals := lits }) hk
  refine ⟨d', ?_⟩
  show runRules (sortRule :: rulesAfter sortRule.name) _ = _
  rw [runRules_cons, hsort]
  exact hafter

/-! ## Statements -/

namespace Converter

variable {κ : Type}

/-- What the rules are run on: the statement without its literals, or the query that counts the last
one. -/
def ruleInput (session : Option Session) (sql : Bytes) : Bytes × LiteralTable :=
  if IsLookup sql then foundRowsQuery (lastQuery session) else shield sql

/-- The run of the rules on a statement of a session. -/
def attempt (c : Converter κ) (session : Option Session) (sql : Bytes) : Except Fault Draft :=
  c.runRules (Kind.ofStatement sql) (ruleInput session sql).1 (ruleInput session sql).2

/-- Dropping the modifiers of a query joins no words: neither those of the text that the rules are
run on nor, where that is a count, those of the last query. -/
def DropsApart (session : Option Session) (sql : Bytes) : Prop :=
  (Kind.ofStatement sql = .select → ModifiersApart (replaceBackticks (ruleInput session sql).1)) ∧
    (IsLookup sql → ModifiersApart (shield (lastQuery session)).1)

instance (session : Option Session) (sql : Bytes) : Decidable (DropsApart session sql) :=
  inferInstanceAs (Decidable (_ ∧ _))

theorem length_shield_lt {sql : Bytes} (h : sql.length < int64Limit) :
    (shield sql).2.length ≤ int64Limit :=
  Nat.le_of_lt (Nat.lt_of_le_of_lt (Shielding.length_literals_ofText sql) h)

/-- The rules run without fault where no sort item reads as a placeholder. -/
theorem exists_attempt (c : Converter κ) (session : Option Session) {sql : Bytes}
    (hsql : Unmarked sql) (hlast : Unmarked (lastQuery session)) (hapart : DropsApart session sql)
    (hlen : sql.length < int64Limit) (hlen' : (lastQuery session).length < int64Limit) :
    ∃ d, c.attempt session sql = .ok d := by
  have hinput : Settled true (ruleInput session sql).2.length none (ruleInput session sql).1 ∧
      (ruleInput session sql).2.length ≤ int64Limit := by
    rw [ruleInput]
    split
    · rename_i hlookup
      refine ⟨settled_foundRowsQuery hlast (hapart.2 hlookup), ?_⟩
      exact Nat.le_trans (length_foundRowsQuery _) (length_shield_lt hlen')
    · exact ⟨settled_shield hsql, length_shield_lt hlen⟩
  by_cases hk : Kind.ofStatement sql = .select
  · exact runRules_select_ok hk hinput.2 hinput.1 (hapart.1 hk)
  · have hrun : ∀ d₀ : Draft, d₀.kind = Kind.ofStatement sql →
        ∃ d, SqlDialect.runRules conversionRules d₀ = .ok d := by
      intro d₀ hd₀
      obtain ⟨d, hd, -⟩ := runRules_catalog (d := d₀) (by rwa [hd₀])
      exact ⟨d, hd⟩
    exact hrun _ rfl

variable [Cache κ]

/-- A statement that no earlier conversion is stored for is answered by the run of the rules if they
do not fail. -/
theorem convert_of_attempt {c : Converter κ} {session : Option Session} {sql : Bytes} {d : Draft}
    (h : c.attempt session sql = .ok d) (hstored : IsLookup sql ∨ c.stored? sql = none) :
    (c.convert session sql).output = d.result ∧
      (c.convert session sql).log
        = d.log ++ [converted (Kind.ofStatement sql) sql d.result] := by
  by_cases hlookup : IsLookup sql
  · have hrun : c.runRules .select (foundRowsQuery (lastQuery session)).1
        (foundRowsQuery (lastQuery session)).2 = .ok d := by
      rwa [attempt, ruleInput, if_pos hlookup, hlookup.1] at h
    obtain ⟨hkind, hlook⟩ := hlookup
    rw [Kind.ofStatement] at hkind
    rw [lastQuery] at hrun
    simp only [convert, convertFresh, Kind.ofStatement, hkind, hlook, hrun, and_self, if_true]
  · have hrun : c.runRules (Kind.ofStatement sql) (shield sql).1 (shield sql).2 = .ok d := by
      rwa [attempt, ruleInput, if_neg hlookup] at h
    have hlook := c.lookUp_eq sql
    rw [hstored.resolve_left hlookup, Kind.ofStatement] at hlook
    -- the rules do not see the store, so it does not matter that it was asked before
    have hfresh : (c.afterCalls (lookUpCalls sql)).runRules = c.runRules := rfl
    rw [IsLookup, Kind.ofStatement] at hlookup
    rw [Kind.ofStatement] at hrun
    simp only [convert, convertFresh, Kind.ofStatement, hlookup, hlook, hfresh, hrun, if_false,
      and_self]

/-- With every access by place, a statement that no earlier conversion is stored for is converted as
the run of the rules allows: a fault of theirs is the one that stops it. -/
theorem checked_convert {c : Converter κ} (session : Option Session) {sql : Bytes}
    (hstored : IsLookup sql ∨ c.stored? sql = none) :
    Checked.convert c session sql
      = (c.attempt session sql).map fun _ => c.convert session sql := by
  rw [Checked.convert, Checked.shield_ok, ok_bind]
  dsimp only
  rw [Checked.classify_ok, ok_bind]
  by_cases hlookup : IsLookup sql
  · have hsession := remember_of_isLookup session hlookup
    rw [attempt, ruleInput, if_pos hlookup, hlookup.1, lastQuery]
    obtain ⟨hkind, hlook⟩ := hlookup
    rw [Kind.ofStatement] at hkind hsession
    rw [hkind] at hsession
    rw [if_pos ⟨hkind, hlook⟩, Checked.foundRowsQuery_ok, ok_bind,
      Checked.run_eq _ _ _ (Checked.delimited_foundRowsQuery _)]
    simp only [convert, convertFresh, hkind, hlook, hsession, and_self, if_true]
    cases c.runRules .select _ _ with
    | error f => rfl
    | ok d => rfl
  · have hlook := c.lookUp_eq sql
    -- the rules do not see the store, so it does not matter that it was asked before
    have hfresh : (c.afterCalls (lookUpCalls sql)).runRules = c.runRules := rfl
    rw [attempt, ruleInput, if_neg hlookup]
    rw [hstored.resolve_left hlookup, Kind.ofStatement] at hlook
    rw [IsLookup, Kind.ofStatement] at hlookup
    rw [if_neg hlookup, Checked.remember_ok _ _ hlookup, ok_bind, hlook]
    dsimp only
    rw [Checked.run_eq _ _ _ (Checked.delimited_shield sql), hfresh]
    simp only [convert, convertFresh, Kind.ofStatement, hlookup, hlook, hfresh, if_false]
    cases c.runRules _ _ _ with
    | error f => rfl
    | ok d => rfl

/-- A stored conversion is handed out without running the rules. -/
theorem checked_convert_of_stored {c : Converter κ} (session : Option Session) {sql out : Bytes}
    (hlookup : ¬ IsLookup sql) (hout : c.stored? sql = some out) :
    Checked.convert c session sql = .ok (c.convert session sql) := by
  have hlook := c.lookUp_eq sql
  rw [hout, Kind.ofStatement] at hlook
  rw [IsLookup, Kind.ofStatement] at hlookup
  rw [Checked.convert, Checked.shield_ok, ok_bind]
  dsimp only
  rw [Checked.classify_ok, ok_bind, if_neg hlookup, Checked.remember_ok _ _ hlookup, ok_bind, hlook]
  simp only [convert, hlookup, hlook, if_false]
  rfl

/-- Where the rules do not fail, no access of the conversion is out of range. -/
theorem checked_of_attempt {c : Converter κ} {session : Option Session} {sql : Bytes} {d : Draft}
    (h : c.attempt session sql = .ok d) :
    Checked.convert c session sql = .ok (c.convert session sql) := by
  by_cases hlookup : IsLookup sql
  · rw [checked_convert session (Or.inl hlookup), h]
    rfl
  · cases hs : c.stored? sql with
    | some out => exact checked_convert_of_stored session hlookup hs
    | none =>
      rw [checked_convert session (Or.inr hs), h]
      rfl

/-- With a sound store every answer is what the run of the rules gives. -/
theorem MemoSound.output_of_attempt [LawfulCache κ] {c : Converter κ} (hc : c.MemoSound)
    {session : Option Session} {sql : Bytes} {d : Draft} (h : c.attempt session sql = .ok d) :
    (c.convert session sql).output = d.result := by
  rw [← (hc.convert_withoutMemo session sql).1]
  exact (convert_of_attempt (c := c.withoutMemo) h (Or.inr (c.stored?_withoutMemo sql))).1

/-- **No fault on ordinary text.** Whatever a converter holds, every access that the conversion of a
statement makes is in range if neither the statement nor the last query holds the start of a
placeholder, in any letter case, outside its literals and with all backticks taken out, and if
dropping modifiers joins no words. The answer is then a stored one or what the rules make of the
statement, and no warning is logged. -/
theorem attempt_ok (c : Converter κ) (session : Option Session) {sql : Bytes}
    (hsql : Unmarked sql) (hlast : Unmarked (lastQuery session)) (hapart : DropsApart session sql)
    (hlen : sql.length < int64Limit) (hlen' : (lastQuery session).length < int64Limit) :
    Checked.convert c session sql = .ok (c.convert session sql) ∧
      ∃ d, c.attempt session sql = .ok d ∧
        (IsLookup sql ∨ c.stored? sql = none →
          (c.convert session sql).output = d.result ∧
          (c.convert session sql).log
            = d.log ++ [converted (Kind.ofStatement sql) sql d.result]) := by
  obtain ⟨d, hd⟩ := c.exists_attempt session hsql hlast hapart hlen hlen'
  exact ⟨checked_of_attempt hd, d, hd, convert_of_attempt hd⟩

/-- A query with a modifier, backticks and a sort column in quotes is converted without fault. -/
theorem attempt_ok_modifier :
    let sql := ascii "SELECT SQL_CALC_FOUND_ROWS `a` FROM t ORDER BY 'a'"
    Checked.convert ({} : Converter) none sql = .ok (convert ({} : Converter) none sql) ∧
      ∃ d, attempt ({} : Converter) none sql = .ok d ∧
        (convert ({} : Converter) none sql).output = d.result := by
  intro sql
  obtain ⟨hchecked, d, hd, hconvert⟩ := attempt_ok ({} : Converter) none
    (show Unmarked sql by
      rw [show sql = _ from ascii_ofList _]
      decide +kernel)
    (by decide +kernel) (by rw [show sql = _ from ascii_ofList _]; decide +kernel)
    (by decide +kernel) (by decide)
  exact ⟨hchecked, d, hd, (hconvert (Or.inr (by decide +kernel))).1⟩

/-- A query in which the two halves of a placeholder stand around a modifier that ends in a long s:
the edge of the word is then in front of the second half. -/
def joinedHalves : Bytes :=
  ascii "SELECT a FROM t ORDER BY __pg SQL_CALC_FOUND_ROW" ++ [0xC5, 0xBF] ++ ascii "lit9__"

/-- Dropping the modifier joins the halves: the content of a literal that is none is cut out from
its second byte on, which is out of range, and the query is passed through with its modifier
although it holds no start of a placeholder. -/
theorem attempt_joinedHalves :
    Unmarked joinedHalves ∧ Unmarked (lastQuery none) ∧
      Checked.convert ({} : Converter) none joinedHalves = .error (.sliceStart 1 0) ∧
      (convert ({} : Converter) none joinedHalves).output = joinedHalves := by
  have hfault : attempt ({} : Converter) none joinedHalves = .error (.sliceStart 1 0) := by
    have hrun : (match attempt ({} : Converter) none joinedHalves with
        | .error f => some f
        | .ok _ => none) = some (.sliceStart 1 0) := by
      rw [joinedHalves, ascii_ofList, ascii_ofList]
      decide +kernel
    cases hattempt : attempt ({} : Converter) none joinedHalves with
    | error f =>
      rw [hattempt] at hrun
      rw [Option.some.inj hrun]
    | ok d =>
      rw [hattempt] at hrun
      cases hrun
  have hchecked : Checked.convert ({} : Converter) none joinedHalves = .error (.sliceStart 1 0) := by
    rw [checked_convert none (Or.inr rfl), hfault]
    rfl
  have hrest : Unmarked joinedHalves ∧ Unmarked (lastQuery none) ∧
      (convert ({} : Converter) none joinedHalves).output = joinedHalves := by
    rw [joinedHalves, ascii_ofList, ascii_ofList]
    decide +kernel
  exact ⟨hrest.1, hrest.2.1, hchecked, hrest.2.2⟩

end Converter

end SqlDialect
