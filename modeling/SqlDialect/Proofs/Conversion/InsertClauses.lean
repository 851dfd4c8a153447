import SqlDialect.Proofs.Query.Upsert
import SqlDialect.Proofs.Query.UpsertClauses

set_option autoImplicit false

/-! # The clauses of an insert

An insert gets a clause that returns its rows and, if it says what to do on a duplicate key or ignores
conflicts, a clause for conflicts in front of it. Three rules add them, and each looks at what the one
before it wrote. Where the statement has neither clause of its own, it ends up with the first exactly
once and with the second at most once (`insert_clauses_once`).

For this the words of the clauses must not come about elsewhere. They do so in one place: a reference
`VALUES(column)` is replaced without regard to what stands behind it, so that the column and the text
behind it may become one word (`insert_clauses_returning_twice`). -/

namespace SqlDialect

open Bytes

/-! ## What the rules write -/

theorem notWritten_returning : returningWord.NotWritten where
  calls := by decide +kernel
  clauses := by decide +kernel
  bare := ⟨by decide, by decide⟩
  foreign := ⟨by decide, by decide⟩
  head := by decide

theorem notWritten_conflict : conflictWords.NotWritten where
  calls := by decide +kernel
  clauses := by decide +kernel
  bare := ⟨by decide, by decide⟩
  foreign := ⟨by decide, by decide⟩
  head := by decide

/-- Until the rule for upserts is reached no word is brought about. -/
theorem Sought.Absent.textAtUpsert {q : Sought} (hq : q.NotWritten) (hlike : q.Neutral (ascii "ILIKE"))
    {s : Bytes} (h : q.Absent (replaceBackticks s)) : q.Absent (textAtUpsert s) :=
  ((h.likeToILike hlike).regexpToTilde hq.calls).convertFunctions hq.calls hq.foreign

/-- References to inserted values that are apart from CONFLICT are apart from RETURNING. -/
theorem Sought.ReferencesApart.returning {s : Bytes} (h : conflictWords.ReferencesApart s) :
    returningWord.ReferencesApart s :=
  fun text htext value hvalue m hm =>
    ⟨(h text htext value hvalue m hm).1, fun l hl => by cases hl⟩

/-! ## At most one clause for conflicts -/

/-- Where ON CONFLICT is absent, its pattern matches nowhere behind any byte. -/
theorem allFrom_onConflict_of_absent {s : Bytes} (h : conflictWords.Absent s) (prev : Option UInt8) :
    onConflictPattern.allFrom prev s = [] := by
  cases hm : onConflictPattern.findFrom? 0 prev s with
  | none => rw [Pattern.allFrom, hm]
  | some m =>
    obtain ⟨a, o, hs, hstands⟩ := stands_of_onConflict hm
    exact absurd hstands (h a o m.after hs)

/-- The words also stand where the text ends earlier. -/
theorem Sought.Stands.cut {a o c z : Bytes} (h : conflictWords.Stands a o (c ++ z)) :
    conflictWords.Stands a o c := by
  refine { h with right := edgeRight_false_iff.2 ?_ }
  have hright := edgeRight_false_iff.1 h.right
  cases c with
  | nil => rfl
  | cons x c => exact hright

/-- What follows the words starts behind the clause, where the words are absent in front of it. -/
theorem suffix_of_stands {u v a o b : Bytes} (hu : conflictWords.Absent u)
    (h : u ++ ascii " ON CONFLICT" ++ v = a ++ o ++ b) (hstands : conflictWords.Stands a o b) :
    ∃ x, v = x ++ b := by
  rcases List.append_eq_append_iff.1 h with ⟨x, -, hx⟩ | ⟨y, hy, rfl⟩
  · exact ⟨x, hx⟩
  by_cases hnil : y = []
  · exact ⟨[], by rw [hnil, List.nil_append, List.nil_append]⟩
  rcases List.append_eq_append_iff.1 hy with ⟨d, hd, hr⟩ | ⟨c, hc, rfl⟩
  · -- only the last letter of the clause is that of the second word
    have hlast : o.getLast?.map lowerByte = some 116 := by
      rw [← List.getLast?_map, hstands.reads]
      decide
    have hclause : ∀ d ∈ (ascii " ON CONFLICT").inits, d ≠ [] → d ≠ ascii " ON CONFLICT" →
        d.getLast?.map lowerByte ≠ some 116 := by decide
    by_cases hdnil : d = []
    · rw [hdnil, List.append_nil] at hd
      exact absurd (Sought.Stands.cut (c := []) hstands) (hu a o [] (by rw [List.append_nil, hd]))
    · refine absurd ?_ (hclause d ((List.mem_inits _ _).2 ⟨y, hr.symm⟩) hdnil ?_)
      · rw [← Pattern.getLast?_append_of_ne_nil u hdnil, ← hd,
          Pattern.getLast?_append_of_ne_nil a hstands.isWord.1, hlast]
      · intro hall
        rw [hall, List.self_eq_append_right] at hr
        exact hnil hr
  · rw [List.append_assoc] at hstands
    exact absurd hstands.cut (hu a o c hc)

/-- Where the words are absent on both sides of the clause, they stand nowhere but in it. -/
theorem length_allFrom_onConflict {u v : Bytes} (hu : conflictWords.Absent u)
    (hv : conflictWords.Absent v) (prev : Option UInt8) :
    (onConflictPattern.allFrom prev (u ++ ascii " ON CONFLICT" ++ v)).length ≤ 1 := by
  cases hm : onConflictPattern.findFrom? 0 prev (u ++ ascii " ON CONFLICT" ++ v) with
  | none =>
    rw [Pattern.allFrom, hm]
    exact Nat.zero_le 1
  | some m =>
    obtain ⟨a, o, hs, hstands⟩ := stands_of_onConflict hm
    obtain ⟨x, rfl⟩ := suffix_of_stands hu hs hstands
    have hafter := hv.right (Or.inr (edgeRight_false_iff.1 hstands.right))
    have hconsumes : onConflictPattern.Consumes := Pattern.consumes_wholePhrase (by decide) _
    rw [Pattern.allFrom_of_findFrom? hm (hconsumes.after_lt hm),
      allFrom_onConflict_of_absent hafter]
    exact Nat.le_refl 1

/-- A text without RETURNING that has ON CONFLICT in at most one clause. -/
structure ClausesOnce (b : Bytes) : Prop where
  returning : returningWord.Absent b
  conflict : conflictWords.Absent b ∨ ∃ u v, b = u ++ ascii " ON CONFLICT" ++ 32 :: v ∧
    conflictWords.Absent u ∧ conflictWords.Absent (32 :: v)

theorem ClausesOnce.length_le {b : Bytes} (h : ClausesOnce b) :
    (onConflictPattern.all b).length ≤ 1 := by
  rcases h.conflict with habsent | ⟨u, v, rfl, hu, hv⟩
  · rw [Pattern.all, allFrom_onConflict_of_absent habsent]
    exact Nat.zero_le 1
  · exact length_allFrom_onConflict hu hv none

/-- Texts in which the words are absent are put around the clause. -/
theorem clausesOnce_append {u v : Bytes} (hu : returningWord.Absent u ∧ conflictWords.Absent u)
    (hv : returningWord.Absent v ∧ conflictWords.Absent v) (hhead : v.head? = some 32) :
    ClausesOnce (u ++ ascii " ON CONFLICT" ++ v) := by
  refine ⟨hu.1.insert (by decide) hv.1 (Or.inr fun x hx => ?_), Or.inr ?_⟩
  · obtain rfl := Option.some.inj hx
    exact Sought.foreign_of_not_isWord rfl
  · obtain ⟨v, rfl⟩ := List.head?_eq_some_iff.1 hhead
    exact ⟨u, v, rfl, hu.2, hv.2⟩

/-! ## Bare names -/

/-- Quoting names changes nothing in an empty text, and none at a blank. -/
theorem QuotesNames.cons_blank {s t : Bytes} (h : QuotesNames (32 :: s) t) :
    ∃ t', t = 32 :: t' := by
  obtain ⟨a, b, rfl, ha, -⟩ := h.separator (a := []) rfl rfl
  rw [ha.eq_of_infixFree (by decide)]
  exact ⟨b, rfl⟩

/-- Quoting names keeps the clauses of a text. -/
theorem ClausesOnce.quotesNames {b t : Bytes} (h : ClausesOnce b) (ht : QuotesNames b t) :
    ClausesOnce t := by
  refine ⟨h.returning.quotesNames notWritten_returning.bare ht, ?_⟩
  rcases h.conflict with habsent | ⟨u, v, rfl, hu, hv⟩
  · exact Or.inl (habsent.quotesNames notWritten_conflict.bare ht)
  · rw [show u ++ ascii " ON CONFLICT" ++ 32 :: v = u ++ 32 :: (ascii "ON CONFLICT" ++ 32 :: v) by
      rw [List.append_assoc]
      rfl] at ht
    obtain ⟨u', v', rfl, hu', hv'⟩ := ht.fixed rfl rfl (by decide)
    obtain ⟨v'', rfl⟩ := hv'.cons_blank
    refine Or.inr ⟨u', v'', ?_, hu.quotesNames notWritten_conflict.bare hu',
      hv.quotesNames notWritten_conflict.bare hv'⟩
    rw [List.append_assoc]
    rfl

/-- Quoting names keeps the end of an insert. -/
theorem quoteBareIdentifiers_returningAll (b : Bytes) (had : Bool) :
    ∃ b', quoteBareIdentifiers (b ++ returningAll ++ semicolonIf had)
      = b' ++ returningAll ++ semicolonIf had ∧ QuotesNames b b' := by
  have hsplit : ∀ b, b ++ returningAll ++ semicolonIf had
      = b ++ 32 :: (ascii "RETURNING *" ++ semicolonIf had) := fun b => List.append_assoc b _ _
  simp only [hsplit]
  obtain ⟨b', e, heq, hb', he⟩ :=
    (quotesNames_quoteFrom [] (b ++ 32 :: (ascii "RETURNING *" ++ semicolonIf had))).fixed rfl
      (by cases had <;> rfl) (by decide)
  rw [he.eq_of_infixFree (by cases had <;> decide)] at heq
  exact ⟨b', heq, hb'⟩

/-! ## The rules -/

/-- An insert whose clauses have been added, up to the semicolon that ends it. -/
def Concluded (s : Bytes) (had : Bool) : Prop :=
  ∃ b, s = b ++ returningAll ++ semicolonIf had ∧ ClausesOnce b

theorem Concluded.hasReturning {s : Bytes} {had : Bool} (h : Concluded s had) :
    hasReturning s = true := by
  obtain ⟨b, rfl, -⟩ := h
  exact hasReturning_returningAll b _

theorem Concluded.quote {s : Bytes} {had : Bool} (h : Concluded s had) :
    Concluded (quoteBareIdentifiers s) had := by
  obtain ⟨b, rfl, hb⟩ := h
  obtain ⟨b', heq, hquotes⟩ := quoteBareIdentifiers_returningAll b had
  exact ⟨b', heq, hb.quotesNames hquotes⟩

section

variable {s : Bytes} (hreturning : returningWord.Absent s) (hconflict : conflictWords.Absent s)

include hreturning hconflict

/-- An upsert is concluded, and says what to do on a conflict. -/
theorem concluded_onDuplicate (hrefs : conflictWords.ReferencesApart s) {lits : LiteralTable}
    {catalog : KeyCatalog}
    (hkeys : ∀ table, ∀ key ∈ catalog.keys table, ∀ col ∈ key.columns,
      returningWord.Absent col ∧ conflictWords.Absent col)
    {u : Upserted} (hu : convertOnDuplicate? s lits catalog = some u) :
    Concluded u.text (trimStatementEnd s).2 ∧ onConflictPattern.occursIn u.text = true := by
  obtain ⟨head, rest, htext, hhead, habsent⟩ := convertOnDuplicate?_parts hu
  obtain ⟨hr, hr'⟩ := habsent _ notWritten_returning hreturning hrefs.returning
    fun table key hkey col hcol => (hkeys table key hkey col hcol).1
  obtain ⟨hc, hc'⟩ := habsent _ notWritten_conflict hconflict hrefs
    fun table key hkey col hcol => (hkeys table key hkey col hcol).2
  refine ⟨⟨_, htext, clausesOnce_append ⟨hr, hc⟩ ⟨hr', hc'⟩ hhead⟩, ?_⟩
  obtain ⟨rest, rfl⟩ := List.head?_eq_some_iff.1 hhead
  rw [htext, show head ++ ascii " ON CONFLICT" ++ 32 :: rest ++ returningAll
    ++ semicolonIf (trimStatementEnd s).2 = head ++ ascii " ON CONFLICT " ++
      (rest ++ returningAll ++ semicolonIf (trimStatementEnd s).2) by
    rw [show ascii " ON CONFLICT " = ascii " ON CONFLICT" ++ [32] from rfl]
    simp]
  exact occursIn_onConflict _ _

/-- An insert that ignores conflicts is concluded. -/
theorem concluded_insertIgnore {ins : Insert} (h : Insert.ofText? s = some ins) :
    Concluded (convertInsertIgnore ins) (trimStatementEnd s).2 := by
  obtain ⟨head, htext, habsent⟩ := convertInsertIgnore_parts h
  refine ⟨_, htext, clausesOnce_append ⟨habsent _ notWritten_returning hreturning,
    habsent _ notWritten_conflict hconflict⟩ ⟨?_, ?_⟩ rfl⟩
  all_goals exact Sought.absent_of_infixFree (by decide)

/-- Any other insert is concluded by the clause that returns its rows. -/
theorem concluded_appendReturning : Concluded (appendReturning s) (trimStatementEnd s).2 :=
  ⟨(trimStatementEnd s).1, rfl, hreturning.trimStatementEnd, Or.inl hconflict.trimStatementEnd⟩

end

/-- The rules for inserts conclude a statement that has neither clause. -/
theorem runRules_concluded {d : Draft} (hk : d.kind = .insert)
    (hreturning : returningWord.Absent d.text) (hconflict : conflictWords.Absent d.text)
    (hrefs : conflictWords.ReferencesApart d.text)
    (hkeys : ∀ table, ∀ key ∈ d.catalog.keys table, ∀ col ∈ key.columns,
      returningWord.Absent col ∧ conflictWords.Absent col) :
    ∃ d', runRules (.total upsertRuleName [.insert] Draft.onDuplicate :: rulesAfter upsertRuleName) d
        = .ok d' ∧ Concluded d'.text (trimStatementEnd d.text).2 := by
  -- the three rules one after the other: each fires only where the one before it did not
  have hplain : d.onDuplicate = d → ∃ d', runRules (rulesAfter upsertRuleName) d.onDuplicate = .ok d' ∧
      Concluded d'.text (trimStatementEnd d.text).2 := by
    intro hsame
    rw [hsame, runRules_rulesAfter_upsert hk]
    refine ⟨_, rfl, Concluded.quote ?_⟩
    rw [Draft.insertIgnore]
    cases hins : ignoringInsert? d.text with
    | none =>
      have hno : hasReturning d.text = false := hasReturning_eq_false_iff.2 hreturning
      show Concluded (if hasReturning d.text then d.text else appendReturning d.text) _
      rw [if_neg (by rw [hno]; exact Bool.false_ne_true)]
      exact concluded_appendReturning hreturning hconflict
    | some ins =>
      have hdone := concluded_insertIgnore hreturning hconflict
        (Option.filter_eq_some_iff.1 hins).1
      show Concluded (if hasReturning (convertInsertIgnore ins) then convertInsertIgnore ins
        else appendReturning (convertInsertIgnore ins)) _
      rwa [if_pos hdone.hasReturning]
  rw [runRules_cons, Rule.run_total_one, if_pos hk]
  show ∃ d', runRules (rulesAfter upsertRuleName) d.onDuplicate = .ok d' ∧ _
  cases hdup : hasOnDuplicate d.text with
  | false => exact hplain (by rw [Draft.onDuplicate, hdup]; rfl)
  | true =>
    cases hu : convertOnDuplicate? d.text d.literals d.catalog with
    | none => exact hplain (by rw [Draft.onDuplicate, if_pos hdup, hu])
    | some u =>
      obtain ⟨hdone, hoccurs⟩ := concluded_onDuplicate hreturning hconflict hrefs hkeys hu
      rw [Draft.onDuplicate, if_pos hdup, hu]
      refine ⟨_, runRules_after_upsert hk hoccurs hdone.hasReturning, hdone.quote⟩

variable {κ : Type}

/-- **The clauses of an insert are added once.** Where an insert says neither what to return nor what
to do on a conflict, and neither does any key of the catalog by the name of a column, its text ends in
the clause that returns its rows, with a semicolon behind it if there was one. In front of that
there is no other such clause and at most one clause for conflicts. This is so with a list of columns
and without, for heads that cannot be read, and whether or not the statement ignores conflicts or says
what to do on a duplicate key, as long as its references to inserted values are kept apart from what
follows them. -/
theorem insert_clauses_once (c : Converter κ) {sql : Bytes}
    (hkind : Kind.ofStatement sql = .insert)
    (hreturning : hasReturning (replaceBackticks (shield sql).1) = false)
    (hconflict : onConflictPattern.occursIn (replaceBackticks (shield sql).1) = false)
    (hkeys : ∀ table, ∀ key ∈ c.catalog.keys table, ∀ col ∈ key.columns,
      ¬ ascii "returning" <:+: col.map lowerByte ∧ ¬ ascii "conflict" <:+: col.map lowerByte)
    (hrefs : conflictWords.ReferencesApart (textAtUpsert (shield sql).1)) :
    ∃ d b, runRules conversionRules (c.draft sql) = .ok d ∧
      d.text = b ++ returningAll ++ semicolonIf (trimStatementEnd (shield sql).1).2 ∧
      hasReturning b = false ∧ (onConflictPattern.all b).length ≤ 1 ∧
      ((∀ l ∈ (shield sql).2, EndsFirmly l.text) →
        (trimStatementEnd (shield sql).1).2 = (trimStatementEnd sql).2) := by
  obtain ⟨lits, hbefore⟩ := runRules_before_upsert (d := c.draft sql) hkind
  have habsent : ∀ table, ∀ key ∈ c.catalog.keys table, ∀ col ∈ key.columns,
      returningWord.Absent col ∧ conflictWords.Absent col := fun table key hkey col hcol =>
    ⟨Sought.absent_of_infixFree (hkeys table key hkey col hcol).1,
      Sought.absent_of_infixFree (hkeys table key hkey col hcol).2⟩
  obtain ⟨d, hrun, b, htext, honce⟩ := runRules_concluded
    (d := { c.draft sql with text := textAtUpsert (shield sql).1, literals := lits }) hkind
    ((hasReturning_eq_false_iff.1 hreturning).textAtUpsert notWritten_returning (by decide))
    ((occursIn_onConflict_eq_false_iff.1 hconflict).textAtUpsert notWritten_conflict (by decide))
    hrefs habsent
  rw [show (trimStatementEnd (textAtUpsert (shield sql).1)).2 = (trimStatementEnd (shield sql).1).2
    from ending_textAtUpsert.trans (ending_replaceBackticks _)] at htext
  refine ⟨d, b, ?_, htext, hasReturning_eq_false_iff.2 honce.returning, honce.length_le,
    ending_shield⟩
  have hrules : conversionRules = rulesBefore upsertRuleName ++
      .total upsertRuleName [.insert] Draft.onDuplicate :: rulesAfter upsertRuleName := rfl
  rw [hrules, runRules_append, hbefore]
  exact hrun

/-- An upsert that ignores conflicts as well. -/
def ignoringUpsert : Bytes :=
  ascii "INSERT IGNORE t (`a`) VALUES ('x') ON DUPLICATE KEY UPDATE a = VALUES(a);"

/-- The upsert is given each clause once, and its semicolon stays. -/
theorem insert_clauses_once_ignoring :
    ∃ d b, runRules conversionRules (Converter.draft ({} : Converter) ignoringUpsert) = .ok d ∧
      d.text = b ++ returningAll ++ [59] ∧ hasReturning b = false ∧
      (onConflictPattern.all b).length ≤ 1 := by
  have hchars : ignoringUpsert = _ := ascii_ofList _
  have hplain : Kind.ofStatement ignoringUpsert = .insert ∧
      hasReturning (replaceBackticks (shield ignoringUpsert).1) = false ∧
      onConflictPattern.occursIn (replaceBackticks (shield ignoringUpsert).1) = false ∧
      conflictWords.ReferencesApart (textAtUpsert (shield ignoringUpsert).1) ∧
      (trimStatementEnd (shield ignoringUpsert).1).2 = true := by
    rw [hchars]
    decide +kernel
  obtain ⟨hkind, hno, hnone, hrefs, hend⟩ := hplain
  obtain ⟨d, b, hrun, htext, hreturning, hconflict, -⟩ := insert_clauses_once ({} : Converter)
    hkind hno hnone (fun table key hkey => by cases hkey) hrefs
  rw [hend] at htext
  exact ⟨d, b, hrun, htext, hreturning, hconflict⟩

/-- An upsert in which the name of a reference goes on behind its parenthesis. -/
def splitUpsert : Bytes :=
  ascii "INSERT INTO t (a) VALUES (1) ON DUPLICATE KEY UPDATE a = VALUES(RETURN)ING"

/-- The upsert has neither clause, and is written with RETURNING twice. -/
theorem insert_clauses_returning_twice :
    Kind.ofStatement splitUpsert = .insert ∧
      hasReturning (replaceBackticks (shield splitUpsert).1) = false ∧
      onConflictPattern.occursIn (replaceBackticks (shield splitUpsert).1) = false ∧
      ¬ ∃ d b had, runRules conversionRules (Converter.draft ({} : Converter) splitUpsert) = .ok d ∧
        d.text = b ++ returningAll ++ semicolonIf had ∧ hasReturning b = false := by
  have hchars : splitUpsert = _ := ascii_ofList _
  have hplain : Kind.ofStatement splitUpsert = .insert ∧
      hasReturning (replaceBackticks (shield splitUpsert).1) = false ∧
      onConflictPattern.occursIn (replaceBackticks (shield splitUpsert).1) = false := by
    rw [hchars]
    decide +kernel
  refine ⟨hplain.1, hplain.2.1, hplain.2.2, ?_⟩
  rintro ⟨d, b, had, hrun, htext, hno⟩
  have hresult : (runRules conversionRules (Converter.draft ({} : Converter) splitUpsert)).toOption.map Draft.text
      = some (ascii "INSERT INTO t (a) VALUES (1) ON CONFLICT (a) DO UPDATE SET a = EXCLUDED.RETURNING"
        ++ returningAll ++ semicolonIf false) := by
    rw [hchars, ascii_ofList]
    decide +kernel
  rw [hrun] at hresult
  have hsame := htext.symm.trans (Option.some.inj hresult)
  cases had with
  | true =>
    have hlast := congrArg List.getLast? hsame
    rw [semicolonIf, if_pos rfl, List.getLast?_concat, ascii_ofList] at hlast
    revert hlast
    decide
  | false =>
    rw [List.append_cancel_right (List.append_cancel_right hsame), ascii_ofList] at hno
    revert hno
    decide +kernel

end SqlDialect
