import SqlDialect.Proofs.Query.UpsertClauses

set_option autoImplicit false

/-! # Words and casts

The rules that write casts keep a word absent that takes no part in what they write: they cut a text
at the edges of words, and put the parts between fixed texts. -/

namespace SqlDialect

open Bytes

/-! ## Calls of DATE -/

/-- The texts of casts. -/
def castTexts : List Bytes :=
  ["::date", "(", ")::date", "CAST(", " AS INTEGER)"].map ascii

namespace Sought

variable {q : Sought} {s u v : Bytes}

theorem wraps_castToDate (hq : ∀ r ∈ castTexts, q.Neutral r) (hlead : q.lead = none) :
    Wraps q castToDate := by
  intro u arg v hu harg hv hlast
  rw [castToDate]
  split
  · have hrest := harg.trimSpace.insert (hq _ (by decide) : q.Neutral (ascii "::date")) hv
      (Or.inr fun x hx => by
        obtain rfl := Option.some.inj hx
        exact foreign_of_not_isWord rfl)
    rw [List.append_assoc]
    exact hu.append hrest (apart_of_edge hlead (Or.inl hlast))
  · exact wraps_of_neutral (hq _ (by decide)) (hq _ (by decide)) rfl u arg v hu harg hv hlast

theorem Absent.castDateCalls (hq : ∀ r ∈ castTexts, q.Neutral r) (hlead : q.lead = none)
    (h : q.Absent s) : q.Absent (castDateCalls s) := by
  obtain ⟨head, clauses, hcut, -, hhead, hclauses, hseam⟩ := h.splitAtClause dateClauses_start
  rw [castDateCalls_eq, hcut]
  have hmapped : q.Absent (SqlDialect.mapCalls (callHead "DATE") castToDate clauses) :=
    hclauses.mapCalls (by decide) (by decide) (wraps_castToDate hq hlead)
  rcases hseam with hlast | rfl
  · exact hhead.append hmapped (apart_of_edge hlead (Or.inl hlast))
  · refine hhead.append hmapped (apart_of_foreign hlead _ fun x hx => ?_)
    rw [SqlDialect.mapCalls] at hx
    cases hx

/-! ## Sorting by a number -/

/-- A cast sort key between two texts. -/
theorem Absent.append_castKey (hq : ∀ r ∈ castTexts, q.Neutral r) (hlead : q.lead = none)
    {before col next rest : Bytes} (hbefore : q.Absent before)
    (hlast : before.getLast?.any isWord = false) (hcol : q.Absent col)
    (hnext : ∀ b ∈ next, isWord b = false) (hrest : q.Absent rest) (hend : next = [] → rest = []) :
    q.Absent (before ++ (ascii "CAST(" ++ col ++ ascii " AS INTEGER)" ++ next) ++ rest) := by
  have htail : q.Absent (next ++ rest) := by
    by_cases hnil : next = []
    · rw [hnil, hend hnil]
      exact absent_nil
    · refine (absent_of_not_isWord hnext).append hrest (apart_of_edge hlead (Or.inl ?_))
      exact any_isWord_eq_false fun x hx => hnext x (List.mem_of_getLast? hx)
  have hclose := hcol.insert (hq (ascii " AS INTEGER)") (by decide)) htail (Or.inr fun x hx => by
    obtain rfl := Option.some.inj hx
    exact foreign_of_not_isWord rfl)
  have hall := hbefore.insert (hq (ascii "CAST(") (by decide)) hclose (Or.inl hlast)
  simpa only [List.append_assoc] using hall

theorem Absent.rewriteFrom_plusZero (hq : ∀ r ∈ castTexts, q.Neutral r) (hlead : q.lead = none)
    {prev : Option UInt8} (h : q.Absent s)
    (hedge : prev.any isWord = true →
      ∀ x, s.head? = some x → ¬ (x < 128 ∧ columnSet.contains x.toNat = true)) :
    q.Absent (plusZeroPattern.rewriteFrom castKey prev s) := by
  induction hlen : s.length using Nat.strongRecOn generalizing s prev with
  | _ k ih =>
    cases hfind : plusZeroPattern.findFrom? 0 prev s with
    | none =>
      rw [Pattern.rewriteFrom_eq, hfind]
      exact h
    | some m =>
      have hstart := prev_of_find_plusZero hfind hedge
      obtain ⟨mid, htext, ⟨d, d', hmid, hmidTakes⟩, hnext, hafter⟩ :=
        exists_between_of_find_plusZero hfind
      rw [Pattern.rewriteFrom_of_findFrom? consumes_plusZero hfind, castKey]
      generalize m.group 1 = col at htext ⊢
      generalize m.group 2 = next at htext hnext hafter ⊢
      have hlast : m.before.getLast?.any isWord = false := by
        cases hlast : m.before.getLast? with
        | none => rfl
        | some x =>
          rw [hlast] at hstart
          exact hstart
      -- a blank or the plus sign follows the column
      have hmidHead : (mid ++ (next ++ m.after)).head?.any isWord = false := by
        have hhead := (Pattern.headOutside_text (s := "+") (by decide) rfl rfl _).blanks _ _ hmid
        have hne : mid ≠ [] := by
          obtain ⟨d₁, hblanks, h₁⟩ := Pattern.leads_seqs_cons.1 hmid
          obtain ⟨d₂, hplus, h₂⟩ := Pattern.leads_seqs_cons.1 h₁
          obtain ⟨bl, -, hbl⟩ := Pattern.leads_blanks hblanks
          obtain ⟨r, hr⟩ := h₂.takes
          rw [hmidTakes.unique ((hbl.trans (Pattern.leads_text (by decide) hplus)).trans hr)]
          simp [ascii]
        rw [hmidTakes.rest] at hhead
        rw [head?_append_left hne] at hhead ⊢
        exact hhead
      have hall := h
      rw [← Pattern.text_of_findFrom? hfind, htext] at hall
      have hbefore : q.Absent m.before := by
        rw [List.append_assoc] at hall
        exact hall.left (Or.inl hlast)
      have hcol : q.Absent col := by
        rw [show m.before ++ (col ++ mid ++ next) ++ m.after
          = m.before ++ col ++ (mid ++ (next ++ m.after)) by simp] at hall
        exact (hall.left (Or.inr (Or.inl hmidHead))).right (Or.inl (Or.inl hlast))
      refine hbefore.append_castKey hq hlead hlast hcol hnext ?_ fun hnil => by
        rw [hafter hnil, Pattern.rewriteFrom_nil]
      by_cases hnil : next = []
      · rw [hafter hnil, Pattern.rewriteFrom_nil]
        exact absent_nil
      · have hnextLast : (m.before ++ (col ++ mid ++ next)).getLast?.any isWord = false := by
          rw [← List.append_assoc, Pattern.getLast?_append_of_ne_nil _ hnil]
          exact any_isWord_eq_false fun x hx => hnext x (List.mem_of_getLast? hx)
        refine ih _ (hlen ▸ consumes_plusZero.after_lt hfind)
          (hall.right (Or.inl (Or.inl hnextLast))) (fun hword => ?_) rfl
        rw [htext, Pattern.getLast?_append_of_ne_nil _ hnil] at hword
        rw [← List.append_assoc, Pattern.getLast?_append_of_ne_nil _ hnil, hword] at hnextLast
        cases hnextLast

/-- What stands around the words ORDER BY, with which no word goes on. -/
theorem Absent.aroundOrderBy (hlead : q.lead = none) (hy : 121 ∉ q.word) {m : Match}
    (hm : findTop? Clause.orderByPattern s = some m) (h : q.Absent s) :
    s = m.before ++ m.text ++ m.after ∧ q.Absent (m.before ++ m.text) ∧ q.Absent m.after ∧
      ∀ v, q.Apart (m.before ++ m.text) v := by
  obtain ⟨hs, c', hplaces⟩ := Pattern.places_of_findTop? consumes_orderBy hm
  obtain ⟨y, hprev, hlower⟩ := prev_of_orderBy hplaces.leads
  have hlast : (m.before ++ m.text).getLast? = some y := by
    rw [List.getLast?_append, ← hplaces.prev_eq consumes_orderBy, hprev]
    rfl
  obtain ⟨hyword, hytoken⟩ : isWord y = true ∧ ¬ TokenByte y := by
    exact forall_lowerByte (P := fun y => isWord y = true ∧ ¬ TokenByte y) (l := [121]) (by decide)
      (List.mem_singleton.2 hlower)
  have hafter : m.after.head?.any isWord = false := by
    rw [hplaces.after]
    exact endsOutside_orderBy _ _ hplaces.leads (by rw [hprev]; exact hyword)
  rw [hs] at h
  exact ⟨hs, h.left (Or.inr (Or.inl hafter)), h.right (Or.inr hafter),
    apart_of_foreign_last hlead hlast ⟨hlower ▸ hy, hytoken⟩⟩

theorem Absent.castOrderByPlusZero (hq : ∀ r ∈ castTexts, q.Neutral r) (hlead : q.lead = none)
    (hy : 121 ∉ q.word) (h : q.Absent s) : q.Absent (castOrderByPlusZero s) := by
  rw [SqlDialect.castOrderByPlusZero]
  cases hm : findTop? Clause.orderByPattern s with
  | none => exact h
  | some m =>
    obtain ⟨-, hbefore, hafter, hapart⟩ := h.aroundOrderBy hlead hy hm
    exact hbefore.append
      (hafter.rewriteFrom_plusZero hq hlead fun hword => absurd hword Bool.false_ne_true) (hapart _)

end Sought

end SqlDialect
