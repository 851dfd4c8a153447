import SqlDialect.Identifier.Bare
import SqlDialect.Proofs.Identifier.Bare
import SqlDialect.Proofs.Query.Settled
import SqlDialect.Proofs.Statement.Nesting
import SqlDialect.Query.Count
import SqlDialect.Query.Limit
import SqlDialect.Query.ShowTables
import SqlDialect.Query.Upsert

set_option autoImplicit false

/-! # The rules keep parentheses balanced

What each rule for queries does to the parentheses of a text. Names are written with the parentheses
that they hold. Most rules replace words only; the calls that change their shape are taken as a whole,
from their parenthesis to its partner; and what is put into a statement, such as a GROUP BY clause with
the columns of the select list, is cut out of a balanced text outside parentheses. -/

namespace SqlDialect

open Bytes

variable {s : Bytes}

/-! ## Texts -/

theorem parens_toLower (h : parens s = []) : parens (toLower s) = [] := by
  rw [parens_eq_nil_iff] at h ⊢
  intro b hb
  by_contra hparen
  rw [Bool.not_eq_false] at hparen
  have hletter : b < 65 := by
    rcases eq_of_isParen hparen with rfl | rfl
    · decide
    · decide
  exact Bool.noConfusion ((h b (mem_of_mem_toLower hletter hb)).symm.trans hparen)

theorem parens_decimal (n : Nat) : parens (decimal n) = [] := by
  rw [parens_eq_nil_iff]
  intro b hb
  exact isParen_of_other rfl rfl (isDigit_of_mem_decimal hb)

theorem parens_semicolonIf (had : Bool) : parens (semicolonIf had) = [] := by
  cases had <;> decide

theorem parens_join {sep : Bytes} (hsep : parens sep = []) (parts : List Bytes) :
    parens (join sep parts) = parts.flatMap parens :=
  filter_join hsep parts

/-- White space holds no parentheses. -/
theorem parens_trimSpace (s : Bytes) : parens (trimSpace s) = parens s := by
  refine filter_trimSpace (fun b hb => ?_) s
  rcases eq_of_isParen hb with rfl | rfl
  · decide
  · decide

/-! ## Names -/

theorem parens_replaceAll {q : UInt8} (hq : isParen q = false) (s : Bytes) :
    parens (replaceAll [q] [q, q] s) = parens s := by
  have hquote : parens [q] = [] := by simp [parens, hq]
  induction s with
  | nil => rfl
  | cons b s ih =>
    rw [replaceAll_cons, parens_append, ih, parens_cons b s]
    split
    · rename_i hb
      rw [hb, parens_cons q, hquote]
      rfl
    · rfl

theorem parens_of_bare {name : Bytes} (h : needsQuoting name = false) : parens name = [] := by
  have hbyte : ∀ b : UInt8, isNameByte b = true → isParen b = false :=
    fun b => isParen_of_other rfl rfl
  cases name with
  | nil => cases h
  | cons b name =>
    rw [needsQuoting, Bool.not_eq_false', Bool.and_eq_true] at h
    rw [parens_eq_nil_iff]
    have hstart : isNameByte b = true := by
      rw [isNameByte, h.1]
      rfl
    exact List.forall_mem_cons.2
      ⟨hbyte b hstart, fun x hx => hbyte x (List.all_eq_true.1 h.2 x hx)⟩

/-- A name is written with the parentheses that it holds. -/
theorem parens_quoteIdent (name : Bytes) : parens (quoteIdent name) = parens name := by
  rw [quoteIdent]
  split
  · rw [doubleQuoted, List.cons_append, parens_cons, parens_append, parens_replaceAll (by decide)]
    simp [show parens [doubleQuote] = [] from rfl]
  · rename_i hbare
    split
    · have hnone : parens name = [] := parens_of_bare (by simp_all)
      rw [List.cons_append, parens_cons, parens_append, parens_toLower hnone, hnone]
      rfl
    · rfl

theorem flatMap_parens_splitOnByte {sep : UInt8} (hsep : isParen sep = false) (s : Bytes) :
    (splitOnByte sep s).flatMap parens = parens s := by
  have hnone : parens [sep] = [] := by simp [parens, hsep]
  induction s with
  | nil => rfl
  | cons b s ih =>
    rw [splitOnByte]
    split
    · rename_i hparts
      exact absurd hparts (splitOnByte_ne_nil sep s)
    · rename_i part parts hparts
      rw [hparts, List.flatMap_cons] at ih
      rw [parens_cons b, ← ih]
      split
      · rename_i hb
        rw [hb, hnone]
        rfl
      · rw [List.flatMap_cons, parens_cons b, List.append_assoc]

theorem parens_normalizeName (name : Bytes) : parens (normalizeName name) = parens name := by
  rw [normalizeName]
  split
  · rfl
  · split
    · rw [parens_join (by decide), List.flatMap_map]
      simp only [parens_quoteIdent]
      exact flatMap_parens_splitOnByte (by decide) name
    · exact parens_quoteIdent name

/-- The names in backticks keep their parentheses. -/
theorem parens_replaceBackticks (s : Bytes) : parens (replaceBackticks s) = parens s := by
  have htick : parens [backtick] = [] := by decide
  fun_induction replaceBackticks s with
  | case1 => rfl
  | case2 s name rest hcut ih =>
    rw [parens_append, parens_quoteIdent, ih, parens_cons, htick, eq_append_of_cut? hcut,
      parens_append, parens_append, htick, List.append_nil]
    rfl
  | case3 => rfl
  | case4 b s hb ih => rw [parens_cons, ih, ← parens_cons]

/-! ## Words that are replaced -/

theorem sameNesting_stripCalcFoundRows (s : Bytes) : SameNesting (stripCalcFoundRows s) s :=
  Pattern.sameNesting_replace (by decide) rfl s

theorem sameNesting_likeToILike (s : Bytes) : SameNesting (likeToILike s) s :=
  Pattern.sameNesting_replace (by decide) (by decide) s

theorem sameNesting_regexpToTilde (s : Bytes) : SameNesting (regexpToTilde s) s :=
  (Pattern.sameNesting_replace (by decide) (by decide) _).trans
    (Pattern.sameNesting_replace (by decide) (by decide) s)

theorem sameNesting_limitToOffset (s : Bytes) : SameNesting (limitToOffset s) s := by
  refine Pattern.sameNesting_replaceWith_of_parens (by decide) (fun prev t m hm => ?_) s
  have hgroups : parens (m.group 1) = [] ∧ parens (m.group 2) = [] :=
    ⟨Pattern.parens_group (by decide) hm, Pattern.parens_group (by decide) hm⟩
  rw [parens_append, parens_append, parens_append, hgroups.1, hgroups.2]
  decide

theorem sameNesting_stripFinalLimit (s : Bytes) : SameNesting (stripFinalLimit s) s :=
  Pattern.sameNesting_replaceWith_of_parens (by decide)
    (fun _ _ _ hm => Pattern.parens_group (by decide) hm) s

/-- The names that are quoted are words. -/
theorem sameNesting_quoteBareIdentifiers (s : Bytes) : SameNesting (quoteBareIdentifiers s) s := by
  have hquote : parens [doubleQuote] = [] := by decide
  have hwritten : ∀ left m, parens m.text = [] → parens (writtenFor left m) = [] := by
    intro left m hm
    rw [writtenFor]
    split
    · rename_i name hname
      have hplain : parens name = [] := by
        rw [bareNameFor?] at hname
        grind [parens_toLower]
      rw [List.cons_append, parens_cons, parens_append, hplain, hquote]
      rfl
    · exact hm
  -- whether a word is quoted depends on what stands in front, which the induction carries along
  rw [quoteBareIdentifiers_eq]
  generalize ([] : Bytes) = left
  induction hlen : s.length using Nat.strongRecOn generalizing s left with
  | _ n ih =>
    rw [quoteFrom_eq]
    cases hfind : bareNamePattern.findFrom? 0 left.getLast? s with
    | none => exact .refl s
    | some m =>
      have hname := Pattern.parens_text (by decide) hfind
      have hmatch : SameNesting (writtenFor left m) m.text :=
        sameNesting_of_parens ((hwritten left m hname).trans hname.symm)
      have hrest := ih _ (hlen ▸ length_after_of_findFrom? hfind) m.after
        (left ++ m.before ++ m.text) rfl
      have hall := ((SameNesting.refl m.before).append hmatch).append hrest
      rwa [Pattern.text_of_findFrom? hfind] at hall

/-! ## Calls -/

theorem parens_of_callHead {name : String} (hname : (Pattern.keyword name).parenFree = true)
    {c c' : Pattern.Cursor} {t : Bytes} (h : Pattern.Leads (callHead name) c c')
    (ht : c.Takes t c') : parens t = [openParen] := by
  obtain ⟨c₁, hword, hend⟩ := (Pattern.leads_seqs_append [.wordEdge, .keyword name, .blanks]
    [.text "("]).1 h
  obtain ⟨c₂, hparen, hnil⟩ := Pattern.leads_seqs_cons.1 hend
  obtain rfl := Pattern.leads_nothing.1 hnil
  obtain ⟨u, hu⟩ := hword.takes
  have hfree : (Pattern.seqs [.wordEdge, .keyword name, .blanks]).parenFree = true := by
    rw [Pattern.parenFree] at hname ⊢
    simp only [Pattern.seqs, List.foldr, Pattern.avoids, hname, Bool.true_and]
    decide
  rw [ht.unique (hu.trans (Pattern.leads_text (by decide) hparen)), parens_append,
    Pattern.parens_of_leads hfree hword hu]
  decide

theorem parens_of_emptyCall {name : String} (hname : (Pattern.keyword name).parenFree = true)
    {c c' : Pattern.Cursor} {t : Bytes} (h : Pattern.Leads (emptyCall name) c c')
    (ht : c.Takes t c') : parens t = [openParen, closeParen] := by
  obtain ⟨c₁, hhead, h₁⟩ := Pattern.leads_seqs_cons.1 h
  obtain ⟨c₂, hblanks, h₂⟩ := Pattern.leads_seqs_cons.1 h₁
  obtain ⟨c₃, hparen, hnil⟩ := Pattern.leads_seqs_cons.1 h₂
  obtain rfl := Pattern.leads_nothing.1 hnil
  obtain ⟨u, hu⟩ := hhead.takes
  obtain ⟨v, hv⟩ := hblanks.takes
  rw [ht.unique ((hu.trans hv).trans (Pattern.leads_text (by decide) hparen)), parens_append,
    parens_append, parens_of_callHead hname hhead hu,
    Pattern.parens_of_leads (by decide) hblanks hv]
  decide

/-- Replacing heads of calls by heads of calls. -/
theorem sameNesting_replace_callHead {name : String}
    (hname : (Pattern.keyword name).parenFree = true) {new : Bytes} (hnew : parens new = [openParen])
    (s : Bytes) : SameNesting ((callHead name).replace new s) s := by
  refine Pattern.sameNesting_replaceWith (fun prev t m hm => ?_) s
  obtain ⟨c', hplaces, -⟩ := Pattern.places_of_findFrom? hm
  exact sameNesting_of_parens
    (hnew.trans (parens_of_callHead hname hplaces.leads hplaces.takes).symm)

theorem sameNesting_replace_emptyCall {name : String}
    (hname : (Pattern.keyword name).parenFree = true) {new : Bytes} (hnew : Balanced new)
    (s : Bytes) : SameNesting ((emptyCall name).replace new s) s := by
  refine Pattern.sameNesting_replaceWith (fun prev t m hm => ?_) s
  obtain ⟨c', hplaces, -⟩ := Pattern.places_of_findFrom? hm
  have hcall : SameNesting m.text [openParen, closeParen] :=
    sameNesting_of_parens (parens_of_emptyCall hname hplaces.leads hplaces.takes)
  exact hnew.sameNesting.trans (hcall.trans (Balanced.wrap (s := []) (by decide)).sameNesting).symm

/-- A call is balanced from its head to the partner of its parenthesis, and what is written for it is
so as well. -/
theorem sameNesting_mapCalls {name : String} (hname : (Pattern.keyword name).parenFree = true)
    {f : Bytes → Bytes} (hf : ∀ arg, Balanced arg → Balanced (f arg)) (s : Bytes) :
    SameNesting (mapCalls (callHead name) f s) s := by
  fun_induction mapCalls (callHead name) f s with
  | case1 => exact .refl _
  | case2 => exact .refl _
  | case3 s m hfind arg rest hparen ih =>
    obtain ⟨c', hplaces, -⟩ := Pattern.places_of_findFrom? hfind
    have harg := balanced_of_splitParen? hparen
    have hhead : SameNesting m.text [openParen] :=
      sameNesting_of_parens (parens_of_callHead hname hplaces.leads hplaces.takes)
    have hcall : SameNesting (m.text ++ (arg ++ [closeParen])) (f arg) :=
      (hhead.append (.refl _)).trans (harg.wrap.sameNesting.trans (hf arg harg).sameNesting.symm)
    have hall := ((SameNesting.refl m.before).append hcall.symm).append ih
    have hs : s = m.before ++ (m.text ++ (arg ++ [closeParen])) ++ rest := by
      rw [← Pattern.text_of_find? hfind, eq_append_of_splitParen? hparen]
      simp
    rwa [← hs] at hall

theorem Balanced.trimSpace (h : Balanced s) : Balanced (Bytes.trimSpace s) :=
  (sameNesting_of_parens (parens_trimSpace s)).balanced_iff.2 h

theorem balanced_epochOf {arg : Bytes} (h : Balanced arg) :
    Balanced (convertFunctions.epochOf arg) := by
  rw [convertFunctions.epochOf]
  split
  · decide
  · exact h.trimSpace.enclose (by decide) (by decide)

theorem balanced_castToDate {arg : Bytes} (h : Balanced arg) : Balanced (castToDate arg) := by
  rw [castToDate]
  split
  · exact h.trimSpace.append (by decide)
  · exact h.trimSpace.enclose (by decide) (by decide)

theorem sameNesting_convertFunctions (s : Bytes) : SameNesting (convertFunctions s) s := by
  rw [convertFunctions]
  refine (sameNesting_mapCalls (by decide) (fun _ => balanced_epochOf) _).trans ?_
  refine (sameNesting_replace_emptyCall (by decide) (by decide) _).trans ?_
  refine (sameNesting_replace_callHead (by decide) (by decide) _).trans ?_
  refine (sameNesting_replace_emptyCall (by decide) (by decide) _).trans ?_
  exact sameNesting_replace_callHead (by decide) (by decide) s

theorem sameNesting_castDateCalls (s : Bytes) : SameNesting (castDateCalls s) s := by
  rw [castDateCalls_eq]
  have hall := (SameNesting.refl (splitAtClause dateClauses s).1).append
    (@sameNesting_mapCalls "DATE" (by decide) _ (fun _ => balanced_castToDate)
      (splitAtClause dateClauses s).2)
  rwa [splitAtClause_append] at hall

/-! ## Sorting -/

/-- The cast puts a pair of parentheses around a column, which has none. What follows the zero may be
one. -/
theorem sameNesting_castOrderByPlusZero (s : Bytes) : SameNesting (castOrderByPlusZero s) s := by
  rw [castOrderByPlusZero]
  cases hfind : findTop? Clause.orderByPattern s with
  | none => exact .refl s
  | some m =>
    obtain ⟨hs, -⟩ := Pattern.places_of_findTop? consumes_orderBy hfind
    have hcast : SameNesting (plusZeroPattern.replaceWith castKey m.after) m.after := by
      refine Pattern.sameNesting_replaceWith (fun prev t k hk => ?_) _
      have hcol : parens (k.group 1) = [] := Pattern.parens_group (by decide) hk
      -- behind the zero the match takes one more byte, which the cast puts back
      obtain ⟨u, c, c', htext, hleads, htakes⟩ := @Pattern.text_eq_append_group _ _ _ _
        [.group 1 (.many1 (.one columnSet)), .blanks, .text "+", .blanks, .text "0"] _ _ hk
      have hu : parens u = [] := Pattern.parens_of_leads (by decide) hleads htakes
      have hkey : SameNesting (castKey k) ([openParen, closeParen] ++ k.group 2) := by
        refine sameNesting_of_parens ?_
        rw [castKey, parens_append, parens_append, parens_append, hcol, parens_append]
        rfl
      have htail : SameNesting k.text (k.group 2) := by
        refine sameNesting_of_parens ?_
        rw [htext, parens_append, hu, List.nil_append]
      have hpair : Balanced [openParen, closeParen] := by decide
      exact hkey.trans ((hpair.sameNesting.append (.refl (k.group 2))).trans htail.symm)
    have hall := (SameNesting.refl (m.before ++ m.text)).append hcast
    rwa [← hs] at hall

/-! ## Lists -/

theorem flatMap_parens_items (list : Bytes) :
    (items list).flatMap (fun p => parens p.text) = parens list :=
  flatMap_filter_items (fun _ => isParen_of_isBlank) (by decide) list

theorem parens_ofItems (ps : List Spaced) :
    parens (ofItems ps) = ps.flatMap fun p => parens p.text :=
  filter_ofItems (by decide) ps

/-- A column that was a literal has no parentheses, and neither has the literal's placeholder. -/
theorem parens_unquoteOrderItem {lits : LiteralTable} {item : Bytes} {o : OrderItem}
    (h : unquoteOrderItem lits item = .ok o) :
    parens o.text = parens item ∧ ∀ column ∈ o.column, parens column = [] := by
  rw [unquoteOrderItem] at h
  split at h
  · cases h
    exact ⟨rfl, by simp⟩
  · rename_i m hm
    split at h
    · cases h
    · rename_i l hl
      split at h
      · -- the literal is a column name: the item is a placeholder, the name a word or two
        rename_i hcolumn
        cases h
        have hitem : parens item = [] := by
          rw [← @Pattern.text_eq_of_whole [.group 1 literalToken,
            .opt (.group 2 (.seq .blanks1 (.keywords ["ASC", "DESC"])))] _ _ hm]
          exact Pattern.parens_text (by decide) hm
        have hname : parens (normalizeName l.body) = [] := by
          obtain ⟨k, hk⟩ := Option.isSome_iff_exists.1 hcolumn
          rw [parens_normalizeName, ← @Pattern.text_eq_of_whole [bareWord,
            .opt (.seq (.text ".") bareWord)] _ _ hk]
          exact Pattern.parens_text (by decide) hk
        have hdir : parens (m.group 2) = [] := Pattern.parens_group (by decide) hm
        refine ⟨?_, ?_⟩
        · rw [parens_append, hname, hdir, hitem]
          rfl
        · rintro column ⟨⟩
          exact hname
      · cases h
        exact ⟨rfl, by simp⟩

theorem parens_addColumns (present : List Bytes) {cols : List Bytes}
    (h : ∀ col ∈ cols, parens col = []) : parens (addColumns present cols) = [] := by
  induction cols generalizing present with
  | nil => rfl
  | cons col cols ih =>
    obtain ⟨hcol, hcols⟩ := List.forall_mem_cons.1 h
    rw [addColumns]
    split
    · exact ih _ hcols
    · rw [parens_append, parens_append, hcol, ih _ hcols]
      decide

/-- Adding columns to a select list keeps its parentheses. -/
theorem parens_appendToSelectList (s : Bytes) {cols : List Bytes}
    (h : ∀ col ∈ cols, parens col = []) : parens (appendToSelectList s cols) = parens s := by
  rw [appendToSelectList]
  cases hp : SelectParts.ofText? s with
  | none => rfl
  | some p =>
    dsimp only
    split
    · rfl
    · have hlist := congrArg parens (dropTailWhile_append_drop isBlank p.list)
      rw [parens_append] at hlist
      simp only [parens_append, parens_addColumns _ h, (SelectParts.eq_of_ofText? hp).1,
        List.append_assoc, ← hlist]
      rfl

/-- Unquoting the items of a list keeps its parentheses. -/
theorem parens_unquoted {lits : LiteralTable} {parts : List Spaced} {orders : List OrderItem}
    (h : parts.mapM (fun p => unquoteOrderItem lits p.core) = .ok orders) :
    (List.zipWith (fun (p : Spaced) (o : OrderItem) => { p with core := o.text }) parts orders).flatMap
        (fun p => parens p.text) = parts.flatMap (fun p => parens p.text) ∧
      ∀ column ∈ orders.filterMap OrderItem.column, parens column = [] := by
  induction parts generalizing orders with
  | nil =>
    cases h
    exact ⟨rfl, by simp⟩
  | cons p parts ih =>
    rw [List.mapM_cons] at h
    cases hitem : unquoteOrderItem lits p.core with
    | error e =>
      rw [hitem] at h
      cases h
    | ok o =>
      cases hrest : parts.mapM fun p => unquoteOrderItem lits p.core with
      | error e =>
        rw [hitem, hrest] at h
        cases h
      | ok os =>
        rw [hitem, hrest] at h
        cases h
        obtain ⟨htext, hcolumn⟩ := parens_unquoteOrderItem hitem
        obtain ⟨htexts, hcolumns⟩ := ih hrest
        refine ⟨?_, ?_⟩
        · rw [List.zipWith_cons_cons, List.flatMap_cons, List.flatMap_cons, htexts]
          simp only [Spaced.text, parens_append, htext]
        · intro column hmem
          obtain ⟨o', ho', heq⟩ := List.mem_filterMap.1 hmem
          rcases List.mem_cons.1 ho' with rfl | ho'
          · exact hcolumn column heq
          · exact hcolumns column (List.mem_filterMap.2 ⟨o', ho', heq⟩)

theorem sameNesting_unquoteOrderByLiteral {lits : LiteralTable} {t : Bytes}
    (h : unquoteOrderByLiteral s lits = .ok t) : SameNesting t s := by
  rw [unquoteOrderByLiteral] at h
  cases hfind : findTop? Clause.orderByPattern s with
  | none =>
    rw [hfind] at h
    cases h
    exact .refl _
  | some m =>
    obtain ⟨hs, -⟩ := Pattern.places_of_findTop? consumes_orderBy hfind
    have hsplit := splitAtClause_append Clause.afterOrder m.after
    cases horders : (items (splitAtClause Clause.afterOrder m.after).1).mapM
        fun p => unquoteOrderItem lits p.core with
    | error e =>
      simp only [hfind, horders, bind, Except.bind] at h
      cases h
    | ok orders =>
      simp only [hfind, horders, bind, Except.bind] at h
      obtain ⟨hlist, hcolumns⟩ := parens_unquoted horders
      split at h
      · cases h
        exact .refl _
      · cases h
        refine sameNesting_of_parens ?_
        rw [parens_appendToSelectList _ hcolumns, parens_append, parens_append, parens_ofItems, hlist,
          flatMap_parens_items, List.append_assoc, ← parens_append, hsplit, ← parens_append, ← hs]

/-! ## Counts -/

theorem flatMap_parens_nameCounts (n : Nat) (ps : List Spaced) :
    (nameCounts n ps).flatMap (fun p => parens p.text) = ps.flatMap fun p => parens p.text := by
  induction ps generalizing n with
  | nil => rfl
  | cons p ps ih =>
    rw [nameCounts]
    split
    · rw [List.flatMap_cons, List.flatMap_cons, ih]
      simp only [Spaced.text, parens_append, parens_decimal, List.append_assoc]
      rfl
    · rw [List.flatMap_cons, List.flatMap_cons, ih]

/-- A balanced clause can be put into a statement anywhere. -/
theorem sameNesting_insertGroupBy (head tail : Bytes) {clause : Bytes} (h : Balanced clause) :
    SameNesting (insertGroupBy head tail clause) (head ++ tail) := by
  have hsplit := splitAtClause_append afterGroup tail
  rw [insertGroupBy]
  dsimp only
  split
  · rename_i hafter
    have hbody : SameNesting (trimStatementEnd (head ++ tail)).1 (head ++ tail) :=
      sameNesting_of_parens (parens_trimStatementEnd _)
    have hend : SameNesting (ascii " " ++ clause ++ semicolonIf (trimStatementEnd (head ++ tail)).2)
        [] :=
      (((balanced_of_parens rfl).append h).append
        (balanced_of_parens (parens_semicolonIf _))).sameNesting
    have hall := hbody.append hend
    rw [List.append_nil] at hall
    simpa only [List.append_assoc] using hall
  · have hbefore : SameNesting (trimRight (head ++ (splitAtClause afterGroup tail).1))
        (head ++ (splitAtClause afterGroup tail).1) :=
      sameNesting_of_parens (parens_trimRight _)
    have hclause : SameNesting (ascii " " ++ clause ++ ascii " ") [] :=
      (((balanced_of_parens rfl).append h).append (balanced_of_parens rfl)).sameNesting
    have hall := (hbefore.append hclause).append (.refl (splitAtClause afterGroup tail).2)
    rw [List.append_nil, List.append_assoc head, hsplit] at hall
    simpa only [List.append_assoc] using hall

/-- A select statement is cut around its select list outside parentheses. -/
theorem Balanced.selectParts (h : Balanced s) {p : SelectParts} (hp : SelectParts.ofText? s = some p) :
    Balanced p.head ∧ Balanced p.list ∧ Balanced p.tail := by
  obtain ⟨m, hfind, hparts⟩ := Option.map_eq_some_iff.1 hp
  have hs := Pattern.text_of_find? hfind
  rw [Pattern.before_eq_nil hfind, List.nil_append] at hs
  have hhead : Balanced m.text := balanced_of_parens (Pattern.parens_text (by decide) hfind)
  have hafter : Balanced m.after := Balanced.of_append (hs.symm ▸ h) hhead
  cases hfrom : findTop? Clause.fromPattern m.after with
  | none =>
    rw [hfrom] at hparts
    subst hparts
    exact ⟨hhead, hafter, balanced_nil⟩
  | some f =>
    rw [hfrom] at hparts
    subst hparts
    obtain ⟨hsplit, -⟩ := Pattern.places_of_findTop? (Pattern.consumes_wholeWord (by decide)) hfrom
    rw [hsplit, List.append_assoc] at hafter
    have hlist := hafter.of_depth (depth_of_findTop? hfrom)
    exact ⟨hhead, hlist, hafter.of_append hlist⟩

/-- The columns of a GROUP BY clause are items of the select list. -/
theorem sameNesting_aliasCountsAndGroup (h : Balanced s) :
    SameNesting (aliasCountsAndGroup s) s := by
  rw [aliasCountsAndGroup]
  cases hp : SelectParts.ofText? s with
  | none => exact .refl s
  | some p =>
    obtain ⟨-, hlist, -⟩ := h.selectParts hp
    have hnamed : SameNesting (p.head ++ ofItems (nameCounts 0 (items p.list)) ++ p.tail) s := by
      refine sameNesting_of_parens ?_
      rw [parens_append, parens_append, parens_ofItems, flatMap_parens_nameCounts,
        flatMap_parens_items, ← parens_append, ← parens_append, ← (SelectParts.eq_of_ofText? hp).1]
    have hcolumns : ∀ col ∈ ((items p.list).map Spaced.core).filter isPlainColumn, Balanced col := by
      intro col hcol
      obtain ⟨q, hq, rfl⟩ := List.mem_map.1 (List.mem_filter.1 hcol).1
      exact hlist.items q hq
    have hclause : Balanced (ascii "GROUP BY " ++
        join (ascii ", ") (((items p.list).map Spaced.core).filter isPlainColumn)) :=
      (balanced_of_parens (by decide)).append (balanced_join (by decide) hcolumns)
    dsimp only
    split
    · exact .refl s
    · split
      · exact hnamed
      · exact (sameNesting_insertGroupBy _ _ hclause).trans hnamed

/-! ## Replacing rows -/

/-- The columns of an insert stand between parentheses. -/
theorem balanced_columns {ins : Insert} (h : Insert.ofText? s = some ins) :
    ∀ col ∈ ins.columns, Balanced col := by
  intro col hcol
  obtain ⟨a, inner, list, rest, part, -, hparen, hpart, rfl⟩ := Insert.of_mem_columns h hcol
  have hplain : parens (normalizeName (trimSpace part)) = parens part := by
    rw [parens_normalizeName, parens_trimSpace]
  exact (sameNesting_of_parens hplain).balanced_iff.2
    ((balanced_of_splitParen? hparen).splitTop part hpart)

theorem balanced_overwriteClause {cols : List Bytes} (h : ∀ col ∈ cols, Balanced col) :
    Balanced (overwriteClause cols) := by
  have hconflict : ∀ col, Balanced col → Balanced (ascii " ON CONFLICT (" ++ col ++ ascii ")") :=
    fun col hcol => hcol.enclose (by decide) (by decide)
  cases cols with
  | nil => exact balanced_of_parens (by decide)
  | cons col cols =>
    obtain ⟨hcol, hcols⟩ := List.forall_mem_cons.1 h
    cases cols with
    | nil =>
      have hall := (hconflict col hcol).append (t := ascii " DO NOTHING") (by decide)
      rw [List.append_assoc] at hall
      exact hall
    | cons next cols =>
      have hsets : ∀ set ∈ (next :: cols).map fun c => c ++ ascii " = EXCLUDED." ++ c,
          Balanced set := by
        intro set hset
        obtain ⟨c, hc, rfl⟩ := List.mem_map.1 hset
        exact ((hcols c hc).append (by decide)).append (hcols c hc)
      have hall := ((hconflict col hcol).append (t := ascii " DO UPDATE SET ") (by decide)).append
        (@balanced_join (ascii ", ") (by decide) _ hsets)
      rw [List.append_assoc _ (ascii ")")] at hall
      exact hall

theorem sameNesting_convertReplace {t : Bytes} (h : convertReplace? s = some t) :
    SameNesting t s := by
  obtain ⟨m, hm, h⟩ := Option.bind_eq_some_iff.1 h
  obtain ⟨ins, hins, h⟩ := Option.bind_eq_some_iff.1 h
  have hhead : SameNesting (m.group 1 ++ ascii "INSERT INTO " ++ m.after) s := by
    have hs := Pattern.text_of_find? hm
    rw [Pattern.before_eq_nil hm, List.nil_append] at hs
    refine sameNesting_of_parens ?_
    rw [← hs, parens_append, parens_append, parens_append, Pattern.parens_text (by decide) hm,
      Pattern.parens_group (by decide) hm]
    rfl
  have hbody := (sameNesting_of_parens
    (parens_trimStatementEnd (m.group 1 ++ ascii "INSERT INTO " ++ m.after))).trans hhead
  have hclause : Balanced (overwriteClause ins.columns ++ returningAll ++
      semicolonIf (trimStatementEnd (m.group 1 ++ ascii "INSERT INTO " ++ m.after)).2) :=
    ((balanced_overwriteClause (balanced_columns hins)).append (by decide)).append
      (balanced_of_parens (parens_semicolonIf _))
  have hall := hbody.append hclause.sameNesting
  rw [List.append_nil, ← List.append_assoc, ← List.append_assoc] at hall
  exact Option.some.inj h ▸ hall

/-! ## Listing tables -/

/-- The list of tables is a query of its own. -/
theorem balanced_showTables {lits lits' : LiteralTable} {t : Bytes}
    (h : convertShowTables? s lits = some (t, lits')) : Balanced t := by
  obtain ⟨m, hm, heq⟩ := Option.map_eq_some_iff.1 h
  have hend : parens (m.group 2) = [] := Pattern.parens_group (by decide) hm
  have hquery : Balanced tablesQuery := by
    rw [tablesQuery, ascii_ofList]
    decide +kernel
  split at heq
  · rename_i token htoken
    obtain ⟨rfl, -⟩ := Prod.mk.inj heq
    have hgroup : parens (m.group 1) = [] := Pattern.parens_group (by decide) hm
    rw [Match.group, htoken, Option.getD_some] at hgroup
    exact ((hquery.append (by decide)).append (balanced_of_parens hgroup)).append
      (balanced_of_parens hend)
  · obtain ⟨rfl, -⟩ := Prod.mk.inj heq
    exact hquery.append (balanced_of_parens hend)

/-! ## Counting the last query -/

/-- The query that counts the rows of a balanced query is balanced: what is cut off starts outside
parentheses. -/
theorem balanced_foundRowsQuery {last : Bytes} (h : Balanced (shield last).1) :
    Balanced (foundRowsQuery last).1 := by
  have hnothing : Balanced countNothing.1 := by decide
  have hcounted : Balanced (trimStatementEnd (stripCalcFoundRows (shield last).1)).1 := by
    rw [(sameNesting_of_parens (parens_trimStatementEnd _)).balanced_iff,
      (sameNesting_stripCalcFoundRows _).balanced_iff]
    exact h
  have hps : ∀ p ∈ Clause.orderByPattern :: Clause.afterOrder, p.Consumes := by
    simp only [Clause.afterOrder, List.forall_mem_cons]
    exact ⟨consumes_orderBy, Pattern.consumes_wholeWord (by decide),
      Pattern.consumes_wholeWord (by decide),
      Pattern.consumes_of_mem (List.mem_cons_of_mem _ List.mem_cons_self)
        (Pattern.consumes_keyword (by decide)),
      fun _ hp => absurd hp List.not_mem_nil⟩
  rw [foundRowsQuery]
  split
  · exact hnothing
  dsimp only
  split
  · exact hnothing
  · rename_i p hp
    split
    · exact hnothing
    · obtain ⟨hhead, hlist, htail⟩ := hcounted.selectParts hp
      have hsource : Balanced
          (trimRight (splitAtClause (Clause.orderByPattern :: Clause.afterOrder) p.tail).1) :=
        (sameNesting_of_parens (parens_trimRight _)).balanced_iff.2 (htail.splitAtClause hps).1
      split
      · exact ((hhead.append hlist).append hsource).trimSpace.enclose
          (by rw [ascii_ofList]; decide +kernel) (by rw [ascii_ofList]; decide +kernel)
      · exact Balanced.append (by rw [ascii_ofList]; decide +kernel) hsource

end SqlDialect
