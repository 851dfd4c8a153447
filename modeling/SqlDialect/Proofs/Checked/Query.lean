import SqlDialect.Proofs.Checked.Match
import SqlDialect.Proofs.Checked.Name
import SqlDialect.Proofs.Query.Nesting
import SqlDialect.Proofs.Statement.TopLevel
import SqlDialect.Query.ZeroDate

set_option autoImplicit false

/-! # Queries by place

The rules that change literals, calls and sort keys, with every text cut out between places. The
literals of a statement stay delimited, so that their contents can be cut out by every rule. -/

namespace SqlDialect.Checked

/-! ## Literals -/

theorem Delimited.replace {t : LiteralTable} (ht : Delimited t) (token : Bytes) {l : Literal}
    (hl : l.text ≠ []) : Delimited (t.replace token l) := by
  rw [LiteralTable.replace]
  split
  · intro k hk
    rcases List.mem_or_eq_of_mem_set hk with hk | rfl
    · exact ht k hk
    · exact hl
  · exact ht

/-- Puts the literal behind the token between single quotes if it is between double quotes. -/
def singleQuote (t : LiteralTable) (token : Bytes) : Except Fault LiteralTable := do
  match ← lookup t token with
  | none => return t
  | some l =>
    if l.quote = doubleQuote then
      let text ← body l
      let text := Bytes.replaceAll [backslash, doubleQuote] [doubleQuote] text
      let text := Bytes.replaceAll [doubleQuote, doubleQuote] [doubleQuote] text
      let text := Bytes.replaceAll [SqlDialect.singleQuote]
        [SqlDialect.singleQuote, SqlDialect.singleQuote] text
      replace t token
        ⟨SqlDialect.singleQuote, SqlDialect.singleQuote :: text ++ [SqlDialect.singleQuote]⟩
    else return t

theorem singleQuote_ok {t : LiteralTable} (ht : Delimited t) (token : Bytes) :
    singleQuote t token = .ok (t.singleQuote token) := by
  rw [singleQuote, lookup_ok, ok_bind, LiteralTable.singleQuote]
  cases hl : t.lookup? token with
  | none => rfl
  | some l =>
    dsimp only
    split
    · rw [body_ok_of_lookup? ht hl, ok_bind, replace_ok]
      rfl
    · rfl

theorem Delimited.singleQuote {t : LiteralTable} (ht : Delimited t) (token : Bytes) :
    Delimited (t.singleQuote token) := by
  rw [LiteralTable.singleQuote]
  split
  · split
    · exact ht.replace token (List.cons_ne_nil _ _)
    · exact ht
  · exact ht

/-- Puts the literals behind matching operators between single quotes. -/
def singleQuotePatterns (s : Bytes) (t : LiteralTable) : Except Fault LiteralTable :=
  (patternOperand.all s).foldlM (fun t m => do
    let token ← elementAt (patternOperand.submatches m) 1
    singleQuote t token) t

theorem singleQuotePatterns_ok (s : Bytes) {t : LiteralTable} (ht : Delimited t) :
    singleQuotePatterns s t = .ok (SqlDialect.singleQuotePatterns s t) ∧
      Delimited (SqlDialect.singleQuotePatterns s t) := by
  refine foldlM_ok (fun t m _ ht => ⟨?_, ht.singleQuote _⟩) ht
  have htoken : elementAt (patternOperand.submatches m) 1 = .ok (m.group 1) :=
    Pattern.submatch_ok (n := 1) (by decide) (by decide) m
  rw [htoken, ok_bind, singleQuote_ok ht]

/-- Replaces the literal behind the token if it is a zero date. -/
def replaceZeroDate (t : LiteralTable) (token : Bytes) : Except Fault LiteralTable := do
  match ← lookup t token with
  | none => return t
  | some l =>
    if l.quote != SqlDialect.singleQuote then return t
    else
      let text ← body l
      if text = ascii "0000-00-00 00:00:00" then
        replace t token ⟨SqlDialect.singleQuote, ascii "'1970-01-01 00:00:00'"⟩
      else if text = ascii "0000-00-00" then
        replace t token ⟨SqlDialect.singleQuote, ascii "'1970-01-01'"⟩
      else return t

/-- Replaces the zero dates among the literals whose placeholders stand in the text. -/
def replaceZeroDates (s : Bytes) (t : LiteralTable) : Except Fault LiteralTable :=
  (exactLiteralToken.all s).foldlM (fun t m => replaceZeroDate t m.text) t

/-- A literal that is put in its own place changes nothing. -/
theorem replace_self {t : LiteralTable} {token : Bytes} {l : Literal}
    (h : t.lookup? token = some l) : t.replace token l = t := by
  obtain ⟨n, hindex, hn⟩ := Option.bind_eq_some_iff.1 h
  obtain ⟨hlt, hl⟩ := List.getElem?_eq_some_iff.1 hn
  rw [LiteralTable.replace, hindex, ← hl]
  exact List.set_getElem_self hlt

theorem replaceZeroDates_ok (s : Bytes) {t : LiteralTable} (ht : Delimited t) :
    replaceZeroDates s t = .ok (SqlDialect.replaceZeroDates s t) ∧
      Delimited (SqlDialect.replaceZeroDates s t) := by
  refine foldlM_ok (fun t m _ ht => ?_) ht
  rw [replaceZeroDate, lookup_ok, ok_bind]
  cases hl : t.lookup? m.text with
  | none => exact ⟨rfl, ht⟩
  | some l =>
    have hself := replace_self hl
    dsimp only
    rw [Literal.withoutZeroDate]
    split
    · rw [hself]
      exact ⟨rfl, ht⟩
    · rw [body_ok_of_lookup? ht hl, ok_bind]
      split
      · exact ⟨replace_ok _ _ _, ht.replace _ (by decide)⟩
      · split
        · exact ⟨replace_ok _ _ _, ht.replace _ (by decide)⟩
        · rw [hself]
          exact ⟨rfl, ht⟩

/-- Writes SHOW TABLES as a query, with the literals it then uses. -/
def convertShowTables (s : Bytes) (lits : LiteralTable) :
    Except Fault (Option (Bytes × LiteralTable)) :=
  match showTablesPattern.find? s with
  | none => return none
  | some m => do
    let token ← elementAt (showTablesPattern.submatches m) 1
    let stop ← elementAt (showTablesPattern.submatches m) 2
    if token.isEmpty then return some (tablesQuery ++ stop, lits)
    else
      let lits ← singleQuote lits token
      return some (tablesQuery ++ ascii " AND tablename LIKE " ++ token ++ stop, lits)

theorem convertShowTables_ok (s : Bytes) {lits : LiteralTable} (hlits : Delimited lits) :
    convertShowTables s lits = .ok (convertShowTables? s lits) := by
  rw [convertShowTables, convertShowTables?]
  cases hm : showTablesPattern.find? s with
  | none => rfl
  | some m =>
    have htoken : elementAt (showTablesPattern.submatches m) 1 = .ok (m.group 1) :=
      Pattern.submatch_ok (n := 1) (by decide) (by decide) m
    have hstop : elementAt (showTablesPattern.submatches m) 2 = .ok (m.group 2) :=
      Pattern.submatch_ok (n := 2) (by decide) (by decide) m
    dsimp only
    rw [htoken, ok_bind, hstop, ok_bind, Option.map_some, Match.group]
    cases hgroup : m.group? 1 with
    | none => rfl
    | some token =>
      -- a placeholder is not empty
      obtain ⟨q, hq, c, c', hleads, htakes⟩ := Pattern.leads_of_group? hm hgroup
      obtain rfl : q = literalToken := List.mem_singleton.1 hq
      have hne : token ≠ [] := by
        rintro rfl
        have hlt := Pattern.consumes_of_mem List.mem_cons_self
          (Pattern.consumes_keyword (s := "__pglit") (by decide)) _ _ hleads
        rw [htakes.taken] at hlt
        exact Nat.lt_irrefl _ hlt
      rw [Option.getD_some, if_neg (by simpa using hne), singleQuote_ok hlits]
      rfl

/-! ## Calls -/

theorem le_of_matchParenFrom {s : Bytes} {i depth j : Int} (h : matchParenFrom s i depth = .ok j)
    (hj : 0 ≤ j) : i ≤ j ∧ j < s.length := by
  fun_induction matchParenFrom s i depth with
  | case1 i depth hi ih₁ ih₂ ih₃ =>
    cases hb : elementAt s i with
    | error e =>
      rw [hb] at h
      cases h
    | ok b =>
      rw [hb, ok_bind] at h
      split at h
      · obtain ⟨hle, hlt⟩ := ih₁ h
        exact ⟨by omega, hlt⟩
      · split at h
        · split at h
          · obtain rfl : i = j := Except.ok.inj h
            exact ⟨Int.le_refl _, hi⟩
          · obtain ⟨hle, hlt⟩ := ih₂ h
            exact ⟨by omega, hlt⟩
        · obtain ⟨hle, hlt⟩ := ih₃ h
          exact ⟨by omega, hlt⟩
  | case2 i depth hi =>
    obtain rfl : -1 = j := Except.ok.inj h
    exact absurd hj (by decide)

/-- Writes `f arg` for each call whose head the pattern matches, from `last` on and behind what has
been written; gives the place up to which the text is written. -/
def rewriteCallsFrom (s : Bytes) (head : Pattern) (hhead : head.OpensCall) (f : Bytes → Bytes)
    (last : Nat) (out : Bytes) : Except Fault (Nat × Bytes) := do
  let rest ← sliceFrom s last
  match _hm : head.find? rest with
  | none => return (last, out)
  | some m =>
    let start : Int := (last : Int) + (m.before.length + m.text.length : Nat) - 1
    bindKnown (matchParen s start) fun closing _hclosing =>
      if _hneg : closing < 0 then return (last, out)
      else do
        let before ← slice s last (last + m.before.length : Nat)
        let arg ← slice s (start + 1) closing
        rewriteCallsFrom s head hhead f (closing.toNat + 1) (out ++ before ++ f arg)
termination_by s.length - last
decreasing_by
  obtain ⟨u, hu⟩ := hhead.exists_text _hm
  obtain ⟨hle, hlt⟩ := le_of_matchParenFrom _hclosing (Int.not_lt.1 _hneg)
  have hlen := congrArg List.length hu
  rw [List.length_append, List.length_singleton] at hlen
  omega

/-- One round: the first call is written, if there is a head and its parenthesis is closed. -/
theorem rewriteCallsFrom_append {head : Pattern} (hhead : head.OpensCall) (f : Bytes → Bytes)
    (a s out : Bytes) :
    rewriteCallsFrom (a ++ s) head hhead f a.length out
      = match head.find? s with
        | none => .ok (a.length, out)
        | some m =>
          match splitParen? m.after with
          | none => .ok (a.length, out)
          | some (arg, _) =>
            rewriteCallsFrom (a ++ s) head hhead f
              (a ++ m.before ++ m.text ++ arg ++ [closeParen]).length
              (out ++ m.before ++ f arg) := by
  have hrest : sliceFrom (a ++ s) a.length = .ok s := sliceFrom_eq rfl rfl
  rw [rewriteCallsFrom, hrest, ok_bind]
  split
  · rename_i hm
    rw [hm]
    rfl
  · rename_i m hm
    obtain ⟨u, hu⟩ := hhead.exists_text hm
    have hs : a ++ s = (a ++ m.before ++ u) ++ openParen :: m.after := by
      rw [← Pattern.text_of_find? hm, hu]
      simp
    have hstart : ((a.length : Int) + (m.before.length + m.text.length : Nat) - 1)
        = (a ++ m.before ++ u).length := by
      rw [hu]
      simp only [List.length_append, List.length_singleton]
      omega
    have hmatch := matchParen_ok (a ++ m.before ++ u) m.after
    rw [← hs, ← hstart] at hmatch
    rw [hm]
    dsimp only
    cases hclose : splitParen? m.after with
    | none =>
      rw [hclose] at hmatch
      rw [bindKnown_ok hmatch]
      rfl
    | some parts =>
      obtain ⟨arg, rest⟩ := parts
      have hafter := eq_append_of_splitParen? hclose
      rw [hclose] at hmatch
      have hbefore : slice (a ++ s) a.length (a.length + m.before.length : Nat) = .ok m.before :=
        slice_eq (c := u ++ openParen :: m.after) (by rw [hs]; simp) rfl (Int.natCast_add _ _)
      have harg : slice (a ++ s)
          ((a.length : Int) + (m.before.length + m.text.length : Nat) - 1 + 1)
          ((((a ++ m.before ++ u).length + 1 + arg.length : Nat)) : Int) = .ok arg :=
        slice_eq (a := a ++ m.before ++ u ++ [openParen]) (c := closeParen :: rest)
          (by rw [hs, hafter]; simp)
          (by rw [hstart]; simp only [List.length_append, List.length_singleton]; omega)
          (by simp only [List.length_append, List.length_singleton]; omega)
      have hlast : (a ++ m.before ++ u).length + 1 + arg.length + 1
          = (a ++ m.before ++ m.text ++ arg ++ [closeParen]).length := by
        rw [hu]
        simp only [List.length_append, List.length_singleton]
        omega
      rw [bindKnown_ok hmatch]
      dsimp only [Option.map_some, Option.getD_some]
      rw [dif_neg (Int.not_lt.2 (Int.natCast_nonneg _)), hbefore, ok_bind, harg, ok_bind,
        Int.toNat_natCast, hlast]

theorem rewriteCallsFrom_ok {head : Pattern} (hhead : head.OpensCall) (f : Bytes → Bytes)
    (a s out : Bytes) :
    ∃ b rest written, a ++ s = b ++ rest ∧
      rewriteCallsFrom (a ++ s) head hhead f a.length out = .ok (b.length, out ++ written) ∧
      written ++ rest = mapCalls head f s ∧ a <+: b ∧ (b = [] → written = []) := by
  -- where nothing more is written, all of the text is left
  have hstop : ∀ a s out : Bytes, ∃ b rest written, a ++ s = b ++ rest ∧
      Except.ok (a.length, out) = (.ok (b.length, out ++ written) : Except Fault (Nat × Bytes)) ∧
      written ++ rest = s ∧ a <+: b ∧ (b = [] → written = []) :=
    fun a s out => ⟨a, s, [], rfl, by rw [List.append_nil], rfl, List.prefix_refl a, fun _ => rfl⟩
  fun_induction mapCalls head f s generalizing a out with
  | case1 s hm =>
    rw [rewriteCallsFrom_append, hm]
    exact hstop a s out
  | case2 s m hm hclose =>
    rw [rewriteCallsFrom_append, hm]
    dsimp only
    rw [hclose]
    exact hstop a s out
  | case3 s m hm arg rest hclose ih =>
    have hs : a ++ s = (a ++ m.before ++ m.text ++ arg ++ [closeParen]) ++ rest := by
      rw [← Pattern.text_of_find? hm, eq_append_of_splitParen? hclose]
      simp
    obtain ⟨b, left, written, hb, hfrom, hall, hprefix, -⟩ :=
      ih (a ++ m.before ++ m.text ++ arg ++ [closeParen]) (out ++ m.before ++ f arg)
    have hne : b ≠ [] := by
      rintro rfl
      exact absurd (List.prefix_nil.1 hprefix) (by simp)
    have hlead : a <+: b := by
      simp only [List.append_assoc] at hprefix
      exact (List.prefix_append _ _).trans hprefix
    refine ⟨b, left, m.before ++ f arg ++ written, hs.trans hb, ?_, ?_, hlead,
      fun h => absurd h hne⟩
    · rw [rewriteCallsFrom_append, hm]
      dsimp only
      rw [hclose]
      dsimp only
      rw [hs, hfrom]
      simp only [List.append_assoc]
    · rw [← hall]
      simp only [List.append_assoc]

/-- Writes `f arg` for each call whose head the pattern matches; `head` ends at the opening
parenthesis. -/
def rewriteCalls (s : Bytes) (head : Pattern) (hhead : head.OpensCall) (f : Bytes → Bytes) :
    Except Fault Bytes := do
  let (last, out) ← rewriteCallsFrom s head hhead f 0 []
  if last = 0 then return s
  else
    let rest ← sliceFrom s last
    return out ++ rest

theorem rewriteCalls_ok (s : Bytes) {head : Pattern} (hhead : head.OpensCall) (f : Bytes → Bytes) :
    rewriteCalls s head hhead f = .ok (mapCalls head f s) := by
  obtain ⟨b, rest, written, hs, hfrom, hall, -, hnil⟩ := rewriteCallsFrom_ok hhead f [] s []
  rw [List.nil_append] at hs
  rw [List.nil_append, List.length_nil, List.nil_append] at hfrom
  rw [rewriteCalls, hfrom, ok_bind]
  dsimp only
  split
  · rename_i hlen
    obtain rfl := List.length_eq_zero_iff.1 hlen
    rw [← hall, hnil rfl, hs]
    rfl
  · rw [sliceFrom_eq hs rfl, ok_bind, ← hall]
    rfl

theorem opensCall_callHead (name : String) : (callHead name).OpensCall :=
  Pattern.opensCall_of_endsCall rfl

/-- Writes the calls of renamed functions, and `UNIX_TIMESTAMP` as the seconds of an instant. -/
def convertFunctions (s : Bytes) : Except Fault Bytes :=
  let s := (callHead "SUBSTRING_INDEX").replace (ascii "split_part(") s
  let s := (emptyCall "UTC_TIMESTAMP").replace (ascii "CURRENT_TIMESTAMP AT TIME ZONE 'UTC'") s
  let s := (callHead "IFNULL").replace (ascii "COALESCE(") s
  let s := (emptyCall "RAND").replace (ascii "RANDOM()") s
  rewriteCalls s (callHead "UNIX_TIMESTAMP") (opensCall_callHead _)
    SqlDialect.convertFunctions.epochOf

theorem convertFunctions_ok (s : Bytes) :
    convertFunctions s = .ok (SqlDialect.convertFunctions s) :=
  rewriteCalls_ok _ _ _

theorem mapCalls_nil {head : Pattern} (hhead : head.OpensCall) (f : Bytes → Bytes) :
    mapCalls head f [] = [] := by
  rw [mapCalls]
  split
  · rfl
  · rename_i m hm
    obtain ⟨u, hu⟩ := hhead.exists_text hm
    have hs := Pattern.text_of_find? hm
    rw [hu] at hs
    simp at hs

/-- Writes `DATE(x)` as a cast in the clauses that filter, group and order. -/
def castDateCalls (s : Bytes) : Except Fault Bytes := do
  let start ← firstTopLevel s 0
    [Clause.wherePattern, Clause.groupByPattern, Clause.havingPattern, Clause.orderByPattern]
  if start = s.length then return s
  else
    let head ← sliceTo s start
    let clauses ← sliceFrom s start
    let clauses ← rewriteCalls clauses (callHead "DATE") (opensCall_callHead _) castToDate
    return head ++ clauses

theorem castDateCalls_ok (s : Bytes) : castDateCalls s = .ok (SqlDialect.castDateCalls s) := by
  have hstart := firstTopLevel_ok [Clause.wherePattern, Clause.groupByPattern,
    Clause.havingPattern, Clause.orderByPattern] (a := []) s fun _ => rfl
  have hs := (splitAtClause_append [Clause.wherePattern, Clause.groupByPattern,
    Clause.havingPattern, Clause.orderByPattern] s).symm
  rw [SqlDialect.castDateCalls]
  generalize splitAtClause [Clause.wherePattern, Clause.groupByPattern, Clause.havingPattern,
    Clause.orderByPattern] s = parts at hstart hs
  obtain ⟨head, clauses⟩ := parts
  dsimp only at hs hstart ⊢
  rw [List.nil_append, List.length_nil, Nat.zero_add] at hstart
  rw [castDateCalls, hstart, ok_bind]
  split
  · rename_i hend
    obtain rfl : clauses = [] := by
      rw [hs, List.length_append] at hend
      exact List.length_eq_zero_iff.1 (by omega)
    rw [mapCalls_nil (opensCall_callHead _), ← hs]
    rfl
  · rw [sliceTo_eq hs rfl, ok_bind, sliceFrom_eq hs rfl, ok_bind, rewriteCalls_ok, ok_bind]
    rfl

/-! ## Sort keys -/

/-- Writes a sort key `column + 0` as a cast to an integer. -/
def castOrderByPlusZero (s : Bytes) : Except Fault Bytes := do
  match ← findTopLevel s Clause.orderByPattern 0 with
  | none => return s
  | some (_, high) =>
    let head ← sliceTo s high
    let tail ← sliceFrom s high
    return head ++ plusZeroPattern.replaceWith
      (fun k => ascii "CAST(" ++ k.group 1 ++ ascii " AS INTEGER)" ++ k.group 2) tail

theorem castOrderByPlusZero_ok (s : Bytes) :
    castOrderByPlusZero s = .ok (SqlDialect.castOrderByPlusZero s) := by
  rw [castOrderByPlusZero, findTopLevel_zero, ok_bind, SqlDialect.castOrderByPlusZero]
  cases hm : findTop? Clause.orderByPattern s with
  | none => rfl
  | some m =>
    obtain ⟨-, hhead, htail⟩ := cuts_of_findTop? consumes_orderBy hm
    dsimp only [Option.map_some]
    rw [hhead, ok_bind, htail, ok_bind]
    rfl

/-- Unquotes one sort item and notes the column that it names. The literal is cut without a look at
whether there is one. -/
def unquoteOrderItem (lits : LiteralTable) (added : List Bytes) (item : Bytes) :
    Except Fault (Bytes × List Bytes) :=
  match literalOrderItem.find? item with
  | none => return (item, added)
  | some m => do
    let token ← elementAt (literalOrderItem.submatches m) 1
    let l ← lookup lits token
    let name ← body (l.getD ⟨0, []⟩)
    if columnNamePattern.occursIn name then
      let name ← normalizeName name
      let direction ← elementAt (literalOrderItem.submatches m) 2
      return (name ++ direction, added ++ [name])
    else return (item, added)

/-- The only access that may be out of range is the one to the content of a missing literal. -/
theorem unquoteOrderItem_eq {lits : LiteralTable} (hlits : Delimited lits) (added : List Bytes)
    (item : Bytes) :
    unquoteOrderItem lits added item
      = (SqlDialect.unquoteOrderItem lits item).map fun o =>
          (o.text, added ++ o.column.toList) := by
  rw [unquoteOrderItem, SqlDialect.unquoteOrderItem]
  cases hm : literalOrderItem.find? item with
  | none => exact congrArg (fun a => Except.ok (item, a)) (List.append_nil added).symm
  | some m =>
    have htoken : elementAt (literalOrderItem.submatches m) 1 = .ok (m.group 1) :=
      Pattern.submatch_ok (n := 1) (by decide) (by decide) m
    have hdirection : elementAt (literalOrderItem.submatches m) 2 = .ok (m.group 2) :=
      Pattern.submatch_ok (n := 2) (by decide) (by decide) m
    dsimp only
    rw [htoken, ok_bind, lookup_ok, ok_bind]
    cases hl : lits.lookup? (m.group 1) with
    | none =>
      rw [Option.getD_none, body_nil]
      rfl
    | some l =>
      rw [Option.getD_some, body_ok_of_lookup? hlits hl, ok_bind]
      dsimp only
      split
      · rw [normalizeName_ok, ok_bind, hdirection, ok_bind]
        rfl
      · exact congrArg (fun a => Except.ok (item, a)) (List.append_nil added).symm

/-- Sort items are unquoted one after the other until a literal is missing. -/
theorem mapCores_unquoteOrderItem {lits : LiteralTable} (hlits : Delimited lits)
    (added : List Bytes) (ps : List Spaced) :
    mapCores (unquoteOrderItem lits) added ps
      = (ps.mapM fun p => SqlDialect.unquoteOrderItem lits p.core).map fun orders =>
          (List.zipWith (fun p o => { p with core := o.text }) ps orders,
            added ++ orders.filterMap OrderItem.column) := by
  induction ps generalizing added with
  | nil =>
    rw [mapCores, List.mapM_nil]
    simp [Except.map]
  | cons p ps ih =>
    rw [mapCores, List.mapM_cons, unquoteOrderItem_eq hlits]
    cases SqlDialect.unquoteOrderItem lits p.core with
    | error e => rfl
    | ok o =>
      dsimp only [Except.map]
      rw [ok_bind, ok_bind]
      dsimp only
      rw [ih]
      cases ps.mapM fun p => SqlDialect.unquoteOrderItem lits p.core with
      | error e => rfl
      | ok orders =>
        dsimp only [Except.map]
        cases hcolumn : o.column <;> simp [hcolumn]

/-- Adds columns to the select list unless they are already selected or an item is a star. -/
def appendToSelectList (s : Bytes) (cols : List Bytes) : Except Fault Bytes := do
  match ← selectList s with
  | none => return s
  | some (start, stop) =>
    let whole ← slice s start stop
    let parts ← splitTopLevel whole
    let selected := parts.map Bytes.trimSpace
    if selected.any isStar then return s
    else
      let list := Bytes.trimRight whole
      let trail ← slice s (start + list.length : Nat) stop
      let head ← sliceTo s start
      let tail ← sliceFrom s stop
      return head ++ (list ++ addColumns (selected.map Bytes.toLower) cols) ++ trail ++ tail

theorem appendToSelectList_ok (s : Bytes) (cols : List Bytes) :
    appendToSelectList s cols = .ok (SqlDialect.appendToSelectList s cols) := by
  rw [appendToSelectList, selectList_ok, ok_bind, SqlDialect.appendToSelectList]
  cases hp : SelectParts.ofText? s with
  | none => rfl
  | some p =>
    obtain ⟨hs, -, -⟩ := cut_of_ofText? hp
    have hwhole : slice s p.head.length (p.head.length + p.list.length : Nat) = .ok p.list :=
      slice_eq hs rfl (Int.natCast_add _ _)
    have hlist : p.list
        = Bytes.trimRight p.list ++ p.list.drop (Bytes.trimRight p.list).length :=
      (Bytes.dropTailWhile_append_drop _ _).symm
    have htrail : slice s (p.head.length + (Bytes.trimRight p.list).length : Nat)
        (p.head.length + p.list.length : Nat)
        = .ok (p.list.drop (Bytes.trimRight p.list).length) :=
      slice_eq (a := p.head ++ Bytes.trimRight p.list) (c := p.tail)
        (by rw [List.append_assoc p.head, ← hlist, ← hs]) (by rw [List.length_append])
        (by
          have hlen := congrArg List.length hlist
          simp only [List.length_append] at hlen ⊢
          omega)
    have hhead : sliceTo s p.head.length = .ok p.head :=
      sliceTo_eq (hs.trans (List.append_assoc _ _ _)) rfl
    have htail : sliceFrom s (p.head.length + p.list.length : Nat) = .ok p.tail :=
      sliceFrom_eq hs (by rw [List.length_append])
    dsimp only [Option.map_some]
    rw [hwhole, ok_bind, splitTopLevel_ok, ok_bind]
    split
    · rfl
    · rw [htrail, ok_bind, hhead, ok_bind, htail, ok_bind]
      simp

/-- Writes `ORDER BY 'column'` as `ORDER BY column` and makes sure that the column is selected. -/
def unquoteOrderByLiteral (s : Bytes) (lits : LiteralTable) : Except Fault Bytes := do
  match ← findTopLevel s Clause.orderByPattern 0 with
  | none => return s
  | some (_, high) =>
    let stop ← firstTopLevel s high Clause.afterOrder
    let list ← slice s high stop
    let (list, added) ← mapItems (unquoteOrderItem lits) [] list
    if added.isEmpty then return s
    else
      let head ← sliceTo s high
      let tail ← sliceFrom s stop
      appendToSelectList (head ++ list ++ tail) added

theorem depthAfter_orderBy {s : Bytes} {m : Match} (h : findTop? Clause.orderByPattern s = some m) :
    depthAfter 0 (m.before ++ m.text) = 0 := by
  obtain ⟨-, c', hplaces⟩ := Pattern.places_of_findTop? consumes_orderBy h
  have hfree := Pattern.parens_of_leads (by decide) hplaces.leads hplaces.takes
  rw [depthAfter_append, depth_of_findTop? h, depthAfter_of_parens hfree]

theorem unquoteOrderByLiteral_eq (s : Bytes) {lits : LiteralTable} (hlits : Delimited lits) :
    unquoteOrderByLiteral s lits = SqlDialect.unquoteOrderByLiteral s lits := by
  rw [unquoteOrderByLiteral, findTopLevel_zero, ok_bind, SqlDialect.unquoteOrderByLiteral]
  cases hm : findTop? Clause.orderByPattern s with
  | none => rfl
  | some m =>
    obtain ⟨hs, -⟩ := Pattern.places_of_findTop? consumes_orderBy hm
    have hsplit := splitAtClause_append Clause.afterOrder m.after
    have hstop := firstTopLevel_ok Clause.afterOrder m.after fun _ => depthAfter_orderBy hm
    dsimp only [Option.map_some]
    generalize splitAtClause Clause.afterOrder m.after = parts at hsplit hstop ⊢
    obtain ⟨list, tail⟩ := parts
    dsimp only at hsplit hstop ⊢
    have hcut : s = (m.before ++ m.text) ++ list ++ tail := by
      rw [List.append_assoc, hsplit, ← hs]
    have hhigh : (placeBehind [] m).2 = (m.before ++ m.text).length := by
      simp [placeBehind]
    have hlist : slice s (m.before ++ m.text).length
        ((m.before ++ m.text).length + list.length : Nat) = .ok list :=
      slice_eq hcut rfl (Int.natCast_add _ _)
    have htail : sliceFrom s ((m.before ++ m.text).length + list.length : Nat) = .ok tail :=
      sliceFrom_eq hcut (by simp only [List.length_append])
    obtain ⟨-, hhead, -⟩ := cuts_of_findTop? consumes_orderBy hm
    rw [hhigh] at hhead
    rw [← hs] at hstop
    rw [hhigh, hstop, ok_bind, hlist, ok_bind, mapItems_eq, mapCores_unquoteOrderItem hlits]
    cases (items list).mapM fun p => SqlDialect.unquoteOrderItem lits p.core with
    | error e => rfl
    | ok orders =>
      dsimp only [Except.map]
      rw [ok_bind, ok_bind]
      dsimp only
      rw [List.nil_append]
      split
      · rfl
      · rw [hhead, ok_bind, htail, ok_bind, appendToSelectList_ok]

end SqlDialect.Checked
