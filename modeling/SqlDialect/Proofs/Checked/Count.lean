import SqlDialect.Proofs.Checked.Query
import SqlDialect.Proofs.Query.CountStable
import SqlDialect.Query.FoundRows

set_option autoImplicit false

/-! # Counts by place

The naming of counts, and the query that counts the rows of the last one, with every text cut out
between places. The places of a select list stay in range while the list is rewritten: what stands
behind it is looked for from the end of the new list on. -/

namespace SqlDialect.Checked

/-! ## Counts in the select list -/

/-- Names a count and notes a plain column; `n` is the number of counts named so far. -/
def nameCount (state : Nat × List Bytes) (item : Bytes) :
    Except Fault (Bytes × Nat × List Bytes) :=
  let (n, plain) := state
  if isPlainColumn item then return (item, n, plain ++ [item])
  else
    match countHead.span? item with
    | none => return (item, n, plain)
    | some (_, high) => do
      let closing ← matchParen item ((high : Int) - 1)
      if closing ≠ (item.length : Int) - 1 then return (item, n, plain)
      else
        let arg ← slice item high ((item.length : Int) - 1)
        if Bytes.trimSpace arg = ascii "*" then return (item, n, plain)
        else return (item ++ ascii " AS count" ++ Bytes.decimal n, n + 1, plain)

theorem opensCall_countHead : countHead.OpensCall :=
  Pattern.opensCall_of_endsCall (by decide)

/-- The list of arguments behind the head of a count is all that may follow. -/
theorem isCountCall_of_find? {item : Bytes} {m : Match} (hm : countHead.find? item = some m) :
    isCountCall item = (splitParen? m.after).any fun p =>
      p.2.isEmpty && Bytes.trimSpace p.1 != ascii "*" := by
  rw [isCountCall, hm]
  dsimp only
  rcases splitParen? m.after with _ | ⟨arg, _ | ⟨b, rest⟩⟩
  · rfl
  · simp
  · rfl

theorem nameCount_ok (n : Nat) (plain : List Bytes) (item : Bytes) :
    nameCount (n, plain) item
      = .ok (if isPlainColumn item then (item, n, plain ++ [item])
          else if isCountCall item then
            (item ++ ascii " AS count" ++ Bytes.decimal n, n + 1, plain)
          else (item, n, plain)) := by
  rw [nameCount]
  split
  · rfl
  · cases hm : countHead.find? item with
    | none =>
      have hcall : isCountCall item = false := by rw [isCountCall, hm]
      rw [Pattern.span?, hm, hcall]
      rfl
    | some m =>
      obtain ⟨u, hu⟩ := opensCall_countHead.exists_text hm
      have hitem : item = (m.before ++ u) ++ openParen :: m.after := by
        rw [← Pattern.text_of_find? hm, hu]
        simp
      have hhigh :
          ((m.before.length + m.text.length : Nat) : Int) - 1 = (m.before ++ u).length := by
        rw [hu]
        simp only [List.length_append, List.length_singleton]
        omega
      have hlen : item.length = (m.before ++ u).length + 1 + m.after.length := by
        rw [hitem]
        simp only [List.length_append, List.length_cons]
        omega
      have hmatch := matchParen_ok (m.before ++ u) m.after
      rw [← hitem, ← hhigh] at hmatch
      have hcall := isCountCall_of_find? hm
      rw [Pattern.span?, hm]
      dsimp only [Option.map_some]
      rw [hmatch, ok_bind, hcall]
      cases hclose : splitParen? m.after with
      | none =>
        dsimp only [Option.map_none, Option.getD_none]
        rw [if_pos (by omega)]
        rfl
      | some parts =>
        obtain ⟨arg, rest⟩ := parts
        have hafter := eq_append_of_splitParen? hclose
        have hlast : m.after.length = arg.length + 1 + rest.length := by
          rw [hafter]
          simp only [List.length_append, List.length_cons]
          omega
        dsimp only [Option.map_some, Option.getD_some]
        cases rest with
        | cons b rest =>
          rw [List.length_cons] at hlast
          rw [if_pos (by omega)]
          rfl
        | nil =>
          rw [List.length_nil] at hlast
          have harg : slice item (m.before.length + m.text.length : Nat) ((item.length : Int) - 1)
              = .ok arg :=
            slice_eq (a := m.before ++ m.text) (c := [closeParen])
              (by rw [hitem, hafter, hu]; simp) (by rw [List.length_append])
              (by rw [hu] at hhigh ⊢; simp only [List.length_append] at hhigh hlen ⊢; omega)
          rw [if_neg (by omega), harg, ok_bind]
          by_cases hstar : Bytes.trimSpace arg = ascii "*"
          · rw [if_pos hstar]
            simp [hstar]
          · rw [if_neg hstar]
            simp [hstar]

/-- The counts are named from left to right; the plain columns are noted in their order. -/
theorem mapCores_nameCount (n : Nat) (plain : List Bytes) (ps : List Spaced) :
    mapCores nameCount (n, plain) ps
      = .ok (nameCounts n ps, n + (ps.filter fun p => isUnnamedCount p.core).length,
          plain ++ (ps.map Spaced.core).filter isPlainColumn) := by
  induction ps generalizing n plain with
  | nil => exact congrArg (fun l => Except.ok ([], n, l)) (List.append_nil plain).symm
  | cons p ps ih =>
    rw [mapCores, nameCount_ok, ok_bind, nameCounts, List.map_cons, List.filter_cons,
      List.filter_cons, isUnnamedCount]
    by_cases hplain : isPlainColumn p.core = true
    · simp only [hplain, Bool.not_true, Bool.false_and, Bool.false_eq_true, if_false]
      rw [ih]
      simp
    · rw [if_neg hplain, if_neg hplain]
      simp only [Bool.not_eq_true] at hplain
      by_cases hcount : isCountCall p.core = true
      · simp only [hplain, hcount, Bool.not_false, Bool.true_and, if_true]
        rw [ih]
        simp [Nat.add_assoc, Nat.add_comm]
      · simp only [Bool.not_eq_true] at hcount
        simp only [hplain, hcount, Bool.and_false, Bool.false_eq_true, if_false]
        rw [ih]
        rfl

/-- Puts a clause before the clauses that follow GROUP BY behind a place, or before the semicolons
at the end. -/
def insertGroupBy (s : Bytes) (stop : Nat) (clause : Bytes) : Except Fault Bytes := do
  let place ← firstTopLevel s stop afterGroup
  if place = s.length then
    let (text, had) ← trimStatementEnd s
    return text ++ ascii " " ++ clause ++ semicolonIf had
  else
    let before ← sliceTo s place
    let after ← sliceFrom s place
    return Bytes.trimRight before ++ ascii " " ++ clause ++ ascii " " ++ after

theorem insertGroupBy_ok {head tail : Bytes} (h : tail ≠ [] → depthAfter 0 head = 0)
    (clause : Bytes) :
    insertGroupBy (head ++ tail) head.length clause
      = .ok (SqlDialect.insertGroupBy head tail clause) := by
  have hplace := firstTopLevel_ok afterGroup tail h
  have hsplit := splitAtClause_append afterGroup tail
  rw [insertGroupBy, hplace, ok_bind, SqlDialect.insertGroupBy]
  generalize splitAtClause afterGroup tail = parts at hsplit ⊢
  obtain ⟨before, after⟩ := parts
  dsimp only at hsplit ⊢
  subst hsplit
  cases after with
  | nil =>
    rw [if_pos (by simp), trimStatementEnd_ok, ok_bind]
    rfl
  | cons b after =>
    have hbefore : sliceTo (head ++ (before ++ b :: after)) (head.length + before.length : Nat)
        = .ok (head ++ before) :=
      sliceTo_eq (List.append_assoc _ _ _).symm (by rw [List.length_append])
    have hafter : sliceFrom (head ++ (before ++ b :: after)) (head.length + before.length : Nat)
        = .ok (b :: after) :=
      sliceFrom_eq (List.append_assoc _ _ _).symm (by rw [List.length_append])
    rw [if_neg (by simp), hbefore, ok_bind, hafter, ok_bind]
    rfl

/-- Names the counts of the select list and groups by its plain columns where that is due. -/
def aliasCountsAndGroup (s : Bytes) : Except Fault Bytes := do
  match ← selectList s with
  | none => return s
  | some (start, stop) =>
    let list ← slice s start stop
    let (list, n, plain) ← mapItems nameCount (0, []) list
    if n = 0 then return s
    else
      let head ← sliceTo s start
      let tail ← sliceFrom s stop
      let named := head ++ list ++ tail
      let stop := start + list.length
      if plain.isEmpty then return named
      else
        let grouped ← findTopLevel named Clause.groupByPattern stop
        if grouped.isSome then return named
        else insertGroupBy named stop (ascii "GROUP BY " ++ Bytes.join (ascii ", ") plain)

theorem aliasCountsAndGroup_ok (s : Bytes) :
    aliasCountsAndGroup s = .ok (SqlDialect.aliasCountsAndGroup s) := by
  rw [aliasCountsAndGroup, selectList_ok, ok_bind, SqlDialect.aliasCountsAndGroup]
  cases hp : SelectParts.ofText? s with
  | none => rfl
  | some p =>
    obtain ⟨hs, hhead, hdepth⟩ := cut_of_ofText? hp
    have hlist : slice s p.head.length (p.head.length + p.list.length : Nat) = .ok p.list :=
      slice_eq hs rfl (Int.natCast_add _ _)
    have hlead : sliceTo s p.head.length = .ok p.head :=
      sliceTo_eq (hs.trans (List.append_assoc _ _ _)) rfl
    have htail : sliceFrom s (p.head.length + p.list.length : Nat) = .ok p.tail :=
      sliceFrom_eq hs (by rw [List.length_append])
    dsimp only [Option.map_some]
    rw [hlist, ok_bind, mapItems_eq, mapCores_nameCount]
    dsimp only [Except.map]
    rw [ok_bind, Nat.zero_add, List.nil_append]
    dsimp only
    by_cases hcount : ((items p.list).any fun q => isUnnamedCount q.core) = true
    · have hne : ((items p.list).filter fun q => isUnnamedCount q.core).length ≠ 0 := by
        obtain ⟨q, hq, hunnamed⟩ := List.any_eq_true.1 hcount
        have hmem : q ∈ (items p.list).filter fun q => isUnnamedCount q.core :=
          List.mem_filter.2 ⟨hq, hunnamed⟩
        exact Nat.pos_iff_ne_zero.1 (List.length_pos_of_mem hmem)
      -- behind a list that ends outside parentheses the named one ends outside them as well
      have hnamed : p.tail ≠ [] →
          depthAfter 0 (p.head ++ ofItems (nameCounts 0 (items p.list))) = 0 := by
        intro htailne
        have hlistdepth := (hdepth.resolve_left htailne).2
        rw [depthAfter_append, hhead]
        exact (SelectParts.depthAfter_named 0).trans hlistdepth
      have hgrouped := findTopLevel_ok Clause.groupByPattern p.tail hnamed
      have hinsert := insertGroupBy_ok hnamed
      rw [List.length_append] at hgrouped hinsert
      rw [if_neg hne, hlead, ok_bind, htail, ok_bind, hcount, Bool.not_true,
        if_neg Bool.false_ne_true, hgrouped, ok_bind, Option.isSome_map, hinsert]
      by_cases hplain : (((items p.list).map Spaced.core).filter isPlainColumn).isEmpty = true
      · rw [if_pos hplain, hplain]
        rfl
      · rw [if_neg hplain, Bool.eq_false_iff.2 hplain, Bool.false_or]
        split <;> rfl
    · have hnil : ((items p.list).filter fun q => isUnnamedCount q.core).length = 0 := by
        rw [Bool.not_eq_true, List.any_eq_false] at hcount
        rw [List.filter_eq_nil_iff.2 hcount]
        rfl
      rw [if_pos hnil, Bool.eq_false_iff.2 hcount]
      rfl

/-! ## Counting the last query -/

/-- The query that counts the rows of the last query. -/
def foundRowsQuery (last : Bytes) : Except Fault (Bytes × LiteralTable) := do
  if (Bytes.trimSpace last).isEmpty then return countNothing
  else
    let (shielded, lits) ← shield last
    let (s, _) ← trimStatementEnd (stripCalcFoundRows shielded)
    match ← selectList s with
    | none => return countNothing
    | some (_, listEnd) =>
      if listEnd = s.length then return countNothing
      else
        let cut ← firstTopLevel s listEnd (Clause.orderByPattern :: Clause.afterOrder)
        let before ← sliceTo s cut
        let query := Bytes.trimRight before
        if selectDistinctPattern.occursIn query then
          return (ascii "SELECT COUNT(*) FROM (" ++ Bytes.trimSpace query ++
            ascii ") AS found_rows", lits)
        else
          let grouped ← findTopLevel query Clause.groupByPattern listEnd
          let having ← findTopLevel query Clause.havingPattern listEnd
          if grouped.isSome || having.isSome then
            return (ascii "SELECT COUNT(*) FROM (" ++ Bytes.trimSpace query ++
              ascii ") AS found_rows", lits)
          else
            let source ← sliceFrom query listEnd
            return (ascii "SELECT COUNT(*) " ++ source, lits)

/-- What is counted starts with FROM. -/
theorem exists_from_of_ofText? {s : Bytes} {p : SelectParts} (h : SelectParts.ofText? s = some p)
    (hne : p.tail ≠ []) :
    ∃ f r, (splitAtClause (Clause.orderByPattern :: Clause.afterOrder) p.tail).1 = f ++ r ∧
      Bytes.IsWord f := by
  obtain ⟨m, hm, rfl⟩ := Option.map_eq_some_iff.1 h
  cases hfrom : findTop? Clause.fromPattern m.after with
  | none =>
    rw [hfrom] at hne
    exact absurd rfl hne
  | some f =>
    obtain ⟨-, c', hplaces⟩ :=
      Pattern.places_of_findTop? (Pattern.consumes_wholeWord (by decide)) hfrom
    have hascii : Pattern.AsciiKeyword "FROM" := by decide
    obtain ⟨htext, -, -⟩ := hplaces.wholeWord (by decide) hascii
    have hword : Bytes.IsWord f.text :=
      Bytes.IsWord.of_map_lowerByte (s := ascii "FROM") (by decide) htext
    dsimp only
    rw [splitAtClause, List.splitAt_eq]
    rcases topIndex_cases (Clause.orderByPattern :: Clause.afterOrder) (f.text ++ f.after) with
      hend | ⟨q, hq, n, hn, hlen⟩
    · exact ⟨f.text, f.after, by rw [hend, List.take_length], hword⟩
    · have hafter : q ∈ afterGroup := List.mem_cons_of_mem _ hq
      obtain ⟨r, hbefore⟩ := exists_behind_from hafter htext hn
      obtain ⟨hs, -⟩ := Pattern.places_of_findTop? (consumes_afterGroup hafter) hn
      refine ⟨f.text, r, ?_, hword⟩
      rw [← hlen, ← hbefore, hs, List.append_assoc]
      exact List.take_left' rfl

/-- No blank in front of a word is trimmed. -/
theorem trimRight_behind {f : Bytes} (hf : Bytes.IsWord f) (a r : Bytes) :
    Bytes.trimRight (a ++ (f ++ r)) = a ++ Bytes.trimRight (f ++ r) := by
  have hlast : ∀ x ∈ f.getLast?, Bytes.isBlank x = false := fun x hx =>
    Bytes.not_isBlank_of_isWord (hf.2 x (List.mem_of_getLast? hx))
  refine Bytes.dropTailWhile_append_of_ne_nil a ?_
  rw [Bytes.dropTailWhile_append hlast]
  exact fun hnil => hf.1 (List.append_eq_nil_iff.1 hnil).1

theorem foundRowsQuery_ok (last : Bytes) :
    foundRowsQuery last = .ok (SqlDialect.foundRowsQuery last) := by
  rw [foundRowsQuery, SqlDialect.foundRowsQuery]
  split
  · rfl
  · rw [shield_ok, ok_bind]
    dsimp only
    rw [trimStatementEnd_ok, ok_bind]
    generalize (SqlDialect.trimStatementEnd (stripCalcFoundRows (SqlDialect.shield last).1)).1 = s
    rw [selectList_ok, ok_bind]
    cases hp : SelectParts.ofText? s with
    | none => rfl
    | some p =>
      obtain ⟨hs, hhead, hdepth⟩ := cut_of_ofText? hp
      dsimp only [Option.map_some]
      by_cases htail : p.tail = []
      · rw [if_pos (by rw [hs, htail]; simp), htail]
        rfl
      · have hne : p.head.length + p.list.length ≠ s.length := by
          have hpos := List.length_pos_iff.2 htail
          rw [hs]
          simp only [List.length_append]
          omega
        have hlead : depthAfter 0 (p.head ++ p.list) = 0 := by
          rw [depthAfter_append, hhead, (hdepth.resolve_left htail).2]
        have hcut := firstTopLevel_ok (Clause.orderByPattern :: Clause.afterOrder) p.tail
          fun _ => hlead
        have hsplit := splitAtClause_append (Clause.orderByPattern :: Clause.afterOrder) p.tail
        obtain ⟨f, r, hfrom, hword⟩ := exists_from_of_ofText? hp htail
        rw [if_neg hne, if_neg (by simpa using htail)]
        generalize splitAtClause (Clause.orderByPattern :: Clause.afterOrder) p.tail = parts
          at hcut hsplit hfrom ⊢
        obtain ⟨source, rest⟩ := parts
        dsimp only at hcut hsplit hfrom ⊢
        rw [← hs, List.length_append] at hcut
        have hbefore : sliceTo s (p.head.length + p.list.length + source.length : Nat)
            = .ok (p.head ++ p.list ++ source) :=
          sliceTo_eq (b := rest) (by rw [hs, ← hsplit]; simp only [List.append_assoc])
            (by simp only [List.length_append])
        -- what is counted starts with FROM
        have htrim : Bytes.trimRight (p.head ++ p.list ++ source)
            = p.head ++ p.list ++ Bytes.trimRight source := by
          rw [hfrom]
          exact trimRight_behind hword _ r
        have hgrouped := findTopLevel_ok Clause.groupByPattern (Bytes.trimRight source)
          fun _ => hlead
        have hhaving := findTopLevel_ok Clause.havingPattern (Bytes.trimRight source)
          fun _ => hlead
        have hsource : sliceFrom (p.head ++ p.list ++ Bytes.trimRight source)
            (p.head.length + p.list.length : Nat) = .ok (Bytes.trimRight source) :=
          sliceFrom_eq rfl (by rw [List.length_append])
        rw [List.length_append] at hgrouped hhaving
        rw [hcut, ok_bind, hbefore, ok_bind, htrim, hgrouped, ok_bind, hhaving, ok_bind, hsource,
          Option.isSome_map, Option.isSome_map]
        by_cases hdistinct : selectDistinctPattern.occursIn
            (p.head ++ p.list ++ Bytes.trimRight source) = true
        · rw [if_pos hdistinct, hdistinct]
          rfl
        · rw [if_neg hdistinct, Bool.eq_false_iff.2 hdistinct, Bool.false_or]
          split <;> rfl

end SqlDialect.Checked
