import SqlDialect.Proofs.Query.Casts
import SqlDialect.Proofs.Query.CountStable
import SqlDialect.Proofs.Query.LikeWord
import SqlDialect.Proofs.Query.LimitClause
import SqlDialect.Proofs.Query.UpsertClauses

set_option autoImplicit false

/-! # The word LIKE in the clauses of a query

Behind the rule for LIKE a query is sorted, limited, counted and grouped. These rules move parts of the
text, so a LIKE could come about at a joint or from a name that a literal holds. It does not, if no name
of a sort column is that word (`sortColumns`) and if no word goes on behind the operands of a LIMIT
(`OperandsApart`). -/

namespace SqlDialect

open Bytes

/-! ## Lists -/

theorem any_isWord_comma_cons (s : Bytes) :
    (comma :: s).getLast?.any isWord = s.getLast?.any isWord := by
  cases h : s.getLast? with
  | none =>
    rw [List.getLast?_eq_none_iff.1 h]
    rfl
  | some x =>
    rw [List.getLast?_cons, h]
    rfl

/-- A list whose parts end with word bytes only where those of another one do. -/
theorem any_isWord_join {xs ys : List Bytes}
    (h : List.Forall₂ (fun x y : Bytes =>
      x.getLast?.any isWord = false → y.getLast?.any isWord = false) xs ys)
    (hlast : (join [comma] xs).getLast?.any isWord = false) :
    (join [comma] ys).getLast?.any isWord = false := by
  have hcons : ∀ (x x' : Bytes) (xs : List Bytes), (join [comma] (x :: x' :: xs)).getLast?.any isWord
      = (join [comma] (x' :: xs)).getLast?.any isWord := by
    intro x x' xs
    rw [join_cons_cons, Pattern.getLast?_append_of_ne_nil _ (by simp), List.singleton_append,
      any_isWord_comma_cons]
  induction h with
  | nil => exact hlast
  | @cons x y xs ys hxy hrest ih =>
    cases hrest with
    | nil => simpa [join] using hxy (by simpa [join] using hlast)
    | cons hxy' hrest' =>
      rw [hcons] at hlast ⊢
      exact ih hlast

namespace Sought

variable {q : Sought} {s : Bytes}

/-- The items of a list without their blanks. -/
theorem Absent.core (h : q.Absent s) {p : Spaced} (hp : p ∈ items s) : q.Absent p.core := by
  obtain ⟨part, hpart, rfl⟩ := List.mem_map.1 hp
  have hspaced := Spaced.isSpaced_ofText part
  have htext := h.splitTop hpart
  rw [← Spaced.text_ofText part, Spaced.text] at htext
  refine (htext.left (Or.inr (Or.inl ?_))).right (Or.inl (Or.inl ?_))
  · exact any_isWord_eq_false fun x hx => isWord_of_isBlank (hspaced.trail x (List.mem_of_head? hx))
  · exact any_isWord_eq_false fun x hx =>
      isWord_of_isBlank (hspaced.lead x (List.mem_of_getLast? hx))

/-- An item with the blanks of another one. -/
theorem absent_text (hlead : q.lead = none) {p : Spaced} (hp : IsSpaced p) {core : Bytes}
    (h : q.Absent core) : q.Absent ({ p with core := core } : Spaced).text := by
  have hblank : ∀ t : Bytes, (∀ b ∈ t, isBlank b = true) → q.Absent t := fun t ht =>
    absent_of_not_isWord fun b hb => isWord_of_isBlank (ht b hb)
  refine ((hblank _ hp.lead).append h (apart_of_edge hlead (Or.inl ?_))).append (hblank _ hp.trail)
    (apart_of_edge hlead (Or.inr ?_))
  · exact any_isWord_eq_false fun x hx => isWord_of_isBlank (hp.lead x (List.mem_of_getLast? hx))
  · exact any_isWord_eq_false fun x hx => isWord_of_isBlank (hp.trail x (List.mem_of_head? hx))

theorem absent_ofItems {ps : List Spaced} (h : ∀ p ∈ ps, q.Absent p.text) : q.Absent (ofItems ps) := by
  refine Absent.join (neutral_of_not_isWord (by simp) (by decide)) rfl fun part hpart => ?_
  obtain ⟨p, hp, rfl⟩ := List.mem_map.1 hpart
  exact h p hp

end Sought

/-! ## Sort columns -/

/-- The columns that the literals among the sort items name. -/
def sortColumns (s : Bytes) (lits : LiteralTable) : List Bytes :=
  match findTop? Clause.orderByPattern s with
  | none => []
  | some m =>
    (items (splitAtClause Clause.afterOrder m.after).1).filterMap fun p =>
      (unquoteOrderItem lits p.core).toOption.bind OrderItem.column

/-- A sort item that is a lone placeholder ends with a word byte. -/
theorem last_of_literalOrderItem {c c' : Pattern.Cursor} (h : Pattern.Leads literalOrderItem c c') :
    c'.prev.any isWord = true := by
  obtain ⟨c₁, -, h₁⟩ := Pattern.leads_seqs_cons.1 h
  obtain ⟨c₂, hgroup, h₂⟩ := Pattern.leads_seqs_cons.1 h₁
  obtain ⟨c₃, hopt, h₃⟩ := Pattern.leads_seqs_cons.1 h₂
  obtain ⟨c₄, hend, hnil⟩ := Pattern.leads_seqs_cons.1 h₃
  obtain rfl := Pattern.leads_nothing.1 hnil
  obtain rfl : c' = c₃ := by cases hend; rfl
  rcases Pattern.leads_alt.1 hopt with hdir | hnone
  · obtain ⟨d, hwords, rfl⟩ := Pattern.leads_group.1 hdir
    obtain ⟨d₁, -, hkeys⟩ := Pattern.leads_seq.1 hwords
    obtain ⟨word, hword, hkey⟩ := Pattern.leads_keywords (List.cons_ne_nil _ _) hkeys
    have hlast : ∀ word ∈ ["ASC", "DESC"], (∀ ch ∈ word.toList, ch.toNat < 128) ∧
        word.toList.getLast? = some 'C' := by
      decide
    obtain ⟨t, htakes, hspells, -⟩ := Pattern.leads_keyword_spells (hlast word hword).1 hkey
    obtain ⟨y, hy, hlower⟩ := hspells.last 'C' (hlast word hword).2 (by decide)
    show d.prev.any isWord = true
    rw [htakes.prev, hy, Option.some_or, Option.any_some, ← isWord_lowerByte, hlower]
    rfl
  · obtain rfl := Pattern.leads_nothing.1 hnone
    obtain ⟨d, htoken, rfl⟩ := Pattern.leads_group.1 hgroup
    obtain ⟨d₁, -, h₁⟩ := Pattern.leads_seqs_cons.1 htoken
    obtain ⟨d₂, -, h₂⟩ := Pattern.leads_seqs_cons.1 h₁
    obtain ⟨d₃, hclose, hnil⟩ := Pattern.leads_seqs_cons.1 h₂
    obtain rfl := Pattern.leads_nothing.1 hnil
    show d.prev.any isWord = true
    rw [(Pattern.leads_text (by decide) hclose).prev]
    rfl

/-- A blank stands in front of the direction of a sort item. -/
theorem head_of_direction {item : Bytes} {m : Match} (hm : literalOrderItem.find? item = some m) :
    (m.group 2).head?.any isWord = false := by
  refine Pattern.group_of_leads (P := fun t => t.head?.any isWord = false) rfl
    (fun q hq c c' t hleads htakes => ?_) hm
  have hone : literalOrderItem.recordedAs 2 = [.seq .blanks1 (.keywords ["ASC", "DESC"])] := rfl
  rw [hone] at hq
  obtain rfl := List.mem_singleton.1 hq
  obtain ⟨d, hblanks, hkeys⟩ := Pattern.leads_seq.1 hleads
  obtain ⟨bl, hne, hbl, hblTakes⟩ := Pattern.leads_blanks1 hblanks
  obtain ⟨r, hr⟩ := hkeys.takes
  rw [htakes.unique (hblTakes.trans hr), head?_append_left hne]
  exact any_isWord_eq_false fun x hx => (ascii_of_blank (hbl x (List.mem_of_head? hx))).2.2

/-- A sort item brings the word about only if its column is the word; a literal among the items is a
word. -/
theorem absent_unquoteOrderItem {lits : LiteralTable} {item : Bytes} {o : OrderItem}
    (h : unquoteOrderItem lits item = .ok o) (hitem : likeWord.Absent item)
    (hcol : ∀ col ∈ o.column, likeWord.Absent col) :
    likeWord.Absent o.text ∧ (item.getLast?.any isWord = false → o.text = item) := by
  rw [unquoteOrderItem] at h
  split at h
  · cases h
    exact ⟨hitem, fun _ => rfl⟩
  · rename_i m hm
    split at h
    · cases h
    · split at h
      · cases h
        refine ⟨(hcol _ rfl).append (absent_of_notMem (notMem_group (by decide) hm))
          (Sought.apart_of_edge rfl (Or.inr (head_of_direction hm))), fun hlast => ?_⟩
        obtain ⟨c', hplaces, -⟩ := Pattern.places_of_findFrom? hm
        have hword := last_of_literalOrderItem hplaces.leads
        rw [hplaces.takes.prev, Pattern.before_eq_nil hm, @Pattern.text_eq_of_whole
          [.group 1 literalToken, .opt (.group 2 (.seq .blanks1 (.keywords ["ASC", "DESC"])))] _ _ hm]
          at hword
        cases hitemLast : item.getLast? with
        | none =>
          rw [hitemLast] at hword
          cases hword
        | some x =>
          rw [hitemLast] at hword hlast
          exact absurd (hword.symm.trans hlast) Bool.noConfusion
      · cases h
        exact ⟨hitem, fun _ => rfl⟩

theorem forall₂_of_mapM {α β : Type} {f : α → Except Fault β} {as : List α} {bs : List β}
    (h : as.mapM f = .ok bs) : List.Forall₂ (fun a b => f a = .ok b) as bs := by
  induction as generalizing bs with
  | nil =>
    cases h
    exact .nil
  | cons a as ih =>
    rw [List.mapM_cons] at h
    cases hfirst : f a with
    | error e =>
      rw [hfirst] at h
      cases h
    | ok b =>
      cases hrest : as.mapM f with
      | error e =>
        rw [hfirst, hrest] at h
        cases h
      | ok bs' =>
        rw [hfirst, hrest] at h
        cases h
        exact .cons hfirst (ih hrest)

/-- What the items of a list become. -/
theorem absent_unquoted {lits : LiteralTable} {parts : List Spaced} {orders : List OrderItem}
    (h : List.Forall₂ (fun (p : Spaced) o => unquoteOrderItem lits p.core = .ok o) parts orders)
    (hparts : ∀ p ∈ parts, IsSpaced p ∧ likeWord.Absent p.core)
    (hcols : ∀ o ∈ orders, ∀ col ∈ o.column, likeWord.Absent col) :
    (∀ p ∈ List.zipWith (fun (p : Spaced) (o : OrderItem) => { p with core := o.text }) parts orders,
        likeWord.Absent p.text) ∧
      List.Forall₂ (fun x y : Bytes =>
          x.getLast?.any isWord = false → y.getLast?.any isWord = false) (parts.map Spaced.text)
        ((List.zipWith (fun (p : Spaced) (o : OrderItem) => { p with core := o.text }) parts
          orders).map Spaced.text) := by
  induction h with
  | nil => exact ⟨by simp, .nil⟩
  | @cons p o parts orders hitem _ ih =>
    obtain ⟨⟨hspaced, hcore⟩, hparts⟩ := List.forall_mem_cons.1 hparts
    obtain ⟨hcol, hcols⟩ := List.forall_mem_cons.1 hcols
    obtain ⟨htexts, hlasts⟩ := ih hparts hcols
    obtain ⟨htext, hsame⟩ := absent_unquoteOrderItem hitem hcore hcol
    rw [List.zipWith_cons_cons]
    refine ⟨List.forall_mem_cons.2 ⟨Sought.absent_text rfl hspaced htext, htexts⟩,
      .cons (fun hlast => ?_) hlasts⟩
    by_cases hnil : p.trail = []
    · have hword : p.core.getLast?.any isWord = false := by
        by_cases hempty : p.core = []
        · rw [hempty]
          rfl
        · rwa [Spaced.text, hnil, List.append_nil, Pattern.getLast?_append_of_ne_nil _ hempty] at hlast
      rw [hsame hword]
      exact hlast
    · rw [Spaced.text, Pattern.getLast?_append_of_ne_nil _ hnil] at hlast ⊢
      exact hlast

/-! ## The select list -/

namespace SelectParts

variable {s : Bytes} {p : SelectParts} (hp : ofText? s = some p)

include hp

/-- The list starts behind a blank, and FROM stands by itself. -/
theorem edges : p.head.getLast?.any isWord = false ∧
    (p.tail ≠ [] → (p.head ++ p.list).getLast?.any isWord = false) ∧
    ∀ x ∈ p.tail.head?, likeWord.Foreign x := by
  obtain ⟨⟨m, hm, hhead, -⟩, -, htop⟩ := of_ofText? hp
  have hlast : p.head.getLast?.any isWord = false := by
    obtain ⟨-, -, -, x, hx, hblank⟩ := find?_selectHead hm
    rw [← hhead, hx]
    exact (ascii_of_blank hblank).2.2
  refine ⟨hlast, fun htail => ?_, fun x hx => ?_⟩
  · obtain ⟨-, -, -, -, hlist, -⟩ := htop htail
    by_cases hnil : p.list = []
    · rwa [hnil, List.append_nil]
    · rwa [Pattern.getLast?_append_of_ne_nil _ hnil]
  · obtain ⟨w, r, htail, hw, -⟩ := htop (by rintro hnil; rw [hnil] at hx; cases hx)
    obtain ⟨y, w, rfl, hy, -⟩ := List.map_eq_cons_iff.1 hw
    rw [htail] at hx
    obtain rfl := Option.some.inj hx
    exact forall_lowerByte (P := likeWord.Foreign) (l := [lowerByte 70]) (by decide)
      (List.mem_singleton.2 hy)

theorem absent (h : likeWord.Absent s) :
    likeWord.Absent p.head ∧ likeWord.Absent p.list ∧ likeWord.Absent p.tail := by
  obtain ⟨hhead, htail, -⟩ := edges hp
  rw [(eq_of_ofText? hp).1] at h
  by_cases hnil : p.tail = []
  · rw [hnil, List.append_nil] at h
    exact ⟨h.left (Or.inl hhead), h.right (Or.inl (Or.inl hhead)), hnil ▸ Sought.absent_nil⟩
  · have hstart := h.left (Or.inl (htail hnil))
    exact ⟨hstart.left (Or.inl hhead), hstart.right (Or.inl (Or.inl hhead)),
      h.right (Or.inl (Or.inl (htail hnil)))⟩

end SelectParts

theorem foreign_blank {x : UInt8} (hx : isBlank x = true) : likeWord.Foreign x :=
  Sought.foreign_of_not_isWord (isWord_of_isBlank hx)

theorem absent_addColumns {cols : List Bytes} (hcols : ∀ col ∈ cols, likeWord.Absent col) {u : Bytes}
    (hu : likeWord.Absent u) (present : List Bytes) :
    likeWord.Absent (u ++ addColumns present cols) := by
  induction cols generalizing u present with
  | nil => simpa [addColumns] using hu
  | cons col cols ih =>
    obtain ⟨hcol, hcols⟩ := List.forall_mem_cons.1 hcols
    rw [addColumns]
    split
    · exact ih hcols hu _
    · rw [← List.append_assoc, ← List.append_assoc]
      exact ih hcols (hu.insert (by decide) hcol (Or.inr (by decide))) _

/-- Columns are added between the items of the list and the blanks behind them. -/
theorem absent_appendToSelectList {s : Bytes} {cols : List Bytes} (h : likeWord.Absent s)
    (hcols : ∀ col ∈ cols, likeWord.Absent col) : likeWord.Absent (appendToSelectList s cols) := by
  rw [appendToSelectList]
  cases hp : SelectParts.ofText? s with
  | none => exact h
  | some p =>
    dsimp only
    split
    · exact h
    · obtain ⟨hhead, -, hfrom⟩ := SelectParts.edges hp
      obtain ⟨habsent, hlist, htail⟩ := SelectParts.absent hp h
      have hcut := dropTailWhile_append_drop isBlank p.list
      have hblank : ∀ x ∈ p.list.drop (trimRight p.list).length, isBlank x = true :=
        fun x hx => of_mem_drop_dropTailWhile hx
      generalize p.list.drop (trimRight p.list).length = rest at hcut hblank
      have hstart : likeWord.Absent (p.head ++ trimRight p.list) :=
        habsent.append hlist.trimRight (Sought.apart_of_edge rfl (Or.inl hhead))
      have hrest : likeWord.Absent rest :=
        Sought.absent_of_not_isWord fun b hb => isWord_of_isBlank (hblank b hb)
      refine ((absent_addColumns hcols hstart _).append hrest ?_).append htail
        (Sought.apart_of_foreign rfl _ hfrom)
      exact Sought.apart_of_foreign rfl _ fun x hx => foreign_blank (hblank x (List.mem_of_head? hx))

/-- The clauses behind ORDER BY start at the edges of words. -/
theorem afterOrder_start : ∀ p ∈ Clause.afterOrder, p.Consumes ∧ p.StartsOutside := fun p hp =>
  have hgroup : p ∈ afterGroup := List.mem_append_right _ hp
  ⟨consumes_afterGroup hgroup, startsOutside_afterGroup hgroup⟩

theorem isSpaced_of_mem {list : Bytes} {p : Spaced} (hp : p ∈ items list) : IsSpaced p := by
  obtain ⟨part, -, rfl⟩ := List.mem_map.1 hp
  exact Spaced.isSpaced_ofText part

/-- The rule for sort columns brings no LIKE about, if no column is the word. -/
theorem absent_unquoteOrderByLiteral {s t : Bytes} {lits : LiteralTable}
    (h : unquoteOrderByLiteral s lits = .ok t) (hs : likeWord.Absent s)
    (hcols : ∀ col ∈ sortColumns s lits, likeWord.Absent col) : likeWord.Absent t := by
  rw [unquoteOrderByLiteral] at h
  cases hm : findTop? Clause.orderByPattern s with
  | none =>
    rw [hm] at h
    cases h
    exact hs
  | some m =>
    obtain ⟨-, hbefore, hafter, hapart⟩ := hs.aroundOrderBy rfl (by decide) hm
    obtain ⟨list, tail, hcut, -, hlist, htail, hseam⟩ := hafter.splitAtClause afterOrder_start
    cases horders : (items list).mapM fun p => unquoteOrderItem lits p.core with
    | error e =>
      simp only [hm, hcut, horders, bind, Except.bind] at h
      cases h
    | ok orders =>
      simp only [hm, hcut, horders, bind, Except.bind] at h
      have hitems := forall₂_of_mapM horders
      have hnames : ∀ o ∈ orders, ∀ col ∈ o.column, likeWord.Absent col := by
        intro o ho col hcol
        refine hcols col ?_
        obtain ⟨p, hp, hitem⟩ := exists_of_forall₂_mem hitems ho
        rw [sortColumns, hm]
        dsimp only
        rw [hcut]
        exact List.mem_filterMap.2 ⟨p, hp, by rw [hitem]; exact hcol⟩
      obtain ⟨htexts, hlasts⟩ := absent_unquoted hitems
        (fun p hp => ⟨isSpaced_of_mem hp, hlist.core hp⟩) hnames
      split at h
      · cases h
        exact hs
      · cases h
        refine absent_appendToSelectList ?_ fun col hcol => ?_
        · rw [List.append_assoc]
          refine hbefore.append ((Sought.absent_ofItems htexts).append htail ?_) (hapart _)
          rcases hseam with hlast | rfl
          · refine Sought.apart_of_edge rfl (Or.inl (any_isWord_join hlasts ?_))
            rwa [← ofItems_items list] at hlast
          · exact Sought.apart_of_foreign rfl _ fun x hx => by cases hx
        · obtain ⟨o, ho, hcol⟩ := List.mem_filterMap.1 hcol
          exact hnames o ho col hcol

/-! ## Semicolons -/

theorem absent_semicolonIf (had : Bool) : likeWord.Absent (semicolonIf had) ∧
    (semicolonIf had).head?.any isWord = false := by
  cases had with
  | false => exact ⟨Sought.absent_nil, rfl⟩
  | true => exact ⟨Sought.absent_of_not_isWord (by decide), rfl⟩

/-! ## LIMIT -/

/-- No word goes on behind the second operand of a LIMIT. -/
def OperandsApart (s : Bytes) : Prop :=
  ∀ m ∈ limitCommaPattern.all s, m.after.head?.any isWord = false

instance (s : Bytes) : Decidable (OperandsApart s) :=
  inferInstanceAs (Decidable (∀ m ∈ limitCommaPattern.all s, _))

/-- The operands are exchanged: the first one is then followed by what followed the second one. -/
theorem absent_limitToOffset {s : Bytes} (h : likeWord.Absent s) (hapart : OperandsApart s) :
    likeWord.Absent (limitToOffset s) := by
  rw [limitToOffset, Pattern.replaceWith_eq]
  refine Sought.Absent.rewriteBehind (u := []) consumes_limitComma
    (Pattern.startsOutside_keyword (s := "LIMIT") (by decide) (by decide) _)
    (Pattern.startsAtEdge_wordEdge _) (fun {_ _ m} hm _ x hx hlast => ?_) h (Or.inl rfl)
    fun m hm => ⟨hapart m hm, fun l hl => by cases hl⟩
  have hfirst : likeWord.Absent (m.group 1) := absent_of_notMem (notMem_group (by decide) hm)
  have hsecond : likeWord.Absent (m.group 2) := absent_of_notMem (notMem_group (by decide) hm)
  have hlimit := hx.insert (r := ascii "LIMIT ") (by decide) hsecond (Or.inl hlast)
  have hoffset := hlimit.insert (r := ascii " OFFSET ") (by decide) hfirst (Or.inr (by decide))
  simpa only [List.append_assoc] using hoffset

/-- The LIMIT at the end is dropped. -/
theorem absent_stripFinalLimit {s : Bytes} (h : likeWord.Absent s) :
    likeWord.Absent (stripFinalLimit s) := by
  rw [stripFinalLimit, Pattern.replaceWith_eq, Pattern.rewriteFrom_eq]
  cases hm : finalLimitPattern.findFrom? 0 none s with
  | none => exact h
  | some m =>
    have hrest : m.after = [] := @Pattern.after_eq_nil [.blanks1, .keyword "LIMIT", .blanks1,
      limitOperand, .blanks, .group 1 (.opt (.text ";")), .blanks] _ _ _ _ hm
    dsimp only
    split
    · obtain ⟨c', hplaces, -⟩ := Pattern.places_of_findFrom? hm
      obtain ⟨c₁, hblanks, -⟩ := Pattern.leads_seqs_cons.1 hplaces.leads
      obtain ⟨bl, hne, hbl, htakes⟩ := Pattern.leads_blanks1 hblanks
      have hbefore : likeWord.Absent m.before := by
        rw [← Pattern.text_of_findFrom? hm, List.append_assoc] at h
        refine h.left (Or.inr (Or.inl ?_))
        rw [show m.text ++ m.after = bl ++ c₁.rest from htakes.rest, head?_append_left hne]
        exact any_isWord_eq_false fun x hx => (ascii_of_blank (hbl x (List.mem_of_head? hx))).2.2
      have hhead : (m.group 1).head?.any isWord = false := by
        refine Pattern.group_of_leads (P := fun t => t.head?.any isWord = false) rfl
          (fun q hq c c' t hleads ht => ?_) hm
        have hone : finalLimitPattern.recordedAs 1 = [.opt (.text ";")] := rfl
        rw [hone] at hq
        obtain rfl := List.mem_singleton.1 hq
        rcases Pattern.leads_alt.1 hleads with htext | hnone
        · rw [ht.unique (Pattern.leads_text (by decide) htext)]
          rfl
        · obtain rfl := Pattern.leads_nothing.1 hnone
          rw [ht.unique (.refl _)]
          rfl
      rw [hrest, Pattern.rewriteFrom_nil, List.append_nil]
      exact hbefore.append (absent_of_notMem (notMem_group (by decide) hm))
        (Sought.apart_of_edge rfl (Or.inr hhead))
    · exact h

/-! ## Counts -/

theorem absent_renames {q q' : Spaced} (h : Renames q q') (hq : IsSpaced q)
    (hcore : likeWord.Absent q.core) : likeWord.Absent q'.text := by
  rcases h with ⟨-, rfl⟩ | ⟨-, n, rfl⟩
  · exact Sought.absent_text rfl hq hcore
  · refine Sought.absent_text rfl hq ?_
    have hnumber : likeWord.Absent (decimal n) := absent_of_notMem fun b hb hmem => by
      have hletter : ∀ b ∈ ascii "kK", isDigit b = false := by decide
      exact Bool.noConfusion ((isDigit_of_mem_decimal hmem).symm.trans (hletter b hb))
    rw [countAlias, ← List.append_assoc]
    exact hcore.insert (by decide) hnumber (Or.inr (by decide))

/-- Naming counts and grouping bring no LIKE about. -/
theorem absent_aliasCountsAndGroup {s : Bytes} (h : likeWord.Absent s) :
    likeWord.Absent (aliasCountsAndGroup s) := by
  cases hp : SelectParts.ofText? s with
  | none =>
    rw [aliasCountsAndGroup, hp]
    exact h
  | some p =>
    obtain ⟨hhead, hlist, htail⟩ := SelectParts.absent hp h
    obtain ⟨hlast, -, hfrom⟩ := SelectParts.edges hp
    have hnamed : likeWord.Absent (ofItems p.named) := Sought.absent_ofItems fun q' hq' => by
      obtain ⟨q, hq, hren⟩ := exists_of_forall₂_mem SelectParts.renames_named hq'
      exact absent_renames hren (isSpaced_of_mem hq) (hlist.core hq)
    have hstart : likeWord.Absent (p.head ++ ofItems p.named) :=
      hhead.append hnamed (Sought.apart_of_edge rfl (Or.inl hlast))
    have hall : likeWord.Absent (p.head ++ ofItems p.named ++ p.tail) :=
      hstart.append htail (Sought.apart_of_foreign rfl _ hfrom)
    have hclause : likeWord.Absent (groupClause (items p.list)) := by
      have hcols : likeWord.Absent (join (ascii ", ") (plainColumns (items p.list))) :=
        Sought.Absent.join (by decide) rfl fun col hcol => by
          obtain ⟨q, hq, rfl⟩ := List.mem_map.1 (List.mem_filter.1 hcol).1
          exact hlist.core hq
      exact Sought.absent_nil.insert (by decide) hcols (Or.inl rfl)
    have hspace : likeWord.Neutral (ascii " ") ∧ ∀ x ∈ (ascii " ").head?, likeWord.Foreign x := by
      decide
    rcases SelectParts.aliasCountsAndGroup_cases hp with ⟨-, hout⟩ | ⟨-, hout⟩
    · rwa [hout]
    · rw [hout]
      rcases grouped_insertGroupBy (p.head ++ ofItems p.named) p.tail (groupClause (items p.list)) with
        ⟨pat, hpat, m, hm, -, hgrouped⟩ | ⟨-, body, ending, hcut, hending, -, hgrouped⟩
      · obtain ⟨htailCut, c', hplaces⟩ := Pattern.places_of_findTop? (consumes_afterGroup hpat) hm
        have hbefore := startsOutside_afterGroup hpat _ _ hplaces.leads
        rw [Option.or_none] at hbefore
        rw [htailCut, List.append_assoc] at htail
        rw [htailCut, List.append_assoc m.before, ← List.append_assoc _ m.before] at hall
        have hstartBefore : likeWord.Absent (p.head ++ ofItems p.named ++ m.before) := by
          by_cases hnil : m.before = []
          · rwa [hnil, List.append_nil]
          · exact hall.left (Or.inl (by rwa [Pattern.getLast?_append_of_ne_nil _ hnil]))
        rw [hgrouped]
        exact (hstartBefore.trimRight.insert hspace.1 hclause (Or.inr hspace.2)).insert hspace.1
          (htail.right (Or.inl (Or.inl hbefore))) (Or.inr hspace.2)
      · rw [hcut] at hall
        have hbody : likeWord.Absent body := hall.left (Or.inr (Or.inl
          (any_isWord_eq_false fun x hx => isWord_of_isEnding (hending x (List.mem_of_head? hx)))))
        rw [hgrouped]
        obtain ⟨hend, hsemicolon⟩ := absent_semicolonIf (ending.contains 59)
        exact (hbody.insert hspace.1 hclause (Or.inr hspace.2)).append hend
          (Sought.apart_of_edge rfl (Or.inr hsemicolon))

end SqlDialect
