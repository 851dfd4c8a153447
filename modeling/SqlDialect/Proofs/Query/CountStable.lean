import SqlDialect.Proofs.Query.CountGroup
import SqlDialect.Proofs.Query.Settled

set_option autoImplicit false

/-! # The rule for counts applied twice

What the rule for counts writes has no count left that would be named, so the rule gives its own
output back (`aliasCountsAndGroup_stable`). Where the statement has a FROM, the list is read back as it
is written, and the clause stands behind it. Where it has none, the clause is read as part of the last
item. In one case FROM is lost: a name that is put directly in front of it joins it to one word. -/

namespace SqlDialect

open Bytes

/-! ## The last item -/

/-- What stands in front of the last part ends with a comma, if there is anything. -/
theorem exists_join_concat (init : List Bytes) : ∃ x,
    (∀ last, join [comma] (init ++ [last]) = x ++ last) ∧
      (init = [] ∧ x = [] ∨ x.getLast? = some comma) := by
  induction init with
  | nil => exact ⟨[], fun last => by simp [join], Or.inl ⟨rfl, rfl⟩⟩
  | cons first init ih =>
    obtain ⟨x, hx, hlast⟩ := ih
    refine ⟨first ++ comma :: x, fun last => ?_, Or.inr ?_⟩
    · rw [List.cons_append, join, List.intercalate_cons_of_ne_nil (by simp),
        show List.intercalate [comma] (init ++ [last]) = join [comma] (init ++ [last]) from rfl, hx,
        List.append_assoc, List.append_assoc]
      rfl
    · rcases hlast with ⟨-, rfl⟩ | hlast
      · exact List.getLast?_concat
      · rw [List.getLast?_append, List.getLast?_cons, hlast]
        rfl

theorem ofItems_concat (init : List Spaced) (q : Spaced) :
    ofItems (init ++ [q]) = join [comma] (init.map Spaced.text ++ [q.text]) := by
  rw [ofItems, List.map_append, List.map_singleton]

theorem exists_last_renames {ps ps' : List Spaced} (h : List.Forall₂ Renames ps ps') (hne : ps ≠ []) :
    ∃ init q init' q', ps = init ++ [q] ∧ ps' = init' ++ [q'] ∧ init.length = init'.length ∧
      Renames q q' := by
  induction h with
  | nil => exact absurd rfl hne
  | @cons q q' ps ps' hren hrest ih =>
    by_cases hnil : ps = []
    · subst hnil
      obtain rfl := List.forall₂_nil_left_iff.1 hrest
      exact ⟨[], q, [], q', rfl, rfl, rfl, hren⟩
    · obtain ⟨init, r, init', r', rfl, rfl, hlen, hlast⟩ := ih hnil
      exact ⟨q :: init, r, q' :: init', r', rfl, rfl, congrArg (· + 1) hlen, hlast⟩

/-- A text that ends in front of a word still does so when its last part is put behind something else. -/
theorem any_isWord_getLast?_append {x y u : Bytes} {init : List Bytes}
    (hy : init = [] ∧ y = [] ∨ y.getLast? = some comma)
    (h : (x ++ u).getLast?.any isWord = false) : (y ++ u).getLast?.any isWord = false := by
  by_cases hu : u = []
  · subst hu
    rw [List.append_nil]
    rcases hy with ⟨-, rfl⟩ | hy
    · rfl
    · rw [hy]
      rfl
  · rw [Pattern.getLast?_append_of_ne_nil _ hu] at h ⊢
    exact h

/-! ## What the rule writes -/

theorem not_isWholeCount_of_mem {ps ps' : List Spaced} (h : List.Forall₂ Renames ps ps') :
    ∀ q ∈ ps', ¬ IsWholeCount q.core := by
  intro q' hq'
  obtain ⟨q, -, hren⟩ := exists_of_forall₂_mem h hq'
  exact hren.not_isWholeCount

theorem nameCounts_of_forall {ps : List Spaced} (h : ∀ q ∈ ps, ¬ IsWholeCount q.core) (n : Nat) :
    nameCounts n ps = ps := by
  induction ps with
  | nil => rfl
  | cons q ps ih =>
    obtain ⟨hq, hps⟩ := List.forall_mem_cons.1 h
    rw [nameCounts, if_neg (mt isUnnamedCount_iff.1 hq), ih hps]

theorem aliasCountsAndGroup_of_forall {s : Bytes} {p : SelectParts}
    (hp : SelectParts.ofText? s = some p) (h : ∀ q ∈ items p.list, ¬ IsWholeCount q.core) :
    aliasCountsAndGroup s = s := by
  apply aliasCountsAndGroup_of_hasUnnamedCount_eq_false
  rw [hasUnnamedCount, hp, Option.any_some, List.any_eq_false]
  exact fun q hq => mt isUnnamedCount_iff.1 (h q hq)

namespace SelectParts

/-- Where the list ends with a count, something stands between the count and FROM. -/
def CountsApart (p : SelectParts) : Prop :=
  p.tail ≠ [] → ∀ q ∈ (items p.list).getLast?, IsWholeCount q.core → q.trail ≠ []

/-- The list mixes counts that get a name with plain columns, and no GROUP BY follows it. -/
def GroupingDue (p : SelectParts) : Prop :=
  (∃ q ∈ items p.list, IsWholeCount q.core) ∧ plainColumns (items p.list) ≠ [] ∧
    findTop? Clause.groupByPattern p.tail = none

/-- The select list with its counts named. -/
def named (p : SelectParts) : List Spaced :=
  nameCounts 0 (items p.list)

variable {p : SelectParts}

theorem renames_named : List.Forall₂ Renames (items p.list) p.named :=
  renames_nameCounts 0 (items p.list)

theorem depthAfter_named (d : Nat) : depthAfter d (ofItems p.named) = depthAfter d p.list := by
  refine depthAfter_congr ?_ d
  rw [parens_ofItems, named, flatMap_parens_nameCounts, ← parens_ofItems, ofItems_items]

section

variable {s : Bytes} (hp : ofText? s = some p)
include hp

theorem isList : IsList (items p.list) :=
  isList_items (of_ofText? hp).2.1

theorem isList_named : IsList p.named :=
  (isList hp).renamed renames_named

/-- The names and, where that is due, the clause are all that is written. -/
theorem aliasCountsAndGroup_cases :
    (¬ p.GroupingDue ∧ aliasCountsAndGroup s = p.head ++ ofItems p.named ++ p.tail) ∨
      p.GroupingDue ∧ aliasCountsAndGroup s =
        insertGroupBy (p.head ++ ofItems p.named) p.tail (groupClause (items p.list)) := by
  by_cases hcount : ∃ q ∈ items p.list, IsWholeCount q.core
  · have hany : ((items p.list).any fun q => isUnnamedCount q.core) = true := by
      obtain ⟨q, hq, hwhole⟩ := hcount
      exact List.any_eq_true.2 ⟨q, hq, isUnnamedCount_iff.2 hwhole⟩
    rw [aliasCountsAndGroup, hp]
    dsimp only
    rw [hany, if_neg (by decide)]
    split
    · rename_i hnot
      refine Or.inl ⟨fun hdue => ?_, rfl⟩
      rcases Bool.or_eq_true_iff.1 hnot with hnil | hgroup
      · exact hdue.2.1 (List.isEmpty_iff.1 hnil)
      · rw [hdue.2.2] at hgroup
        cases hgroup
    · rename_i hdue
      rw [Bool.or_eq_true, not_or] at hdue
      exact Or.inr ⟨⟨hcount, mt List.isEmpty_iff.2 hdue.1, by simpa using hdue.2⟩, rfl⟩
  · refine Or.inl ⟨fun hdue => hcount hdue.1, ?_⟩
    simp only [not_exists, not_and] at hcount
    rw [aliasCountsAndGroup_of_forall hp hcount, named, nameCounts_of_forall hcount, ofItems_items]
    exact (eq_of_ofText? hp).1

/-- A statement with the named list is read back, whatever follows the list. -/
theorem ofText?_named (hcount : ∃ q ∈ items p.list, IsWholeCount q.core) {tail : Bytes}
    (htail : tail ≠ [] → TopWord "FROM" 0 (ofItems p.named) tail) :
    ofText? (p.head ++ ofItems p.named ++ tail) = some ⟨p.head, ofItems p.named, tail⟩ := by
  obtain ⟨u, v, v', hlist, hnamed⟩ := exists_openParen (renames_named (p := p)) hcount
  rw [ofItems_items] at hlist
  refine ofText?_openParen hp (u := u) (v := v ++ p.tail) (w := v' ++ tail) ?_ ?_
    (isList_named hp).lacks_ofItems htail
  · rw [hlist]
    simp
  · rw [hnamed]
    simp

/-! ## With FROM -/

/-- The name of the last count joins FROM unless the count stands apart. -/
theorem countsApart_iff (htail : p.tail ≠ []) :
    p.CountsApart ↔ (ofItems p.named).getLast?.any isWord = false := by
  obtain ⟨init, q, init', q', hitems, hnamed, -, hren⟩ :=
    exists_last_renames (renames_named (p := p)) (isList hp).ne_nil
  have hspaced := (isList hp).spaced q (by rw [hitems]; simp)
  obtain ⟨x, hx, -⟩ := exists_join_concat (init.map Spaced.text)
  obtain ⟨x', hx', hcomma⟩ := exists_join_concat (init'.map Spaced.text)
  have hapart : p.CountsApart ↔ (IsWholeCount q.core → q.trail ≠ []) := by
    rw [CountsApart, hitems, List.getLast?_concat]
    simp [htail]
  have hseam : (x ++ q.text).getLast?.any isWord = false := by
    obtain ⟨w, r, -, -, hlast, -⟩ := (of_ofText? hp).2.2 htail
    rwa [← hx, ← ofItems_concat, ← hitems, ofItems_items]
  rw [hapart, hnamed, ofItems_concat, hx']
  rcases hren with ⟨hnot, rfl⟩ | ⟨hwhole, n, rfl⟩
  · exact iff_of_true (fun h => absurd h hnot) (any_isWord_getLast?_append hcomma hseam)
  · rw [Spaced.text, ← List.append_assoc]
    by_cases hblank : q.trail = []
    · obtain ⟨y, hy, hdigit⟩ := getLast?_countAlias n
      refine iff_of_false (fun h => h hwhole hblank) ?_
      dsimp only
      rw [hblank, List.append_nil, List.getLast?_append, List.getLast?_append, List.getLast?_append, hy]
      simpa using (isDigit_not_special hdigit).2.2.2.2
    · refine iff_of_true (fun _ => hblank) ?_
      dsimp only
      rw [Pattern.getLast?_append_of_ne_nil _ hblank]
      refine any_isWord_eq_false fun y hy => ?_
      exact isWord_of_isBlank (hspaced.trail y (List.mem_of_getLast? hy))

/-- What follows the list still starts with FROM. -/
theorem exists_from (htail : p.tail ≠ []) : ∃ f r,
    aliasCountsAndGroup s = p.head ++ ofItems p.named ++ (f ++ r) ∧
      f.map lowerByte = (ascii "FROM").map lowerByte ∧ r.head?.any isWord = false := by
  obtain ⟨f, r, hfr, hf, -, hr, -⟩ := (of_ofText? hp).2.2 htail
  rcases aliasCountsAndGroup_cases hp with ⟨-, hout⟩ | ⟨-, hout⟩
  · exact ⟨f, r, by rw [hout, hfr], hf, hr⟩
  · rw [hfr] at hout
    obtain ⟨r', hr', hhead⟩ := (grouped_insertGroupBy _ _ _).exists_tail hf hr
    exact ⟨f, r', hout.trans hr', hf, hhead⟩

/-- FROM is found again behind the list exactly if the last count stands apart from it. -/
theorem countsApart_iff_ofText? (htail : p.tail ≠ []) : p.CountsApart ↔
    ∃ tail, tail ≠ [] ∧ ofText? (aliasCountsAndGroup s) = some ⟨p.head, ofItems p.named, tail⟩ := by
  rw [countsApart_iff hp htail]
  constructor
  · intro hlast
    by_cases hcount : ∃ q ∈ items p.list, IsWholeCount q.core
    · obtain ⟨f, r, hout, hf, hr⟩ := exists_from hp htail
      have hne : f ++ r ≠ [] := by
        rintro hnil
        rw [List.append_eq_nil_iff] at hnil
        rw [hnil.1] at hf
        cases hf
      obtain ⟨-, -, -, -, -, -, hdepth⟩ := (of_ofText? hp).2.2 htail
      rw [← depthAfter_named] at hdepth
      rw [hout]
      exact ⟨f ++ r, hne, ofText?_named hp hcount fun _ => ⟨f, r, rfl, hf, hlast, hr, hdepth⟩⟩
    · simp only [not_exists, not_and] at hcount
      rw [aliasCountsAndGroup_of_forall hp hcount, named, nameCounts_of_forall hcount, ofItems_items]
      exact ⟨p.tail, htail, hp⟩
  · rintro ⟨tail, hne, hout⟩
    obtain ⟨w, r, -, -, hlast, -⟩ := (of_ofText? hout).2.2 hne
    exact hlast

/-! ## Without FROM -/

/-- A count and a plain column are two items. -/
theorem exists_init_named (hdue : p.GroupingDue) :
    ∃ init q, init ≠ [] ∧ p.named = init ++ [q] := by
  obtain ⟨init, q, init', q', hitems, hnamed, hlen, -⟩ :=
    exists_last_renames (renames_named (p := p)) (isList hp).ne_nil
  refine ⟨init', q', ?_, hnamed⟩
  rintro rfl
  obtain rfl := List.length_eq_zero_iff.1 hlen
  obtain ⟨⟨r, hr, hcount⟩, hplain, -⟩ := hdue
  obtain ⟨col, hcol⟩ := List.exists_mem_of_ne_nil _ hplain
  obtain ⟨hmem, hcol⟩ := List.mem_filter.1 hcol
  obtain ⟨r', hr', rfl⟩ := List.mem_map.1 hmem
  rw [hitems, List.nil_append, List.mem_singleton] at hr hr'
  subst hr hr'
  rw [hcount.not_isPlainColumn] at hcol
  cases hcol

/-- The clause joins the last item, whose end is cut off. -/
theorem exists_last_grouped (htail : p.tail = []) (hdue : p.GroupingDue) :
    ∃ init q body ending had, p.named = init ++ [q] ∧ q.text = body ++ ending ∧
      (∀ b ∈ ending, isEnding b = true) ∧
      aliasCountsAndGroup s = p.head ++ join [comma] (init.map Spaced.text ++
        [body ++ (ascii " " ++ (groupClause (items p.list) ++ semicolonIf had))]) := by
  obtain ⟨-, hout⟩ := (aliasCountsAndGroup_cases hp).resolve_left fun h => h.1 hdue
  obtain ⟨init, q, hne, hnamed⟩ := exists_init_named hp hdue
  obtain ⟨x, hx, hlast⟩ := exists_join_concat (init.map Spaced.text)
  have hlast := hlast.resolve_left fun h => hne (List.map_eq_nil_iff.1 h.1)
  rcases grouped_insertGroupBy (p.head ++ ofItems p.named) p.tail (groupClause (items p.list)) with
    ⟨c, hc, m, hm, -⟩ | ⟨-, body, ending, hcut, hending, -, hins⟩
  · rw [htail] at hm
    obtain ⟨hnil, c', hplaces⟩ := Pattern.places_of_findTop? (consumes_afterGroup hc) hm
    have hne := hplaces.text_ne_nil (consumes_afterGroup hc)
    simp [hne] at hnil
  · rw [htail, List.append_nil, hnamed, ofItems_concat, hx, ← List.append_assoc] at hcut
    obtain ⟨c, rfl, hbody⟩ := exists_cut hcut hending (by
      rw [List.getLast?_append, hlast]
      rintro y ⟨⟩
      rfl)
    refine ⟨init, q, c, ending, ending.contains 59, hnamed, hbody, hending, ?_⟩
    rw [hout, hins, hx]
    simp only [List.append_assoc]

/-- The statement is read back with the clause in its last item. -/
theorem ofText?_grouped {init : List Spaced} {q : Spaced} {body ending clause : Bytes}
    (htail : p.tail = []) (hcount : ∃ q ∈ items p.list, IsWholeCount q.core)
    (hnamed : p.named = init ++ [q]) (hcut : q.text = body ++ ending)
    (hending : ∀ b ∈ ending, isEnding b = true) (hclause : ∀ d, Lacks "FROM" d (ascii " " ++ clause)) :
    ofText? (p.head ++ join [comma] (init.map Spaced.text ++ [body ++ (ascii " " ++ clause)])) =
      some ⟨p.head, join [comma] (init.map Spaced.text ++ [body ++ (ascii " " ++ clause)]), []⟩ := by
  -- up to the parenthesis of the first count nothing changes
  obtain ⟨u, v, v', hu, hu'⟩ := exists_openParen (renames_named (p := p)) hcount
  obtain ⟨x, hx, -⟩ := exists_join_concat (init.map Spaced.text)
  rw [hnamed, ofItems_concat, hx, hcut, ← List.append_assoc] at hu'
  have hsplit : u ++ [openParen] ++ v' = x ++ body ++ ending := by
    rw [hu']
    simp
  obtain ⟨w, hw, -⟩ := exists_cut hsplit hending (by
    rw [List.getLast?_concat]
    rintro y ⟨⟩
    rfl)
  have hlist := isList_named hp
  have hclosed := (hnamed ▸ hlist).closed_init
  have hq : q ∈ p.named := by
    rw [hnamed]
    simp
  have hlacks := hlist.lacks q hq
  have hseam : ending.head?.any isWord = false := any_isWord_eq_false fun y hy =>
    isWord_of_isEnding (hending y (List.mem_of_head? hy))
  rw [hcut, lacks_append isWord_from (Or.inr hseam)] at hlacks
  have hnew : Lacks "FROM" 0 (join [comma] (init.map Spaced.text ++ [body ++ (ascii " " ++ clause)])) := by
    refine (lacks_join_concat isWord_from hclosed _).2 ⟨fun part hpart => ?_,
      (lacks_append isWord_from (Or.inr rfl)).2 ⟨hlacks.1, hclause _⟩⟩
    obtain ⟨r, hr, rfl⟩ := List.mem_map.1 hpart
    exact hlist.lacks r (hnamed ▸ List.mem_append_left _ hr)
  rw [← List.append_nil (p.head ++ _)]
  refine ofText?_openParen hp (u := u) (v := v) (w := w ++ (ascii " " ++ clause)) ?_ ?_ hnew (absurd rfl)
  · rw [htail, List.append_nil, ← hu, ofItems_items]
  · rw [hx, List.append_nil, ← List.append_assoc, hw]
    simp

/-- What is read back has no count left either. -/
theorem exists_list_grouped (htail : p.tail = []) (hdue : p.GroupingDue) : ∃ list,
    ofText? (aliasCountsAndGroup s) = some ⟨p.head, list, []⟩ ∧
      ∀ q ∈ items list, ¬ IsWholeCount q.core := by
  obtain ⟨init, q, body, ending, had, hnamed, hcut, hending, hout⟩ := exists_last_grouped hp htail hdue
  have hlist := isList_named hp
  have hcols := (isList hp).isColumnItem
  refine ⟨_, hout ▸ ofText?_grouped hp htail hdue.1 hnamed hcut hending (lacks_groupClause hcols had), ?_⟩
  have hmem : ∀ r ∈ init, r ∈ p.named := fun r hr => hnamed ▸ List.mem_append_left _ hr
  have hplain : ∀ part ∈ init.map Spaced.text, LacksComma 0 part := fun part hpart => by
    obtain ⟨r, hr, rfl⟩ := List.mem_map.1 hpart
    exact hlist.parts.plain _ (List.mem_map_of_mem (hmem r hr))
  have hcomma := hlist.parts.plain q.text (List.mem_map_of_mem (by rw [hnamed]; simp))
  rw [hcut, lacksComma_append] at hcomma
  intro r hr
  rw [items, splitTop_join_concat hplain (hnamed ▸ hlist).closed_init, List.map_append,
    List.mem_append, List.map_map] at hr
  rcases hr with hr | hr
  · obtain ⟨t, ht, rfl⟩ := List.mem_map.1 hr
    rw [Function.comp_apply, Spaced.ofText_text (hlist.spaced t (hmem t ht))]
    exact not_isWholeCount_of_mem (renames_named (p := p)) t (hmem t ht)
  · exact items_grouped hcomma.1 hcols hdue.2.1 had r hr

/-- A list whose counts stand apart from FROM is read back without a count to name. -/
theorem exists_list (hapart : p.CountsApart) : ∃ list tail,
    ofText? (aliasCountsAndGroup s) = some ⟨p.head, list, tail⟩ ∧
      ∀ q ∈ items list, ¬ IsWholeCount q.core := by
  have hnamed : ∀ q ∈ items (ofItems p.named), ¬ IsWholeCount q.core := by
    rw [(isList_named hp).items_ofItems]
    exact not_isWholeCount_of_mem (renames_named (p := p))
  by_cases htail : p.tail = []
  · by_cases hdue : p.GroupingDue
    · obtain ⟨list, hout, hlist⟩ := exists_list_grouped hp htail hdue
      exact ⟨list, [], hout, hlist⟩
    · by_cases hcount : ∃ q ∈ items p.list, IsWholeCount q.core
      · obtain ⟨-, hout⟩ := (aliasCountsAndGroup_cases hp).resolve_right fun h => hdue h.1
        rw [hout]
        exact ⟨_, _, ofText?_named hp hcount (absurd htail), hnamed⟩
      · simp only [not_exists, not_and] at hcount
        rw [aliasCountsAndGroup_of_forall hp hcount]
        exact ⟨_, _, hp, hcount⟩
  · obtain ⟨tail, -, hout⟩ := (countsApart_iff_ofText? hp htail).1 hapart
    exact ⟨_, tail, hout, hnamed⟩

end

end SelectParts

/-- Counts are named in order and nothing else in the select list changes. The clause is added where it
is due, in its place. A second pass changes nothing, as long as no count stands directly in front of
FROM; where one does, FROM is lost, as the name joins it. -/
theorem aliasCountsAndGroup_stable (s : Bytes) :
    ((∀ p, SelectParts.ofText? s = some p → p.CountsApart) →
      aliasCountsAndGroup (aliasCountsAndGroup s) = aliasCountsAndGroup s) ∧
    ∀ p, SelectParts.ofText? s = some p →
      (∀ i : Nat, p.named[i]? = (items p.list)[i]?.map fun q =>
        if IsWholeCount q.core then
          { q with core := q.core ++
            countAlias (((items p.list).take i).countP fun r => IsWholeCount r.core) }
        else q) ∧
      (¬ p.GroupingDue → aliasCountsAndGroup s = p.head ++ ofItems p.named ++ p.tail) ∧
      (p.GroupingDue → Grouped (p.head ++ ofItems p.named) p.tail (groupClause (items p.list))
        (aliasCountsAndGroup s)) ∧
      (p.tail ≠ [] → (p.CountsApart ↔ ∃ tail, tail ≠ [] ∧
        SelectParts.ofText? (aliasCountsAndGroup s) = some ⟨p.head, ofItems p.named, tail⟩)) := by
  refine ⟨fun hapart => ?_, fun p hp => ⟨fun i => ?_, fun hdue => ?_, fun hdue => ?_,
    SelectParts.countsApart_iff_ofText? hp⟩⟩
  · cases hp : SelectParts.ofText? s with
    | none =>
      have hself : aliasCountsAndGroup s = s := by
        rw [aliasCountsAndGroup, hp]
      rw [hself, hself]
    | some p =>
      obtain ⟨list, tail, hout, hlist⟩ := SelectParts.exists_list hp (hapart p hp)
      exact aliasCountsAndGroup_of_forall hout hlist
  · have hnames := getElem?_nameCounts 0 (items p.list) i
    simp only [Nat.zero_add] at hnames
    exact hnames
  · exact ((SelectParts.aliasCountsAndGroup_cases hp).resolve_right fun h => hdue h.1).2
  · rw [((SelectParts.aliasCountsAndGroup_cases hp).resolve_left fun h => h.1 hdue).2]
    exact grouped_insertGroupBy _ _ _

/-- A grouped query is read back and stays as it is. -/
theorem aliasCountsAndGroup_stable_grouped :
    (∀ p, SelectParts.ofText? (ascii "SELECT a, COUNT(b) FROM t LIMIT 1") = some p → p.CountsApart) ∧
      aliasCountsAndGroup (ascii "SELECT a, COUNT(b) FROM t LIMIT 1") =
        ascii "SELECT a, COUNT(b) AS count0 FROM t GROUP BY a LIMIT 1" ∧
      aliasCountsAndGroup (ascii "SELECT a, COUNT(b) AS count0 FROM t GROUP BY a LIMIT 1") =
        ascii "SELECT a, COUNT(b) AS count0 FROM t GROUP BY a LIMIT 1" := by
  have hparts : SelectParts.ofText? (ascii "SELECT a, COUNT(b) FROM t LIMIT 1") =
      some ⟨ascii "SELECT ", ascii "a, COUNT(b) ", ascii "FROM t LIMIT 1"⟩ := by
    decide +kernel
  have hapart : ∀ p, SelectParts.ofText? (ascii "SELECT a, COUNT(b) FROM t LIMIT 1") = some p →
      p.CountsApart := by
    intro p hp htail
    obtain rfl := Option.some.inj (hparts.symm.trans hp)
    exact (SelectParts.countsApart_iff hp htail).2 (by decide +kernel) htail
  have hout : aliasCountsAndGroup (ascii "SELECT a, COUNT(b) FROM t LIMIT 1") =
      ascii "SELECT a, COUNT(b) AS count0 FROM t GROUP BY a LIMIT 1" := by
    decide +kernel
  have hagain := (aliasCountsAndGroup_stable (ascii "SELECT a, COUNT(b) FROM t LIMIT 1")).1 hapart
  rw [hout] at hagain
  exact ⟨hapart, hout, hagain⟩

/-- A count directly in front of FROM: the name is joined to FROM, and a second pass names a count of
the next query. -/
theorem aliasCountsAndGroup_joins_from :
    aliasCountsAndGroup (ascii "SELECT COUNT(a)FROM t UNION SELECT b, COUNT(c) FROM u") =
        ascii "SELECT COUNT(a) AS count0FROM t UNION SELECT b, COUNT(c) FROM u" ∧
      aliasCountsAndGroup (aliasCountsAndGroup
          (ascii "SELECT COUNT(a)FROM t UNION SELECT b, COUNT(c) FROM u")) ≠
        aliasCountsAndGroup (ascii "SELECT COUNT(a)FROM t UNION SELECT b, COUNT(c) FROM u") := by
  have honce : aliasCountsAndGroup (ascii "SELECT COUNT(a)FROM t UNION SELECT b, COUNT(c) FROM u") =
      ascii "SELECT COUNT(a) AS count0FROM t UNION SELECT b, COUNT(c) FROM u" := by
    rw [ascii_ofList, ascii_ofList]
    decide +kernel
  have htwice : aliasCountsAndGroup
      (ascii "SELECT COUNT(a) AS count0FROM t UNION SELECT b, COUNT(c) FROM u") =
        ascii "SELECT COUNT(a) AS count0FROM t UNION SELECT b, COUNT(c) AS count0 FROM u" := by
    rw [ascii_ofList, ascii_ofList]
    decide +kernel
  refine ⟨honce, ?_⟩
  rw [honce, htwice, ascii_ofList, ascii_ofList]
  decide

end SqlDialect
