import SqlDialect.Proofs.Conversion.Untouched
import SqlDialect.Proofs.Pattern.Barrier
import SqlDialect.Proofs.Query.Nesting
import SqlDialect.Proofs.Query.WholeCount
import SqlDialect.Proofs.Statement.Ending

set_option autoImplicit false

/-! # Counts are named and grouped once

The rule for counts names them and, where that is due, adds a GROUP BY. What it writes is read again by
a second pass: the names as part of the select list and, where there is no FROM, the clause as well.
Neither brings a count about, so a second pass changes nothing (`aliasCountsAndGroup_stable`). -/

namespace SqlDialect

open Bytes

instance (item : Bytes) : Decidable (IsWholeCount item) :=
  decidable_of_iff _ isUnnamedCount_iff

/-! ## Names -/

/-- How a count is named. -/
def countAlias (n : Nat) : Bytes :=
  ascii " AS count" ++ decimal n

theorem isDigit_not_special {b : UInt8} (h : isDigit b = true) :
    isParen b = false ∧ b ≠ comma ∧ isBlank b = false ∧ lowerByte b ≠ 102 ∧ isWord b = true :=
  forall_isDigit (P := fun b => isParen b = false ∧ b ≠ comma ∧
    isBlank b = false ∧ lowerByte b ≠ 102 ∧ isWord b = true) (by decide) h

theorem parens_countAlias (n : Nat) : parens (countAlias n) = [] := by
  rw [countAlias, parens_append, parens_decimal]
  rfl

theorem comma_notMem_countAlias (n : Nat) : comma ∉ countAlias n := by
  rw [countAlias, List.mem_append, not_or]
  exact ⟨by decide, fun h => (isDigit_not_special (isDigit_of_mem_decimal h)).2.1 rfl⟩

theorem lacks_countAlias (n d : Nat) : Lacks "FROM" d (countAlias n) := by
  refine lacks_of_forall_ne (l := 102) (by decide) (fun x hx => ?_) d
  rcases List.mem_append.1 hx with hx | hx
  · have hall : ∀ y ∈ ascii " AS count", lowerByte y ≠ 102 := by decide
    exact hall x hx
  · exact (isDigit_not_special (isDigit_of_mem_decimal hx)).2.2.2.1

theorem getLast?_countAlias (n : Nat) : ∃ x, (countAlias n).getLast? = some x ∧ isDigit x = true := by
  have hne := decimal_ne_nil n
  refine ⟨_, ?_, isDigit_of_mem_decimal (List.getLast_mem hne)⟩
  rw [countAlias, List.getLast?_append, List.getLast?_eq_some_getLast hne]
  rfl

/-- What an item of the select list is written as: a count gets a name, anything else stays. -/
def Renames (q q' : Spaced) : Prop :=
  ¬ IsWholeCount q.core ∧ q' = q ∨
    IsWholeCount q.core ∧ ∃ n, q' = { q with core := q.core ++ countAlias n }

theorem IsWholeCount.getLast? {item : Bytes} (h : IsWholeCount item) :
    item.getLast? = some closeParen := by
  obtain ⟨name, gap, arg, rfl, -⟩ := h
  rw [← List.cons_append, ← List.append_assoc]
  exact List.getLast?_concat

theorem IsWholeCount.ne_nil {item : Bytes} (h : IsWholeCount item) : item ≠ [] := by
  rintro rfl
  cases h.getLast?

namespace Renames

variable {q q' : Spaced}

theorem not_isWholeCount (h : Renames q q') : ¬ IsWholeCount q'.core := by
  rcases h with ⟨hnot, rfl⟩ | ⟨-, n, rfl⟩
  · exact hnot
  · intro hcount
    obtain ⟨x, hx, hdigit⟩ := getLast?_countAlias n
    have hlast := hcount.getLast?
    rw [List.getLast?_append, hx] at hlast
    obtain rfl := Option.some.inj hlast
    cases hdigit

theorem isSpaced (h : Renames q q') (hq : IsSpaced q) : IsSpaced q' := by
  rcases h with ⟨-, rfl⟩ | ⟨hcount, n, rfl⟩
  · exact hq
  · obtain ⟨y, core, hcore⟩ := List.exists_cons_of_ne_nil hcount.ne_nil
    obtain ⟨x, hx, hdigit⟩ := getLast?_countAlias n
    refine ⟨hq.lead, hq.trail, ?_, ?_, fun hnil => ?_⟩
    · have hhead := hq.head
      dsimp only
      rw [hcore] at hhead ⊢
      exact hhead
    · dsimp only
      rw [List.getLast?_append, hx]
      rintro z hz
      obtain rfl := Option.some.inj hz
      exact (isDigit_not_special hdigit).2.2.1
    · rw [hcore] at hnil
      cases hnil

/-- A name is put behind a text and in front of blanks. -/
theorem exists_text (h : Renames q q') : q'.text = q.text ∨
    ∃ u n, q.text = u ++ q.trail ∧ q'.text = u ++ (countAlias n ++ q.trail) ∧
      u.getLast? = some closeParen := by
  rcases h with ⟨-, rfl⟩ | ⟨hcount, n, rfl⟩
  · exact Or.inl rfl
  · refine Or.inr ⟨q.lead ++ q.core, n, rfl, ?_, ?_⟩
    · simp only [Spaced.text, List.append_assoc]
    · rw [List.getLast?_append, hcount.getLast?]
      rfl

theorem parens_text (h : Renames q q') : parens q'.text = parens q.text := by
  rcases h.exists_text with heq | ⟨u, n, hq, hq', -⟩
  · rw [heq]
  · rw [hq, hq', parens_append, parens_append, parens_append, parens_countAlias, List.nil_append]

theorem lacksComma_text (h : Renames q q') {d : Nat} (hq : LacksComma d q.text) :
    LacksComma d q'.text := by
  rcases h.exists_text with heq | ⟨u, n, hu, hu', -⟩
  · rwa [heq]
  · rw [hu, lacksComma_append] at hq
    rw [hu', lacksComma_append, lacksComma_append,
      depthAfter_of_parens (parens_countAlias n)]
    exact ⟨hq.1, lacksComma_of_notMem (comma_notMem_countAlias n) _, hq.2⟩

theorem lacks_text (h : Renames q q') (hspaced : IsSpaced q) {d : Nat} (hq : Lacks "FROM" d q.text) :
    Lacks "FROM" d q'.text := by
  rcases h.exists_text with heq | ⟨u, n, hu, hu', hlast⟩
  · rwa [heq]
  · have hseam : u.getLast?.any isWord = false := by
      rw [hlast]
      rfl
    have htrail : q.trail.head?.any isWord = false :=
      any_isWord_eq_false fun x hx => isWord_of_isBlank (hspaced.trail x (List.mem_of_head? hx))
    rw [hu, lacks_append (by decide) (Or.inl hseam)] at hq
    rw [hu', lacks_append (by decide) (Or.inl hseam), lacks_append (by decide) (Or.inr htrail),
      depthAfter_of_parens (parens_countAlias n)]
    exact ⟨hq.1, lacks_countAlias n _, hq.2⟩

end Renames

theorem renames_nameCounts (n : Nat) (ps : List Spaced) :
    List.Forall₂ Renames ps (nameCounts n ps) := by
  induction ps generalizing n with
  | nil => exact .nil
  | cons p ps ih =>
    rw [nameCounts]
    split
    · rename_i hcount
      refine .cons (Or.inr ⟨isUnnamedCount_iff.1 hcount, n, ?_⟩) (ih (n + 1))
      rw [countAlias, List.append_assoc]
    · rename_i hcount
      exact .cons (Or.inl ⟨mt isUnnamedCount_iff.2 hcount, rfl⟩) (ih n)

/-- The count with `k` counts in front of it gets the name with that number. -/
theorem getElem?_nameCounts (n : Nat) (ps : List Spaced) (i : Nat) :
    (nameCounts n ps)[i]? = ps[i]?.map fun q =>
      if IsWholeCount q.core then
        { q with core := q.core ++
          countAlias (n + (ps.take i).countP fun r => IsWholeCount r.core) }
      else q := by
  induction ps generalizing n i with
  | nil => simp [nameCounts]
  | cons p ps ih =>
    by_cases hp : IsWholeCount p.core
    · rw [nameCounts, if_pos (isUnnamedCount_iff.2 hp)]
      cases i with
      | zero => simp [hp, countAlias]
      | succ i =>
        rw [List.getElem?_cons_succ, List.getElem?_cons_succ, ih, List.take_succ_cons,
          List.countP_cons_of_pos (by simpa using hp)]
        simp only [Nat.add_assoc, Nat.add_comm 1]
    · rw [nameCounts, if_neg (mt isUnnamedCount_iff.1 hp)]
      cases i with
      | zero => simp [hp]
      | succ i =>
        rw [List.getElem?_cons_succ, List.getElem?_cons_succ, ih, List.take_succ_cons,
          List.countP_cons_of_neg (by simpa using hp)]

/-! ## The list with the names -/

/-- The items of a list are written as they are read, and FROM stands in none of them. -/
structure IsList (ps : List Spaced) : Prop where
  ne_nil : ps ≠ []
  spaced : ∀ q ∈ ps, IsSpaced q
  parts : IsParts (ps.map Spaced.text)
  lacks : ∀ q ∈ ps, Lacks "FROM" 0 q.text

/-- A list is its items in front of the last one and the last one. -/
theorem IsParts.lacks_join {parts : List Bytes} (h : IsParts parts) (hne : parts ≠ []) :
    Lacks "FROM" 0 (join [comma] parts) ↔ ∀ part ∈ parts, Lacks "FROM" 0 part := by
  have hall := lacks_join_concat isWord_from h.closed (parts.getLast hne)
  rw [List.dropLast_append_getLast hne] at hall
  rw [hall]
  constructor
  · rintro ⟨hinit, hlast⟩ part hpart
    rw [← List.dropLast_append_getLast hne, List.mem_append, List.mem_singleton] at hpart
    rcases hpart with hpart | rfl
    · exact hinit part hpart
    · exact hlast
  · exact fun hparts => ⟨fun part hpart => hparts part (List.mem_of_mem_dropLast hpart),
      hparts _ (List.getLast_mem hne)⟩

theorem isList_items {list : Bytes} (h : Lacks "FROM" 0 list) : IsList (items list) := by
  have hne : splitTop list ≠ [] := splitTopFrom_ne_nil 0 list
  have hparts := isParts_splitTop list
  refine ⟨?_, ?_, by rwa [map_text_items], ?_⟩
  · rw [items, ne_eq, List.map_eq_nil_iff]
    exact hne
  · intro q hq
    obtain ⟨part, -, rfl⟩ := List.mem_map.1 hq
    exact Spaced.isSpaced_ofText part
  · intro q hq
    rw [← ofItems_items list, ofItems, map_text_items] at h
    refine (hparts.lacks_join hne).1 h q.text ?_
    rw [← map_text_items]
    exact List.mem_map_of_mem hq

theorem IsList.lacks_ofItems {ps : List Spaced} (h : IsList ps) : Lacks "FROM" 0 (ofItems ps) := by
  refine (h.parts.lacks_join (by simpa using h.ne_nil)).2 fun part hpart => ?_
  obtain ⟨q, hq, rfl⟩ := List.mem_map.1 hpart
  exact h.lacks q hq

theorem IsList.closed_init {init : List Spaced} {q : Spaced} (h : IsList (init ++ [q])) :
    ∀ part ∈ init.map Spaced.text, depthAfter 0 part = 0 := by
  have hclosed := h.parts.closed
  rwa [List.map_append, List.map_singleton, List.dropLast_concat] at hclosed

/-- A list is read as it is written. -/
theorem IsList.items_ofItems {ps : List Spaced} (h : IsList ps) : items (ofItems ps) = ps := by
  rw [items, ofItems, h.parts.splitTop_join (by simpa using h.ne_nil), List.map_map]
  exact (List.map_congr_left fun q hq => Spaced.ofText_text (h.spaced q hq)).trans (List.map_id _)

theorem exists_of_forall₂_mem {α β : Type} {R : α → β → Prop} {as : List α} {bs : List β}
    (h : List.Forall₂ R as bs) {b : β} (hb : b ∈ bs) : ∃ a ∈ as, R a b := by
  induction h with
  | nil => cases hb
  | cons hhead _ ih =>
    rcases List.mem_cons.1 hb with rfl | hb
    · exact ⟨_, List.mem_cons_self, hhead⟩
    · obtain ⟨a, ha, hrel⟩ := ih hb
      exact ⟨a, List.mem_cons_of_mem _ ha, hrel⟩

theorem isParts_of_renames {ps ps' : List Spaced} (h : List.Forall₂ Renames ps ps')
    (hparts : IsParts (ps.map Spaced.text)) : IsParts (ps'.map Spaced.text) := by
  induction h with
  | nil => exact isParts_nil
  | @cons q q' ps ps' hren hrest ih =>
    rw [List.map_cons, isParts_cons] at hparts
    rw [List.map_cons, isParts_cons]
    refine ⟨hren.lacksComma_text hparts.1, fun hne => ?_, ih hparts.2.2⟩
    rw [depthAfter_congr hren.parens_text]
    refine hparts.2.1 fun hnil => hne ?_
    rw [List.map_eq_nil_iff] at hnil
    rw [hnil] at hrest
    rw [List.forall₂_nil_left_iff.1 hrest, List.map_nil]

/-- Names leave a list a list. -/
theorem IsList.renamed {ps ps' : List Spaced} (hps : IsList ps) (h : List.Forall₂ Renames ps ps') :
    IsList ps' := by
  refine ⟨?_, fun q' hq' => ?_, isParts_of_renames h hps.parts, fun q' hq' => ?_⟩
  · rintro rfl
    exact hps.ne_nil (List.forall₂_nil_right_iff.1 h)
  · obtain ⟨q, hq, hren⟩ := exists_of_forall₂_mem h hq'
    exact hren.isSpaced (hps.spaced q hq)
  · obtain ⟨q, hq, hren⟩ := exists_of_forall₂_mem h hq'
    exact hren.lacks_text (hps.spaced q hq) (hps.lacks q hq)

/-! ## Reading the statement again -/

theorem ofItems_cons {q : Spaced} {ps : List Spaced} :
    ofItems (q :: ps) = q.text ++ (if ps = [] then [] else comma :: ofItems ps) := by
  split
  · rename_i hnil
    rw [hnil]
    simp [ofItems, join]
  · rename_i hne
    rw [ofItems, List.map_cons, join, List.intercalate_cons_of_ne_nil (by simpa using hne),
      List.append_assoc]
    rfl

/-- Up to the parenthesis of the first count nothing changes. -/
theorem exists_openParen {ps ps' : List Spaced} (h : List.Forall₂ Renames ps ps')
    (hcount : ∃ q ∈ ps, IsWholeCount q.core) :
    ∃ u v v', ofItems ps = u ++ openParen :: v ∧ ofItems ps' = u ++ openParen :: v' := by
  induction h with
  | nil =>
    obtain ⟨q, hq, -⟩ := hcount
    cases hq
  | @cons q q' ps ps' hren hrest ih =>
    rw [ofItems_cons, ofItems_cons]
    rcases hren with ⟨hnot, rfl⟩ | ⟨⟨name, gap, arg, hcore, -⟩, n, rfl⟩
    · obtain ⟨r, hr, hrcount⟩ := hcount
      have hmem : r ∈ ps := (List.mem_cons.1 hr).resolve_left fun heq => hnot (heq ▸ hrcount)
      obtain ⟨u, v, v', hu, hu'⟩ := ih ⟨r, hmem, hrcount⟩
      have hne : ps ≠ [] := List.ne_nil_of_mem hmem
      have hne' : ps' ≠ [] := by
        rintro rfl
        exact hne (List.forall₂_nil_right_iff.1 hrest)
      rw [if_neg hne, if_neg hne', hu, hu']
      exact ⟨q'.text ++ comma :: u, v, v', by simp, by simp⟩
    · generalize (if ps = [] then [] else comma :: ofItems ps) = z
      generalize (if ps' = [] then [] else comma :: ofItems ps') = z'
      exact ⟨q.lead ++ (name ++ gap), arg ++ closeParen :: (q.trail ++ z),
        arg ++ closeParen :: (countAlias n ++ (q.trail ++ z')), by simp [Spaced.text, hcore],
        by simp [Spaced.text, hcore]⟩

/-- A statement that is the same up to an opening parenthesis in the list has the same head. -/
theorem SelectParts.ofText?_openParen {s : Bytes} {p : SelectParts}
    (hp : SelectParts.ofText? s = some p) {u v w list tail : Bytes}
    (hlist : p.list ++ p.tail = u ++ openParen :: v) (hnew : list ++ tail = u ++ openParen :: w)
    (hlacks : Lacks "FROM" 0 list) (htail : tail ≠ [] → TopWord "FROM" 0 list tail) :
    SelectParts.ofText? (p.head ++ list ++ tail) = some ⟨p.head, list, tail⟩ := by
  obtain ⟨⟨m, hm, hhead, hafter⟩, -⟩ := SelectParts.of_ofText? hp
  have hs := Pattern.text_of_find? hm
  rw [Pattern.before_eq_nil hm, List.nil_append, hafter, hlist, ← List.append_assoc] at hs
  have hstart : ∀ t, selectHeadPattern.find? t = selectHeadPattern.matchHere? none t :=
    Pattern.find?_textStart _
  rw [hstart, ← hs] at hm
  obtain ⟨u', m', htext, hm', htext', hafter'⟩ :=
    Pattern.matchHere?_barrier (by decide) (by decide) hm w
  obtain rfl : u = u' := List.append_cancel_left htext
  rw [← hhead, ← htext']
  refine SelectParts.ofText?_of_lacks ?_ (hafter'.trans hnew.symm) hlacks htail
  rw [hstart, htext', List.append_assoc, hnew, ← List.append_assoc]
  exact hm'

/-! ## Where the clause is put -/

theorem afterGroup_cases {p : Pattern} (hp : p ∈ afterGroup) :
    p = Clause.havingPattern ∨ p = Clause.orderByPattern ∨ p = Clause.limitPattern ∨
      p = Clause.offsetPattern ∨ p = Clause.lockPattern := by
  simpa [afterGroup, Clause.afterOrder] using hp

theorem consumes_afterGroup {p : Pattern} (hp : p ∈ afterGroup) : p.Consumes := by
  rcases afterGroup_cases hp with rfl | rfl | rfl | rfl | rfl
  · exact Pattern.consumes_wholeWord (by decide)
  · exact consumes_orderBy
  · exact Pattern.consumes_wholeWord (by decide)
  · exact Pattern.consumes_wholeWord (by decide)
  · exact Pattern.consumes_of_mem (List.mem_cons_of_mem _ List.mem_cons_self)
      (Pattern.consumes_keyword (s := "FOR") (by decide))

theorem startsOutside_afterGroup {p : Pattern} (hp : p ∈ afterGroup) : p.StartsOutside := by
  rcases afterGroup_cases hp with rfl | rfl | rfl | rfl | rfl
  · exact Pattern.startsOutside_keyword (by decide) (by decide) _
  · exact Pattern.startsOutside_phrase (by decide) (by decide) _ _
  · exact Pattern.startsOutside_keyword (by decide) (by decide) _
  · exact Pattern.startsOutside_keyword (by decide) (by decide) _
  · exact Pattern.startsOutside_keyword (by decide) (by decide) _

/-- The clauses that follow GROUP BY start, at the edge of a word, with one of these words. -/
theorem leads_afterGroup {p : Pattern} (hp : p ∈ afterGroup) {c c' : Pattern.Cursor}
    (h : Pattern.Leads p c c') : c.atWordEdge = true ∧
      ∃ word ∈ ["HAVING", "ORDER", "LIMIT", "OFFSET", "FOR"], ∃ c₁,
        Pattern.Leads (Pattern.keyword word) c c₁ := by
  have hopens : ∀ {word : String} {ps : List Pattern},
      Pattern.Leads (.seqs (.wordEdge :: .keyword word :: ps)) c c' →
        c.atWordEdge = true ∧ ∃ c₁, Pattern.Leads (Pattern.keyword word) c c₁ := by
    intro word ps h
    obtain ⟨hedge, o, ho, c₁, -, hkey, -⟩ := Pattern.opens_keyword word ps _ _ h
    obtain rfl := List.mem_singleton.1 ho
    exact ⟨hedge, c₁, hkey⟩
  rcases afterGroup_cases hp with rfl | rfl | rfl | rfl | rfl
  · exact (hopens h).imp_right fun hkey => ⟨"HAVING", by decide, hkey⟩
  · obtain ⟨c₁, hedge, h₁⟩ := Pattern.leads_seqs_cons.1 h
    obtain ⟨rfl, hedge⟩ := Pattern.leads_wordEdge.1 hedge
    obtain ⟨c₂, hphrase, -⟩ := Pattern.leads_seqs_cons.1 h₁
    obtain ⟨c₃, hkey, -⟩ := Pattern.leads_phrase_head hphrase
    exact ⟨hedge, "ORDER", by decide, c₃, hkey⟩
  · exact (hopens h).imp_right fun hkey => ⟨"LIMIT", by decide, hkey⟩
  · exact (hopens h).imp_right fun hkey => ⟨"OFFSET", by decide, hkey⟩
  · exact (hopens h).imp_right fun hkey => ⟨"FOR", by decide, hkey⟩

/-- None of these words is FROM or starts as FROM does. -/
theorem not_spells_from {word : String} (hw : word ∈ ["HAVING", "ORDER", "LIMIT", "OFFSET", "FOR"])
    {f r t u : Bytes} (hf : f.map lowerByte = (ascii "FROM").map lowerByte)
    (h : Pattern.Spells word.toList t) (heq : f ++ r = t ++ u) : False := by
  obtain ⟨x, y, z, rfl⟩ : ∃ x y z, f = x :: y :: z := by
    rcases f with _ | ⟨x, _ | ⟨y, z⟩⟩
    · cases hf
    · cases (List.cons.inj hf).2
    · exact ⟨x, y, z, rfl⟩
  have hx : lowerByte x = 102 := (List.cons.inj hf).1
  have hy : lowerByte y = 114 := (List.cons.inj (List.cons.inj hf).2).1
  have hascii : ∀ b : UInt8, lowerByte b = 102 ∨ lowerByte b = 114 → b < 128 := fun b hb =>
    forall_lowerByte (P := fun b => b < 128) (l := [102, 114]) (by decide) (by simpa using hb)
  have hletters : ∃ ch₁ ch₂ cs, word.toList = ch₁ :: ch₂ :: cs ∧
      (lowerByte (charByte ch₁) ≠ 102 ∨ lowerByte (charByte ch₂) ≠ 114) := by
    simp only [List.mem_cons, List.not_mem_nil, or_false] at hw
    rcases hw with rfl | rfl | rfl | rfl | rfl
    · exact ⟨_, _, _, rfl, by decide⟩
    · exact ⟨_, _, _, rfl, by decide⟩
    · exact ⟨_, _, _, rfl, by decide⟩
    · exact ⟨_, _, _, rfl, by decide⟩
    · exact ⟨_, _, _, rfl, by decide⟩
  obtain ⟨ch₁, ch₂, cs, hcs, hne⟩ := hletters
  rw [hcs] at h
  cases h with
  | @ascii _ _ a t _ hch₁ h =>
    obtain ⟨rfl, htail⟩ := List.cons.inj heq
    cases h with
    | @ascii _ _ b t _ hch₂ h =>
      obtain ⟨rfl, -⟩ := List.cons.inj htail
      exact hne.elim (fun h => h (hch₁ ▸ hx)) fun h => h (hch₂ ▸ hy)
    | @wide _ _ b w t _ hwide h =>
      obtain ⟨rfl, -⟩ := List.cons.inj htail
      exact UInt8.not_lt.2 (hwide y List.mem_cons_self) (hascii y (Or.inr hy))
  | @wide _ _ b w t _ hwide h =>
    obtain ⟨rfl, -⟩ := List.cons.inj heq
    exact UInt8.not_lt.2 (hwide x List.mem_cons_self) (hascii x (Or.inl hx))

/-- The clauses that follow GROUP BY stand behind FROM. -/
theorem exists_behind_from {p : Pattern} (hp : p ∈ afterGroup) {f r : Bytes}
    (hf : f.map lowerByte = (ascii "FROM").map lowerByte) {m : Match}
    (hm : findTop? p (f ++ r) = some m) : ∃ r₁, m.before = f ++ r₁ := by
  obtain ⟨hs, c', hplaces⟩ := Pattern.places_of_findTop? (consumes_afterGroup hp) hm
  obtain ⟨hedge, word, hw, c₁, hkey⟩ := leads_afterGroup hp hplaces.leads
  have hfword : IsWord f := IsWord.of_map_lowerByte (s := ascii "FROM") (by decide) hf
  rw [List.append_assoc] at hs
  rcases List.append_eq_append_iff.1 hs with ⟨r₁, hbefore, -⟩ | ⟨g, rfl, hrest⟩
  · exact ⟨r₁, hbefore⟩
  · by_cases hg : g = []
    · subst hg
      exact ⟨[], by simp⟩
    exfalso
    have hgword : IsWord g := ⟨hg, fun x hx => hfword.2 x (List.mem_append_right _ hx)⟩
    rw [hrest, Pattern.Cursor.atWordEdge, isWord_head hgword] at hedge
    by_cases hnil : m.before = []
    · rw [hnil, List.nil_append] at hf
      have hletters : ∀ word ∈ ["HAVING", "ORDER", "LIMIT", "OFFSET", "FOR"],
          ∀ ch ∈ word.toList, ch.toNat < 128 := by decide
      obtain ⟨t, htakes, hspells, -⟩ := Pattern.leads_keyword_spells (hletters word hw) hkey
      exact not_spells_from hw hf hspells (hrest.symm.trans htakes.rest)
    · have hbword : IsWord m.before := ⟨hnil, fun x hx => hfword.2 x (List.mem_append_left _ hx)⟩
      have hlast := isWord_last hbword []
      rw [List.nil_append] at hlast
      rw [Option.or_none, hlast] at hedge
      cases hedge

theorem topIndex_le {ps : List Pattern} {s : Bytes} {p : Pattern} (hp : p ∈ ps) {m : Match}
    (hm : findTop? p s = some m) : topIndex ps s ≤ m.before.length := by
  have hmono : ∀ (qs : List Pattern) (n : Nat), qs.foldl
      (fun n q => ((findTop? q s).map fun m => min n m.before.length).getD n) n ≤ n := by
    intro qs
    induction qs with
    | nil => exact Nat.le_refl
    | cons q qs ih =>
      intro n
      refine (ih _).trans ?_
      dsimp only
      cases findTop? q s with
      | none => exact Nat.le_refl n
      | some m => exact Nat.min_le_left n m.before.length
  obtain ⟨before, after, rfl⟩ := List.append_of_mem hp
  rw [topIndex, List.foldl_append, List.foldl_cons, hm]
  exact (hmono after _).trans (Nat.min_le_right _ _)

/-- The clause is put in front of the first of the clauses that follow it in the tail or, if there is
none, in front of the semicolon at the end. -/
def Grouped (start tail clause out : Bytes) : Prop :=
  (∃ p ∈ afterGroup, ∃ m, findTop? p tail = some m ∧
      (∀ q ∈ afterGroup, ∀ n, findTop? q tail = some n → m.before.length ≤ n.before.length) ∧
      out = trimRight (start ++ m.before) ++ ascii " " ++ clause ++ ascii " " ++ (m.text ++ m.after)) ∨
    (∀ p ∈ afterGroup, findTop? p tail = none) ∧
      ∃ body ending, start ++ tail = body ++ ending ∧ (∀ b ∈ ending, isEnding b = true) ∧
        EndsFirmly body ∧
        out = body ++ ascii " " ++ clause ++ semicolonIf (ending.contains 59)

theorem grouped_insertGroupBy (start tail clause : Bytes) :
    Grouped start tail clause (insertGroupBy start tail clause) := by
  rw [insertGroupBy, splitAtClause, List.splitAt_eq]
  by_cases hnone : ∀ p ∈ afterGroup, findTop? p tail = none
  · have hindex : topIndex afterGroup tail = tail.length := by
      rcases topIndex_cases afterGroup tail with h | ⟨p, hp, m, hm, -⟩
      · exact h
      · rw [hnone p hp] at hm
        cases hm
    refine Or.inr ⟨hnone, dropTailWhile isEnding (start ++ tail), _,
      (dropTailWhile_append_drop isEnding _).symm, fun b => of_mem_drop_dropTailWhile,
      getLast?_dropTailWhile _, ?_⟩
    rw [hindex, List.drop_length]
    rfl
  · simp only [not_forall] at hnone
    obtain ⟨q, hq, hsome⟩ := hnone
    obtain ⟨n, hn⟩ := Option.ne_none_iff_exists'.1 hsome
    have hlt : topIndex afterGroup tail < tail.length := by
      obtain ⟨htail, c', hplaces⟩ := Pattern.places_of_findTop? (consumes_afterGroup hq) hn
      have hpos := List.length_pos_iff.2 (hplaces.text_ne_nil (consumes_afterGroup hq))
      have hle := topIndex_le hq hn
      have hlen := congrArg List.length htail
      simp only [List.length_append] at hlen
      omega
    obtain ⟨p, hp, m, hm, hlen⟩ :=
      (topIndex_cases afterGroup tail).resolve_left (Nat.ne_of_lt hlt)
    obtain ⟨htail, c', hplaces⟩ := Pattern.places_of_findTop? (consumes_afterGroup hp) hm
    refine Or.inl ⟨p, hp, m, hm, fun r hr k hk => hlen ▸ topIndex_le hr hk, ?_⟩
    rw [List.append_assoc] at htail
    have htake : tail.take (topIndex afterGroup tail) = m.before := by
      rw [← hlen]
      exact (congrArg (List.take _) htail).trans (List.take_left' rfl)
    have hdrop : tail.drop (topIndex afterGroup tail) = m.text ++ m.after := by
      rw [← hlen]
      exact (congrArg (List.drop _) htail).trans (List.drop_left' rfl)
    rw [htake, hdrop]
    dsimp only
    rw [if_neg (by simp [hplaces.text_ne_nil (consumes_afterGroup hp)])]

/-- What ends a text of two parts ends the second one, unless it reaches into the first. -/
theorem exists_cut {q : UInt8 → Bool} {a b body ending : Bytes} (h : a ++ b = body ++ ending)
    (hending : ∀ x ∈ ending, q x = true) (ha : ∀ x ∈ a.getLast?, q x = false) :
    ∃ c, body = a ++ c ∧ b = c ++ ending := by
  rcases List.append_eq_append_iff.1 h with ⟨c, hc, hb⟩ | ⟨c, rfl, rfl⟩
  · exact ⟨c, hc, hb⟩
  · cases hlast : c.getLast? with
    | none =>
      obtain rfl := List.getLast?_eq_none_iff.1 hlast
      exact ⟨[], by simp, rfl⟩
    | some x =>
      have hx := ha x (by rw [List.getLast?_append, hlast]; rfl)
      rw [hending x (List.mem_append_left b (List.mem_of_getLast? hlast))] at hx
      cases hx

/-- FROM stays where it is: the clause is put behind it. -/
theorem Grouped.exists_tail {start f r clause out : Bytes} (h : Grouped start (f ++ r) clause out)
    (hf : f.map lowerByte = (ascii "FROM").map lowerByte) (hr : r.head?.any isWord = false) :
    ∃ r', out = start ++ (f ++ r') ∧ r'.head?.any isWord = false := by
  have hfword : IsWord f := IsWord.of_map_lowerByte (s := ascii "FROM") (by decide) hf
  have hfirm : ∀ x ∈ (start ++ f).getLast?, isEnding x = false := by
    intro x hx
    have hlast := isWord_last hfword start
    rw [Option.mem_def.1 hx] at hlast
    exact isEnding_of_isWord hlast
  -- what is left of the rest is followed by a blank
  have hhead : ∀ c v, c <+: r → (c ++ (ascii " " ++ v)).head?.any isWord = false := by
    rintro c v ⟨w, rfl⟩
    cases c with
    | nil => rfl
    | cons x c => exact hr
  rcases h with ⟨p, hp, m, hm, -, rfl⟩ | ⟨-, body, ending, hcut, hending, -, rfl⟩
  · obtain ⟨r₁, hbefore⟩ := exists_behind_from hp hf hm
    obtain ⟨htail, -⟩ := Pattern.places_of_findTop? (consumes_afterGroup hp) hm
    have hprefix : trimRight r₁ <+: r := by
      have hfirst := dropTailWhile_prefix isBlank r₁
      refine hfirst.trans ⟨m.text ++ m.after, ?_⟩
      rw [hbefore, List.append_assoc, List.append_assoc, List.append_cancel_left_eq] at htail
      exact htail.symm
    have htrim : trimRight (start ++ m.before) = start ++ f ++ trimRight r₁ := by
      rw [hbefore, ← List.append_assoc]
      refine dropTailWhile_append (fun x hx => ?_) r₁
      exact (Bool.or_eq_false_iff.1 (hfirm x hx)).1
    rw [htrim]
    exact ⟨trimRight r₁ ++ (ascii " " ++ (clause ++ ascii " " ++ (m.text ++ m.after))), by simp,
      hhead _ _ hprefix⟩
  · rw [← List.append_assoc] at hcut
    obtain ⟨c, rfl, rfl⟩ := exists_cut hcut hending hfirm
    exact ⟨c ++ (ascii " " ++ (clause ++ semicolonIf (ending.contains 59))), by simp,
      hhead _ _ (List.prefix_append c ending)⟩

/-! ## The clause as part of the list -/

theorem EndsName.not_isEnding {b : UInt8} (h : EndsName b) : isEnding b = false ∧ b ≠ closeParen := by
  revert h
  exact forall_byte (P := fun b => isBareByte b = true ∨ b = doubleQuote →
    isEnding b = false ∧ b ≠ closeParen) (by decide +kernel) b

/-- Each comma outside parentheses stands behind a name. -/
def CommasBehindNames (d : Nat) (s : Bytes) : Prop :=
  ∀ a b, s = a ++ comma :: b → depthAfter d a = 0 → ∃ x, a.getLast? = some x ∧ EndsName x

theorem LacksComma.commasBehindNames {d : Nat} {s : Bytes} (h : LacksComma d s) :
    CommasBehindNames d s :=
  fun a b hs hd => absurd hd (h a b hs)

theorem CommasBehindNames.append {d : Nat} {u v : Bytes} (hu : LacksComma d u)
    (hv : CommasBehindNames (depthAfter d u) v) : CommasBehindNames d (u ++ v) := by
  intro a b h hdepth
  rcases List.append_eq_append_iff.1 h with ⟨c, rfl, hc⟩ | ⟨c, rfl, hc⟩
  · rw [depthAfter_append] at hdepth
    obtain ⟨x, hx, hends⟩ := hv c b hc hdepth
    exact ⟨x, by rw [List.getLast?_append, hx]; rfl, hends⟩
  · cases c with
    | nil =>
      rw [List.append_nil] at hv
      obtain ⟨x, hx, -⟩ := hv [] b hc.symm hdepth
      cases hx
    | cons y c =>
      obtain ⟨rfl, -⟩ := List.cons.inj hc
      exact absurd hdepth (hu a c rfl)

/-- A column that the query can be grouped by, as it stands in the select list. -/
structure IsColumnItem (col : Bytes) : Prop where
  plain : LacksComma 0 col
  ends : ∃ x, col.getLast? = some x ∧ EndsName x
  lacks : Lacks "FROM" 0 col

theorem IsColumnItem.append_separator {col v : Bytes} (hcol : IsColumnItem col) (d : Nat)
    (hv : ∀ d, CommasBehindNames d v) : CommasBehindNames d (col ++ comma :: 32 :: v) := by
  intro a b h hdepth
  rcases List.append_eq_append_iff.1 h with ⟨c, rfl, hc⟩ | ⟨c, hcut, hc⟩
  · rcases c with _ | ⟨y, _ | ⟨z, c⟩⟩
    · rw [List.append_nil]
      exact hcol.ends
    · cases (List.cons.inj (List.cons.inj hc).2).1
    · obtain ⟨-, hc⟩ := List.cons.inj (List.cons.inj hc).2
      rw [show col ++ y :: z :: c = col ++ [y, z] ++ c by simp, depthAfter_append] at hdepth
      obtain ⟨x, hx, hends⟩ := hv _ c b hc hdepth
      refine ⟨x, ?_, hends⟩
      rw [show col ++ y :: z :: c = col ++ [y, z] ++ c by simp, List.getLast?_append, hx]
      rfl
  · cases c with
    | nil =>
      rw [List.append_nil] at hcut
      exact hcut ▸ hcol.ends
    | cons y c =>
      obtain ⟨rfl, -⟩ := List.cons.inj hc
      exact absurd hdepth (hcol.plain.mono (Nat.zero_le d) a c hcut)

theorem commasBehindNames_columns {cols : List Bytes} (hcols : ∀ col ∈ cols, IsColumnItem col)
    {rest : Bytes} (hrest : comma ∉ rest) (d : Nat) :
    CommasBehindNames d (join (ascii ", ") cols ++ rest) := by
  induction cols generalizing d with
  | nil => exact (lacksComma_of_notMem hrest d).commasBehindNames
  | cons col cols ih =>
    obtain ⟨hcol, hcols⟩ := List.forall_mem_cons.1 hcols
    have hcomma := hcol.plain.mono (Nat.zero_le d)
    by_cases hnil : cols = []
    · rw [hnil, join, List.intercalate_singleton]
      exact .append hcomma (lacksComma_of_notMem hrest _).commasBehindNames
    · rw [join, List.intercalate_cons_of_ne_nil hnil, List.append_assoc, List.append_assoc]
      exact hcol.append_separator d (ih hcols)

theorem lacks_columns {cols : List Bytes} (hcols : ∀ col ∈ cols, IsColumnItem col) (d : Nat) :
    Lacks "FROM" d (join (ascii ", ") cols) := by
  induction cols generalizing d with
  | nil => exact lacks_of_forall_ne (l := 102) (by decide) (fun x hx => by cases hx) d
  | cons col cols ih =>
    obtain ⟨hcol, hcols⟩ := List.forall_mem_cons.1 hcols
    have hlacks := hcol.lacks.mono (Nat.zero_le d)
    by_cases hnil : cols = []
    · rwa [hnil, join, List.intercalate_singleton]
    · rw [join, List.intercalate_cons_of_ne_nil hnil, List.append_assoc]
      refine (lacks_append (by decide) (Or.inr rfl)).2 ⟨hlacks,
        (lacks_append (by decide) (Or.inl rfl)).2 ⟨?_, ih hcols _⟩⟩
      exact lacks_of_forall_ne (l := 102) (by decide) (by decide) _

theorem getLast?_columns {cols : List Bytes} (hcols : ∀ col ∈ cols, IsColumnItem col)
    (hne : cols ≠ []) : ∃ x, (join (ascii ", ") cols).getLast? = some x ∧ EndsName x := by
  induction cols with
  | nil => exact absurd rfl hne
  | cons col cols ih =>
    obtain ⟨hcol, hcols⟩ := List.forall_mem_cons.1 hcols
    by_cases hnil : cols = []
    · rw [hnil, join, List.intercalate_singleton]
      exact hcol.ends
    · obtain ⟨x, hx, hends⟩ := ih hcols hnil
      refine ⟨x, ?_, hends⟩
      rw [join, List.intercalate_cons_of_ne_nil hnil, List.getLast?_append,
        show List.intercalate (ascii ", ") cols = join (ascii ", ") cols from rfl, hx]
      rfl

/-- The plain columns of a list. -/
def plainColumns (ps : List Spaced) : List Bytes :=
  (ps.map Spaced.core).filter isPlainColumn

theorem IsList.isColumnItem {ps : List Spaced} (h : IsList ps) :
    ∀ col ∈ plainColumns ps, IsColumnItem col := by
  intro col hcol
  obtain ⟨hmem, hplain⟩ := List.mem_filter.1 hcol
  obtain ⟨q, hq, rfl⟩ := List.mem_map.1 hmem
  have hspaced := h.spaced q hq
  have hcomma := h.parts.plain q.text (List.mem_map_of_mem hq)
  have hlacks := h.lacks q hq
  have hblank : ∀ b : UInt8, isBlank b = true → isParen b = false ∧ isWord b = false :=
    fun _ hb => ⟨isParen_of_isBlank hb, isWord_of_isBlank hb⟩
  have hlead : depthAfter 0 q.lead = 0 :=
    depthAfter_of_parens (parens_eq_nil_iff.2 fun b hb => (hblank b (hspaced.lead b hb)).1) 0
  have hleft : q.lead.getLast?.any isWord = false :=
    any_isWord_eq_false fun x hx => (hblank x (hspaced.lead x (List.mem_of_getLast? hx))).2
  have hright : q.trail.head?.any isWord = false :=
    any_isWord_eq_false fun x hx => (hblank x (hspaced.trail x (List.mem_of_head? hx))).2
  rw [Spaced.text, lacksComma_append, lacksComma_append, hlead] at hcomma
  rw [Spaced.text, lacks_append (by decide) (Or.inr hright), lacks_append (by decide) (Or.inl hleft),
    hlead] at hlacks
  exact ⟨hcomma.1.2, (parts_of_isPlainColumn hplain).1, hlacks.1.2⟩

/-- The clause that groups by the plain columns of a list. -/
def groupClause (ps : List Spaced) : Bytes :=
  ascii "GROUP BY " ++ join (ascii ", ") (plainColumns ps)

/-- A count ends with a parenthesis, and only blanks follow it in its item. -/
theorem not_isWholeCount_of_endsName {a part : Bytes} {x : UInt8}
    (hx : (dropTailWhile isEnding (a ++ part)).getLast? = some x) (hends : EndsName x) :
    ¬ IsWholeCount (Spaced.ofText part).core := by
  intro hcount
  have hfirm : ∀ y ∈ (a ++ ((Spaced.ofText part).lead ++ (Spaced.ofText part).core)).getLast?,
      isEnding y = false := by
    rw [List.getLast?_append, List.getLast?_append, hcount.getLast?]
    rintro y ⟨⟩
    rfl
  have htrail : ∀ y ∈ (Spaced.ofText part).trail, isEnding y = true := by
    intro y hy
    rw [isEnding, (Spaced.isSpaced_ofText part).trail y hy]
    rfl
  rw [← Spaced.text_ofText part, Spaced.text, ← List.append_assoc, dropTailWhile_append hfirm,
    dropTailWhile_of_forall htrail, List.append_nil, List.getLast?_append, List.getLast?_append,
    hcount.getLast?] at hx
  obtain rfl := Option.some.inj hx
  exact hends.not_isEnding.2 rfl

/-- Where the statement has no FROM, the clause stands behind the last item of the list. What it is
read as together with this item are no counts, since each part ends with a name. -/
theorem items_grouped {ps : List Spaced} {body : Bytes} (hbody : LacksComma 0 body)
    (hcols : ∀ col ∈ plainColumns ps, IsColumnItem col) (hne : plainColumns ps ≠ []) (had : Bool) :
    ∀ q ∈ items (body ++ (ascii " " ++ (groupClause ps ++ semicolonIf had))),
      ¬ IsWholeCount q.core := by
  intro q hq
  obtain ⟨part, hpart, rfl⟩ := List.mem_map.1 hq
  have hsemi : comma ∉ semicolonIf had := by
    cases had <;> decide
  have hending : ∀ b ∈ semicolonIf had, isEnding b = true := by
    cases had <;> decide
  have htext : body ++ (ascii " " ++ (groupClause ps ++ semicolonIf had)) =
      body ++ (ascii " GROUP BY " ++ (join (ascii ", ") (plainColumns ps) ++ semicolonIf had)) := by
    rw [groupClause, List.append_assoc (ascii "GROUP BY "), ← List.append_assoc (ascii " ")]
    rfl
  rw [htext] at hpart
  obtain ⟨x, hx, hends⟩ := getLast?_columns hcols hne
  rcases end_of_mem_splitTop hpart with ⟨a, ha⟩ | ⟨a, b, ha, hdepth⟩
  · refine not_isWholeCount_of_endsName (a := a) (x := x) ?_ hends
    have hlast : (body ++ (ascii " GROUP BY " ++ join (ascii ", ") (plainColumns ps))).getLast? =
        some x := by
      rw [List.getLast?_append, List.getLast?_append, hx]
      rfl
    rw [← ha, ← List.append_assoc (ascii " GROUP BY "), ← List.append_assoc body,
      dropTailWhile_append fun y hy => ?_, dropTailWhile_of_forall hending, List.append_nil, hlast]
    rw [hlast] at hy
    obtain rfl := Option.some.inj hy
    exact hends.not_isEnding.1
  · have hcommas : CommasBehindNames 0
        (body ++ (ascii " GROUP BY " ++ (join (ascii ", ") (plainColumns ps) ++ semicolonIf had))) :=
      .append hbody (.append (lacksComma_of_notMem (by decide) _)
        (commasBehindNames_columns hcols hsemi _))
    obtain ⟨y, hy, hends⟩ := hcommas (a ++ part) b ha hdepth
    refine not_isWholeCount_of_endsName (a := a) (x := y) ?_ hends
    have hfirm : dropTailWhile isEnding (a ++ part ++ []) = a ++ part := by
      rw [dropTailWhile_append fun z hz => ?_, dropTailWhile_of_forall (by simp), List.append_nil]
      rw [hy] at hz
      obtain rfl := Option.some.inj hz
      exact hends.not_isEnding.1
    rw [List.append_nil] at hfirm
    rw [hfirm, hy]

theorem lacks_groupClause {ps : List Spaced} (hcols : ∀ col ∈ plainColumns ps, IsColumnItem col)
    (had : Bool) (d : Nat) : Lacks "FROM" d (ascii " " ++ (groupClause ps ++ semicolonIf had)) := by
  have hbytes : ∀ {v : Bytes}, (∀ b ∈ v, lowerByte b ≠ 102) → ∀ d, Lacks "FROM" d v :=
    fun h => lacks_of_forall_ne (by decide) h
  have hsemi : (semicolonIf had).head?.any isWord = false := by
    cases had <;> rfl
  rw [groupClause, List.append_assoc]
  refine (lacks_append isWord_from (Or.inl rfl)).2 ⟨hbytes (by decide) _, ?_⟩
  refine (lacks_append isWord_from (Or.inl rfl)).2 ⟨hbytes (by decide) _, ?_⟩
  refine (lacks_append isWord_from (Or.inr hsemi)).2 ⟨lacks_columns hcols _, hbytes ?_ _⟩
  cases had <;> decide

end SqlDialect
