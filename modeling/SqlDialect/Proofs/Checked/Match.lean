import SqlDialect.Proofs.Checked.Access
import SqlDialect.Proofs.Pattern.Barrier
import SqlDialect.Proofs.Pattern.Preference
import SqlDialect.Statement.Clause

set_option autoImplicit false

/-! # Matches by place

A search gives the texts of the groups as a list, or the places where they start and end. The text
between the two places of a group is what the group recorded; a group that took no part has none.
The match of a pattern for the head of a call ends with a parenthesis, which is then matched with
its partner. A match that ends with the first closing parenthesis is found again in its own text.
What stands behind the start of a text may be looked for there or as if the text started behind it.
-/

namespace SqlDialect

namespace Pattern

/-- The highest number of a group of the pattern. -/
def groupCount : Pattern → Nat
  | seq p q => max p.groupCount q.groupCount
  | alt p q => max p.groupCount q.groupCount
  | many p => p.groupCount
  | manyLazy p => p.groupCount
  | group n p => max n p.groupCount
  | _ => 0

/-! ## Texts -/

/-- The text of a match and of each of its groups. -/
def submatches (p : Pattern) (m : Match) : List Bytes :=
  m.text :: (List.range p.groupCount).map fun n => m.group (n + 1)

theorem submatch_ok {p : Pattern} {n : Nat} (hpos : 0 < n) (hn : n ≤ p.groupCount) (m : Match) :
    elementAt (p.submatches m) n = .ok (m.group n) := by
  obtain ⟨k, rfl⟩ := Nat.exists_eq_succ_of_ne_zero (Nat.pos_iff_ne_zero.1 hpos)
  refine elementAt_of_getElem? ?_
  rw [submatches, List.getElem?_cons_succ, List.getElem?_map, List.getElem?_range hn,
    Option.map_some]

/-! ## Places -/

/-- Where a group starts and ends, from what has been recorded since a place; -1 for a group that
took no part. -/
def groupPlaces (start : Nat) (gs : List Recorded) (n : Nat) : List Int :=
  match gs.find? (·.number == n) with
  | some g => [((start + g.start : Nat) : Int), ((start + g.start + g.length : Nat) : Int)]
  | none => [-1, -1]

/-- Where a match starts and ends, and then the same of each group. -/
def placesOf (p : Pattern) (m : Match) (gs : List Recorded) : List Int :=
  [(m.before.length : Int), ((m.before.length + m.text.length : Nat) : Int)] ++
    (List.range p.groupCount).flatMap fun n => groupPlaces m.before.length gs (n + 1)

/-- Where the first match and its groups start and end. -/
def locate? (p : Pattern) (s : Bytes) : Option (List Int) := do
  let m ← p.find? s
  let c ← p.run { prev := m.before.getLast?, rest := m.text ++ m.after } some
  return p.placesOf m c.groups

/-- Where a group starts; the match is group 0. -/
def groupStart (places : List Int) (n : Nat) : Except Fault Int :=
  elementAt places ((2 * n : Nat) : Int)

/-- Where a group ends; the match is group 0. -/
def groupEnd (places : List Int) (n : Nat) : Except Fault Int :=
  elementAt places ((2 * n + 1 : Nat) : Int)

/-- The places are those of a match and of its groups. -/
structure Located (p : Pattern) (s : Bytes) (m : Match) (places : List Int) : Prop where
  matchStart : groupStart places 0 = .ok (m.before.length : Int)
  matchEnd : groupEnd places 0 = .ok ((m.before.length + m.text.length : Nat) : Int)
  absent : ∀ n, 0 < n → n ≤ p.groupCount → m.group? n = none →
    groupStart places n = .ok (-1) ∧ groupEnd places n = .ok (-1)
  present : ∀ n, 0 < n → n ≤ p.groupCount → ∀ t, m.group? n = some t →
    ∃ a b, s = a ++ t ++ b ∧ groupStart places n = .ok (a.length : Int) ∧
      groupEnd places n = .ok ((a.length + t.length : Nat) : Int)

theorem length_groupPlaces (start : Nat) (gs : List Recorded) (n : Nat) :
    (groupPlaces start gs n).length = 2 := by
  rw [groupPlaces]
  split <;> rfl

/-- Pairs that follow each other are found at even places. -/
theorem getElem?_flatMap_pairs (f : Nat → List Int) (hf : ∀ n, (f n).length = 2) {k n : Nat}
    (hn : n < k) (i : Nat) (hi : i < 2) :
    ((List.range k).flatMap f)[2 * n + i]? = (f n)[i]? := by
  have hlen : ∀ k, ((List.range k).flatMap f).length = 2 * k := by
    intro k
    induction k with
    | zero => rfl
    | succ k ih =>
      rw [List.range_succ, List.flatMap_append, List.flatMap_singleton, List.length_append, ih, hf,
        Nat.mul_succ]
  induction k with
  | zero => exact absurd hn (Nat.not_lt_zero n)
  | succ k ih =>
    rw [List.range_succ, List.flatMap_append, List.flatMap_singleton]
    rcases Nat.lt_succ_iff_lt_or_eq.1 hn with hlt | rfl
    · rw [List.getElem?_append_left (by rw [hlen]; omega), ih hlt]
    · rw [List.getElem?_append_right (by rw [hlen]; omega), hlen, Nat.add_sub_cancel_left]

/-- The places of a group are found at its number. -/
theorem elementAt_placesOf (p : Pattern) (m : Match) (gs : List Recorded) {n i : Nat} (hpos : 0 < n)
    (hn : n ≤ p.groupCount) (hi : i < 2) :
    elementAt (p.placesOf m gs) ((2 * n + i : Nat) : Int)
      = elementAt (groupPlaces m.before.length gs n) (i : Int) := by
  obtain ⟨k, rfl⟩ := Nat.exists_eq_succ_of_ne_zero (Nat.pos_iff_ne_zero.1 hpos)
  have hpair := getElem?_flatMap_pairs (fun n => groupPlaces m.before.length gs (n + 1))
    (fun _ => length_groupPlaces _ _ _) hn i hi
  have hlt : i < (groupPlaces m.before.length gs (k + 1)).length := by
    rwa [length_groupPlaces]
  have hsome := List.getElem?_eq_getElem hlt
  have hshift : 2 * (k + 1) + i - 2 = 2 * k + i := by omega
  rw [elementAt_of_getElem? hsome]
  refine elementAt_of_getElem? ?_
  rw [placesOf,
    List.getElem?_append_right (Nat.le_add_right_of_le (Nat.le_mul_of_pos_right 2 hpos)),
    List.length_cons, List.length_singleton, hshift, hpair, hsome]

/-- What a group recorded lies where the record says. -/
theorem exists_group_cut {p : Pattern} {s : Bytes} {m : Match} {c c' : Cursor} {g : Recorded}
    (hs : s = m.before ++ (m.text ++ m.after)) (hc : c.rest = m.text ++ m.after)
    (htaken : c.taken = 0) (hgroups : c.groups = []) (h : Leads p c c') (hg : g ∈ c'.groups) :
    ∃ a b, s = a ++ g.text (m.text ++ m.after) ++ b ∧ a.length = m.before.length + g.start ∧
      (g.text (m.text ++ m.after)).length = g.length := by
  rcases h.recorded g hg with hold | ⟨q, -, u, c₁, c₂, hu, hq, hrecord⟩
  · rw [hgroups] at hold
    cases hold
  · obtain ⟨t, ht⟩ := hq.takes
    have htext : g.text (m.text ++ m.after) = t := by
      rw [hrecord, ← hc]
      exact text_recorded htaken hu ht g.number
    have hstart : g.start = u.length := by
      rw [hrecord]
      exact hu.taken.trans (by rw [htaken, Nat.zero_add])
    have hlength : g.length = t.length := by
      rw [hrecord]
      exact (congrArg (· - c₁.taken) ht.taken).trans (Nat.add_sub_cancel_left _ _)
    refine ⟨m.before ++ u, c₂.rest, ?_, ?_, ?_⟩
    · rw [htext, hs, ← hc, hu.rest, ht.rest]
      simp only [List.append_assoc]
    · rw [List.length_append, hstart]
    · rw [htext, hlength]

/-- The places of the first match, from what its groups recorded. -/
theorem exists_locate? {p : Pattern} {s : Bytes} {m : Match} (h : p.find? s = some m) :
    ∃ c, Leads p { prev := m.before.getLast?, rest := m.text ++ m.after } c ∧
      m.groups = (c.groups.map fun g => (g.number, g.text (m.text ++ m.after))) ∧
      p.locate? s = some (p.placesOf m c.groups) := by
  have hhere := matchHere?_of_findFrom? h
  rw [Option.or_none, matchHere?, Option.map_eq_some_iff] at hhere
  obtain ⟨c, hrun, hm⟩ := hhere
  refine ⟨c, leads_of_run hrun, (congrArg Match.groups hm).symm, ?_⟩
  rw [locate?, h]
  simp only [Option.bind_eq_bind, Option.bind_some, hrun, Option.pure_def]

theorem locate?_of_find? {p : Pattern} {s : Bytes} {m : Match} (h : p.find? s = some m) :
    ∃ places, p.locate? s = some places ∧ p.Located s m places := by
  obtain ⟨c, hleads, hgroups, hplaces⟩ := exists_locate? h
  have hgroup : ∀ n, m.group? n
      = (c.groups.find? (·.number == n)).map (·.text (m.text ++ m.after)) := by
    intro n
    rw [Match.group?, hgroups]
    exact lookup_recorded _ _ n
  refine ⟨p.placesOf m c.groups, hplaces, rfl, rfl, ?_, ?_⟩
  · intro n hpos hn hnone
    have hfind : c.groups.find? (·.number == n) = none :=
      Option.map_eq_none_iff.1 ((hgroup n).symm.trans hnone)
    have hlow := p.elementAt_placesOf m c.groups hpos hn (i := 0) (by decide)
    have hhigh := p.elementAt_placesOf m c.groups hpos hn (i := 1) (by decide)
    rw [groupPlaces, hfind] at hlow hhigh
    exact ⟨hlow, hhigh⟩
  · intro n hpos hn t ht
    obtain ⟨g, hfind, hg⟩ := Option.map_eq_some_iff.1 ((hgroup n).symm.trans ht)
    have hlow := p.elementAt_placesOf m c.groups hpos hn (i := 0) (by decide)
    have hhigh := p.elementAt_placesOf m c.groups hpos hn (i := 1) (by decide)
    rw [groupPlaces, hfind] at hlow hhigh
    have hs : s = m.before ++ (m.text ++ m.after) := by
      rw [← List.append_assoc]
      exact (text_of_find? h).symm
    obtain ⟨a, b, hcut, ha, hlen⟩ := exists_group_cut hs rfl rfl rfl hleads
      (List.mem_of_find?_eq_some hfind)
    rw [hg] at hcut hlen
    refine ⟨a, b, hcut, hlow.trans ?_, hhigh.trans ?_⟩
    · rw [ha]
      rfl
    · rw [ha, hlen]
      rfl

theorem locate?_of_none {p : Pattern} {s : Bytes} (h : p.find? s = none) : p.locate? s = none := by
  rw [locate?, h]
  rfl

/-! ## Groups that always take part -/

/-- Whether every match of the pattern records the group. -/
def records (n : Nat) : Pattern → Bool
  | seq p q => p.records n || q.records n
  | alt p q => p.records n && q.records n
  | group i p => i == n || p.records n
  | _ => false

/-- What has been recorded under a number stays recorded, if only under later records. -/
theorem Leads.isSome_find?_groups {p : Pattern} {c c' : Cursor} (h : Leads p c c') {n : Nat}
    (hc : (c.groups.find? (·.number == n)).isSome ∨ p.records n = true) :
    (c'.groups.find? (·.number == n)).isSome := by
  induction h with
  | nothing | wordEdge | textStart | textEnd | manyNone | lazyNone =>
    exact hc.resolve_right Bool.false_ne_true
  | one hnext _ =>
    obtain ⟨_, _, _, hgroups, _⟩ := Cursor.takes_of_next? hnext
    rw [hgroups]
    exact hc.resolve_right Bool.false_ne_true
  | seq _ _ ihp ihq =>
    rw [records, Bool.or_eq_true] at hc
    rcases hc with hc | hp | hq
    · exact ihq (Or.inl (ihp (Or.inl hc)))
    · exact ihq (Or.inl (ihp (Or.inr hp)))
    · exact ihq (Or.inr hq)
  | altLeft _ ih =>
    rw [records, Bool.and_eq_true] at hc
    exact ih (hc.imp_right And.left)
  | altRight _ ih =>
    rw [records, Bool.and_eq_true] at hc
    exact ih (hc.imp_right And.right)
  | manyMore _ _ ihp ihrest | lazyMore _ _ ihp ihrest =>
    exact ihrest (Or.inl (ihp (Or.inl (hc.resolve_right Bool.false_ne_true))))
  | @group i q c c' _ ih =>
    rw [records, Bool.or_eq_true] at hc
    rw [Cursor.record, List.find?_cons]
    cases hnumber : i == n with
    | true => rfl
    | false =>
      rw [hnumber] at hc
      exact ih (hc.imp_right (Or.resolve_left · Bool.false_ne_true))

theorem group?_of_records {p : Pattern} {n : Nat} (hp : p.records n = true) {s : Bytes} {m : Match}
    (h : p.find? s = some m) : m.group? n = some (m.group n) := by
  obtain ⟨c, hplaces, hgroups⟩ := places_of_findFrom? h
  have hsome : (m.group? n).isSome := by
    rw [Match.group?, hgroups, lookup_recorded, Option.isSome_map]
    exact hplaces.leads.isSome_find?_groups (Or.inr hp)
  obtain ⟨t, ht⟩ := Option.isSome_iff_exists.1 hsome
  rw [Match.group, ht, Option.getD_some]

/-- The places of a group that always takes part. -/
theorem Located.group {p : Pattern} {s : Bytes} {m : Match} {places : List Int}
    (h : p.Located s m places) (hm : p.find? s = some m) {n : Nat} (hp : p.records n = true)
    (hpos : 0 < n) (hn : n ≤ p.groupCount) :
    ∃ low high, groupStart places n = .ok low ∧ groupEnd places n = .ok high ∧
      slice s low high = .ok (m.group n) := by
  obtain ⟨a, b, hs, hlow, hhigh⟩ := h.present n hpos hn _ (group?_of_records hp hm)
  exact ⟨_, _, hlow, hhigh, slice_eq hs rfl (Int.natCast_add _ _)⟩

/-- What a group recorded, cut out if the group took part. -/
def groupIfAny (s : Bytes) (places : List Int) (n : Nat) : Except Fault Bytes := do
  let low ← groupStart places n
  if 0 ≤ low then
    let high ← groupEnd places n
    slice s low high
  else return []

/-- A group took part exactly if it starts at a place of the text. -/
theorem Located.exists_groupStart {p : Pattern} {s : Bytes} {m : Match} {places : List Int}
    (h : p.Located s m places) {n : Nat} (hpos : 0 < n) (hn : n ≤ p.groupCount) :
    ∃ low, groupStart places n = .ok low ∧ (0 ≤ low ↔ (m.group? n).isSome = true) := by
  cases hgroup : m.group? n with
  | none => exact ⟨-1, (h.absent n hpos hn hgroup).1, by decide⟩
  | some t =>
    obtain ⟨a, b, -, hlow, -⟩ := h.present n hpos hn t hgroup
    exact ⟨a.length, hlow, iff_of_true (Int.natCast_nonneg _) rfl⟩

theorem Located.groupIfAny {p : Pattern} {s : Bytes} {m : Match} {places : List Int}
    (h : p.Located s m places) {n : Nat} (hpos : 0 < n) (hn : n ≤ p.groupCount) :
    groupIfAny s places n = .ok (m.group n) := by
  rw [Pattern.groupIfAny, Match.group]
  cases hgroup : m.group? n with
  | none =>
    rw [(h.absent n hpos hn hgroup).1]
    rfl
  | some t =>
    obtain ⟨a, b, hs, hlow, hhigh⟩ := h.present n hpos hn t hgroup
    rw [hlow, ok_bind, if_pos (Int.natCast_nonneg _), hhigh, ok_bind]
    exact slice_eq hs rfl (Int.natCast_add _ _)

/-! ## Heads of calls -/

/-- Every match of the pattern ends with an opening parenthesis. -/
def OpensCall (p : Pattern) : Prop :=
  ∀ (c c' : Cursor) (t : Bytes), Leads p c c' → c.Takes t c' → ∃ u, t = u ++ [openParen]

theorem exists_append_text {ps : List Pattern} {s : String} (hs : ∀ ch ∈ s.toList, ch.toNat < 128)
    {c c' : Cursor} {t : Bytes} (h : Leads (seqs (ps ++ [text s])) c c') (ht : c.Takes t c') :
    ∃ u, t = u ++ ascii s := by
  obtain ⟨c₁, hlead, hend⟩ := (leads_seqs_append ps _).1 h
  obtain ⟨c₂, htext, hnil⟩ := leads_seqs_cons.1 hend
  obtain rfl := leads_nothing.1 hnil
  obtain ⟨u, hu⟩ := hlead.takes
  exact ⟨u, ht.unique (hu.trans (leads_text hs htext))⟩

/-- Whether the pattern ends with an opening parenthesis. -/
def endsCall : Pattern → Bool
  | one set => set == CharSet.exactly '('
  | seq p nothing => p.endsCall
  | seq _ q => q.endsCall
  | _ => false

theorem opensCall_of_endsCall {p : Pattern} (hp : p.endsCall = true) : p.OpensCall := by
  intro c c' t h ht
  fun_induction endsCall p generalizing c t with
  | case1 set =>
    obtain rfl := beq_iff_eq.1 hp
    exact ⟨[], ht.unique (leads_exactly (by decide) h)⟩
  | case2 p ih =>
    obtain ⟨c₁, hlead, hnil⟩ := leads_seq.1 h
    obtain rfl := leads_nothing.1 hnil
    exact ih hp c t hlead ht
  | case3 p q _ ih =>
    obtain ⟨c₁, hlead, hend⟩ := leads_seq.1 h
    obtain ⟨u, hu⟩ := hlead.takes
    obtain ⟨v, hv⟩ := hend.takes
    obtain ⟨w, rfl⟩ := ih hp c₁ v hend hv
    exact ⟨u ++ w, by rw [ht.unique (hu.trans hv), List.append_assoc]⟩
  | case4 => exact absurd hp Bool.false_ne_true

theorem OpensCall.exists_text {p : Pattern} (hp : p.OpensCall) {s : Bytes} {m : Match}
    (h : p.find? s = some m) : ∃ u, m.text = u ++ [openParen] := by
  obtain ⟨c', hplaces, -⟩ := places_of_findFrom? h
  exact hp _ _ _ hplaces.leads hplaces.takes

/-- The place of the parenthesis with which a match ends. -/
theorem OpensCall.cut {p : Pattern} (hp : p.OpensCall) {s : Bytes} {m : Match}
    (h : p.find? s = some m) :
    ∃ a, s = a ++ openParen :: m.after ∧
      ((m.before.length + m.text.length : Nat) : Int) - 1 = a.length := by
  obtain ⟨u, hu⟩ := hp.exists_text h
  refine ⟨m.before ++ u, ?_, ?_⟩
  · rw [← text_of_find? h, hu]
    simp
  · rw [hu]
    simp only [List.length_append, List.length_singleton]
    omega

/-! ## Matches in their own text -/

theorem run_seqs_append {α : Type} (ps qs : List Pattern) (c : Cursor) (k : Cursor → Option α) :
    (seqs (ps ++ qs)).run c k = (seqs ps).run c fun c' => (seqs qs).run c' k := by
  induction ps generalizing c with
  | nil => rfl
  | cons p ps ih =>
    have hrest : (fun c' => (seqs (ps ++ qs)).run c' k)
        = fun c' => (seqs ps).run c' fun c'' => (seqs qs).run c'' k := funext ih
    exact congrArg (p.run c) hrest

/-- Every one of all matches is the first one behind the one before. -/
theorem exists_findFrom?_of_mem_all {p : Pattern} {s : Bytes} {m : Match} (h : m ∈ p.all s) :
    ∃ prev t, p.findFrom? 0 prev t = some m := by
  rw [all] at h
  generalize (none : Option UInt8) = prev at h
  fun_induction allFrom p prev s with
  | case1 => exact absurd h List.not_mem_nil
  | case2 prev s first hfirst _ ih =>
    rcases List.mem_cons.1 h with rfl | hrest
    · exact ⟨prev, s, hfirst⟩
    · exact ih hrest
  | case3 => exact absurd h List.not_mem_nil

/-- What is recorded behind a closing parenthesis does not depend on what follows it. -/
theorem rel_run_close {x y : Bytes} {n : Nat} {c d : Cursor} (h : c.SameUpTo closeParen x y n d) :
    Option.Rel (fun c d : Cursor => d.taken = c.taken ∧ d.groups = c.groups)
      ((seqs [text ")"]).run c some) ((seqs [text ")"]).run d some) := by
  have hrun : ∀ c : Cursor, (seqs [text ")"]).run c some
      = c.next?.bind fun p => if (CharSet.exactly ')').contains p.1 then some p.2 else none := by
    intro c
    change (Pattern.one (CharSet.exactly ')')).run c some = _
    rw [Pattern.run]
    cases c.next? <;> rfl
  rw [hrun, hrun]
  rcases h.next? (by decide) with ⟨c', d', hc, hd⟩ | ⟨code, c', d', hc, hd, h'⟩
  · have hone : ∀ c c' : Cursor, c.next? = some (closeParen.toNat, c') →
        c'.taken = c.taken + 1 ∧ c'.groups = c.groups := by
      intro c c' hnext
      obtain ⟨b, t, htakes, hgroups, ⟨-, rfl, -⟩ | ⟨-, -, hlarge⟩⟩ := Cursor.takes_of_next? hnext
      · exact ⟨htakes.taken, hgroups⟩
      · exact absurd hlarge (by decide)
    obtain ⟨hctaken, hcgroups⟩ := hone c c' hc
    obtain ⟨hdtaken, hdgroups⟩ := hone d d' hd
    rw [hc, hd]
    exact .some ⟨by rw [hdtaken, hctaken, h.taken], by rw [hdgroups, hcgroups, h.groups]⟩
  · rw [hc, hd]
    dsimp only [Option.bind_some]
    split
    · exact .some ⟨h'.taken, h'.groups⟩
    · exact .none

/-- What a group recorded is the same in a longer text. -/
theorem text_append_of_leads {p : Pattern} {prev : Option UInt8} {t : Bytes} {c : Cursor}
    (h : Leads p { prev := prev, rest := t } c) {g : Recorded} (hg : g ∈ c.groups) (r : Bytes) :
    g.text (t ++ r) = g.text t := by
  obtain ⟨a, b, hcut, ha, hlen⟩ := exists_group_cut (m := ⟨[], t, [], []⟩)
    (List.append_nil t).symm (List.append_nil t).symm rfl rfl h hg
  rw [List.append_nil] at hcut hlen
  have htext : ∀ v, Recorded.text g (a ++ g.text t ++ b ++ v) = g.text t := by
    intro v
    rw [Recorded.text, List.append_assoc, List.append_assoc,
      List.drop_left' (ha.trans (Nat.zero_add _)), List.take_left' hlen]
  have h := htext r
  rwa [← hcut] at h

/-- A match that ends with the first closing parenthesis is a match of what it covers alone. -/
theorem matchHere?_text {ps : List Pattern} (hps : (seqs ps).avoids [closeParen] = true)
    {prev : Option UInt8} {s : Bytes} {m : Match}
    (h : (seqs (ps ++ [text ")"])).matchHere? prev s = some m) :
    (seqs (ps ++ [text ")"])).matchHere? prev m.text = some { m with after := [] } := by
  obtain ⟨c, hrun, rfl⟩ := Option.map_eq_some_iff.1 h
  have hleads := leads_of_run hrun
  obtain ⟨t, htakes⟩ := hleads.takes
  have hs : s = t ++ c.rest := htakes.rest
  have hlen : c.taken = t.length := htakes.taken.trans (Nat.zero_add _)
  obtain ⟨u, hu⟩ : ∃ u, t = u ++ [closeParen] := exists_append_text (by decide) hleads htakes
  have htext : s.take c.taken = t := by rw [hs, hlen, List.take_left' rfl]
  -- the two texts are the same up to the parenthesis
  have hsame : Cursor.SameUpTo closeParen c.rest [] u.length { prev := prev, rest := s }
      { prev := prev, rest := t } :=
    ⟨⟨u, by rw [hs, hu, List.append_assoc]; rfl, hu, Nat.zero_add _⟩, rfl, rfl, rfl⟩
  have hrel := barrierStep_run (by decide) hps _ _ _ _ hsame fun _ _ => rel_run_close
  rw [← run_seqs_append, ← run_seqs_append, hrun] at hrel
  generalize hagain : (seqs (ps ++ [text ")"])).run { prev := prev, rest := t } some = o at hrel
  cases hrel with
  | @some _ d hcd =>
    have hleads' := leads_of_run hagain
    obtain ⟨v, hv⟩ := hleads'.takes
    have hdrest : d.rest = [] := by
      have hlen' : d.taken = v.length := hv.taken.trans (Nat.zero_add _)
      have htotal := congrArg List.length (show t = v ++ d.rest from hv.rest)
      rw [List.length_append, ← hlen', hcd.1, hlen] at htotal
      exact List.length_eq_zero_iff.1 (by omega)
    have hgroups : d.groups.map (fun g => (g.number, g.text t))
        = c.groups.map fun g => (g.number, g.text s) := by
      rw [← hcd.2]
      refine List.map_congr_left fun g hg => ?_
      rw [hs, text_append_of_leads hleads' hg]
    rw [htext, matchHere?, hagain, Option.map_some, hcd.1, hlen, List.take_length, hdrest, hgroups]

/-- It is found again where it is looked for in what it covers. -/
theorem find?_text {ps : List Pattern} (hps : (seqs ps).avoids [closeParen] = true)
    (hfree : (seqs (ps ++ [text ")"])).startFree = true)
    (hstart : (seqs (ps ++ [text ")"])).StartsOutside) {skip : Nat} {prev : Option UInt8}
    {s : Bytes} {m : Match} (h : (seqs (ps ++ [text ")"])).findFrom? skip prev s = some m) :
    (seqs (ps ++ [text ")"])).find? m.text = some { m with before := [], after := [] } := by
  have hhere := matchHere?_text hps (matchHere?_of_findFrom? h)
  obtain ⟨c, hplaces, -⟩ := places_of_findFrom? h
  have hedge : (none : Option UInt8).any Bytes.isWord
      = (m.before.getLast?.or prev).any Bytes.isWord :=
    (hstart _ _ hplaces.leads).symm
  rw [← matchHere?_congr hfree hedge] at hhere
  exact findFrom?_of_matchHere? hhere

/-! ## Matches at the start -/

/-- A pattern that asks for the start of the text is erased there, if it matches. -/
theorem erase_textStart {ps : List Pattern} (hps : (seqs (textStart :: ps)).Consumes) (s : Bytes) :
    (seqs (textStart :: ps)).erase s
      = (((seqs (textStart :: ps)).find? s).map Match.after).getD s := by
  rw [erase, Pattern.replace, replaceWith, all]
  cases hm : (seqs (textStart :: ps)).find? s with
  | none =>
    rw [find?] at hm
    rw [allFrom, hm]
    rfl
  | some m =>
    -- behind a match the text has started, so there is no other
    obtain ⟨c, hplaces, -⟩ := places_of_findFrom? hm
    obtain ⟨x, hx⟩ : ∃ x, m.text.getLast? = some x :=
      ⟨_, List.getLast?_eq_some_getLast (hplaces.text_ne_nil hps)⟩
    have hnone : (seqs (textStart :: ps)).allFrom m.text.getLast? m.after = [] := by
      rw [hx, allFrom, seqs, List.foldr_cons, findFrom?_textStart]
    rw [allFrom_of_findFrom? hm (hps.after_lt hm), hnone, List.flatMap_singleton, before_eq_nil hm]
    rfl

/-- What follows goes on from where the pattern alone matches, if it finds something everywhere. -/
theorem exists_run_of_total {p : Pattern} (hp : p.startFree = true) {prev : Option UInt8} {s : Bytes}
    {r : Cursor} (h : p.run { prev := prev, rest := s } some = some r) {k : Cursor → Option Cursor}
    (hk : ∀ d, (k d).isSome) :
    ∃ d, r.SameAhead 0 d ∧ p.run { prev := prev, rest := s } k = k d := by
  have hsame : Cursor.SameAhead 0 { prev := prev, rest := s } { prev := prev, rest := s } :=
    ⟨rfl, rfl, rfl, rfl⟩
  have hrel := rel_run (R := fun c a => ∃ d, c.SameAhead 0 d ∧ k d = some a) hp _ _ some k hsame
    fun c' d' h' => by
      obtain ⟨a, ha⟩ := Option.isSome_iff_exists.1 (hk d')
      rw [ha]
      exact .some ⟨d', h', ha⟩
  rw [h] at hrel
  generalize p.run { prev := prev, rest := s } k = o at hrel
  cases hrel with
  | some hd =>
    obtain ⟨d, hrd, hd⟩ := hd
    exact ⟨d, hrd, hd.symm⟩

end Pattern

end SqlDialect
