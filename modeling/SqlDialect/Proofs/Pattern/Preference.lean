import SqlDialect.Proofs.Pattern.Complete
import SqlDialect.Proofs.Pattern.Context
import SqlDialect.Proofs.Pattern.Spelling

set_option autoImplicit false

/-! # Which match is found

Of the ways in which a pattern matches at a place, the matcher takes the first. So a part that may be
left out is left out only where the pattern does not match with it (`run_opt_cases`), and a keyword,
which takes the same text wherever it matches, leaves no choice. What a group has recorded in a match
tells which way was taken. -/

namespace SqlDialect

open Bytes

namespace Pattern

variable {p q : Pattern} {c c' r : Cursor}

/-! ## The first way -/

theorem leads_of_run (h : p.run c some = some r) : Leads p c r := by
  obtain ⟨c', hleads, hr⟩ := sound_run p _ _ _ h
  exact Option.some.inj hr ▸ hleads

theorem isSome_run (h : Leads p c c') : (p.run c some).isSome := by
  obtain ⟨t, ht⟩ := h.takes
  exact complete_run p c c' t h ht c some (.refl c) fun _ _ => rfl

theorem run_seq_some (h : (seq p q).run c some = some r) :
    ∃ c₁, Leads p c c₁ ∧ q.run c₁ some = some r :=
  sound_run p _ _ _ h

/-- A part that may be left out is left out only where the pattern does not match with it. -/
theorem run_opt_cases (h : (seq (opt p) q).run c some = some r) :
    (seq p q).run c some = some r ∨
      (∀ c', ¬ Leads (seq p q) c c') ∧ q.run c some = some r := by
  cases hrun : (seq p q).run c some with
  | some r' =>
    have hopt : (seq (opt p) q).run c some = some r' := run_opt_of_some hrun
    exact Or.inl (hopt.symm.trans h)
  | none =>
    have hopt : (seq (opt p) q).run c some = q.run c some := run_opt_of_none hrun
    refine Or.inr ⟨fun c' hleads => ?_, hopt.symm.trans h⟩
    have hsome := isSome_run hleads
    rw [hrun] at hsome
    cases hsome

/-- The match of a pattern, as the matcher leaves it. -/
theorem exists_run_of_matchHere? {prev : Option UInt8} {s : Bytes} {m : Match}
    (h : p.matchHere? prev s = some m) :
    ∃ r, p.run { prev, rest := s } some = some r ∧ Cursor.Takes { prev, rest := s } m.text r ∧
      m.before = [] ∧ m.after = r.rest := by
  obtain ⟨r, hr, rfl⟩ := Option.map_eq_some_iff.1 h
  obtain ⟨t, ht⟩ := (leads_of_run hr).takes
  have htaken : r.taken = t.length := ht.taken.trans (Nat.zero_add _)
  have htext : s.take r.taken = t := by
    rw [show s = t ++ r.rest from ht.rest, htaken, List.take_left]
  exact ⟨r, hr, by rw [htext]; exact ht, rfl, rfl⟩

/-! ## Keywords -/

theorem leads_keywords_of_mem {s : String} {ss : List String} (hs : s ∈ ss)
    (h : Leads (keyword s) c c') : Leads (keywords ss) c c' := by
  rw [keywords]
  induction ss with
  | nil => exact absurd hs List.not_mem_nil
  | cons first ss ih =>
    cases ss with
    | nil => exact List.mem_singleton.1 hs ▸ h
    | cons next ss =>
      rcases List.mem_cons.1 hs with rfl | hs
      · exact .altLeft h
      · exact .altRight (ih hs)

/-- Of several keywords the first is taken with which the pattern matches. -/
theorem run_keywords_cases {ss : List String} (hss : ss ≠ [])
    (h : (seq (keywords ss) q).run c some = some r) :
    ∃ l₁ s l₂, ss = l₁ ++ s :: l₂ ∧ Leads (seq (keyword s) q) c r ∧
      ∀ s' ∈ l₁, ∀ c', ¬ Leads (seq (keyword s') q) c c' := by
  induction ss with
  | nil => exact absurd rfl hss
  | cons s ss ih =>
    cases ss with
    | nil => exact ⟨[], s, [], rfl, leads_of_run h, fun _ hs => absurd hs List.not_mem_nil⟩
    | cons next ss =>
      cases hrun : (seq (keyword s) q).run c some with
      | some r' =>
        have hfirst : (seq (keywords (s :: next :: ss)) q).run c some = some r' :=
          run_alt_of_some hrun
        obtain rfl : r' = r := Option.some.inj (hfirst.symm.trans h)
        exact ⟨[], s, next :: ss, rfl, leads_of_run hrun, fun _ hs => absurd hs List.not_mem_nil⟩
      | none =>
        have hrest : (seq (keywords (s :: next :: ss)) q).run c some
            = (seq (keywords (next :: ss)) q).run c some := run_alt_of_none hrun
        obtain ⟨l₁, s', l₂, hsplit, hleads, hnot⟩ := ih (List.cons_ne_nil _ _) (hrest.symm.trans h)
        refine ⟨s :: l₁, s', l₂, by rw [hsplit]; rfl, hleads, List.forall_mem_cons.2 ⟨?_, hnot⟩⟩
        intro c' hleads'
        have hsome := isSome_run hleads'
        rw [hrun] at hsome
        cases hsome

/-- A keyword ends in one place only. -/
theorem leads_keyword_unique {s : String} (hs : ∀ ch ∈ s.toList, ch.toNat < 128) {c₁ c₂ : Cursor}
    (h₁ : Leads (keyword s) c c₁) (h₂ : Leads (keyword s) c c₂) : c₁.SamePlace c₂ := by
  obtain ⟨t₁, ht₁, -, hrun₁⟩ := leads_keyword_spells hs h₁
  obtain ⟨t₂, ht₂, -, hrun₂⟩ := leads_keyword_spells hs h₂
  have hsame := (hrun₁ some c _ ht₁.rest).symm.trans (hrun₂ some c _ ht₂.rest)
  rw [Option.some.injEq] at hsame
  exact ⟨(congrArg Cursor.rest hsame).symm,
    ht₂.prev.trans ((congrArg Cursor.prev hsame).symm.trans ht₁.prev.symm)⟩

/-- Two keywords with different first letters do not start in the same place. -/
theorem not_leads_keyword_of_head {s s' : String} (hs : ∀ ch ∈ s.toList, ch.toNat < 128)
    (hs' : ∀ ch ∈ s'.toList, ch.toNat < 128) (hhead : AsciiHead s)
    (hne : ∀ ch ∈ s.toList.head?, ∀ ch' ∈ s'.toList.head?,
      lowerByte (charByte ch) ≠ lowerByte (charByte ch')) {c₁ c₂ : Cursor}
    (h : Leads (keyword s) c c₁) : s' ≠ "" → ¬ Leads (keyword s') c c₂ := by
  intro hnil h'
  obtain ⟨x, u, hx, hascii⟩ := leads_keyword_head hhead h
  obtain ⟨t, ht, hspells, -⟩ := leads_keyword_spells hs h
  obtain ⟨t', ht', hspells', -⟩ := leads_keyword_spells hs' h'
  have hfirst : ∀ {t : Bytes} {cs : List Char}, Spells cs t → cs ≠ [] → ∀ {d : Cursor},
      c.Takes t d → t.head? = some x := by
    intro t cs hspells hcs d htakes
    obtain ⟨y, v, rfl⟩ := List.exists_cons_of_ne_nil (hspells.ne_nil hcs)
    have hall := hx.symm.trans htakes.rest
    rw [List.cons_append] at hall
    rw [List.head?_cons, (List.cons.inj hall).1]
  have hne₁ : s.toList ≠ [] := by
    rintro hempty
    obtain ⟨ch, hch, -⟩ := hhead
    rw [hempty] at hch
    cases hch
  have hne₂ : s'.toList ≠ [] := by simpa using hnil
  obtain ⟨ch, hch, heq⟩ := hspells.head (hfirst hspells hne₁ ht) hascii
  obtain ⟨ch', hch', heq'⟩ := hspells'.head (hfirst hspells' hne₂ ht') hascii
  exact hne ch hch ch' hch' (heq.symm.trans heq')

/-! ## What groups tell -/

/-- A pattern leaves what is recorded under numbers that it has no groups for. -/
theorem Leads.find?_groups (h : Leads p c c') {n : Nat} (hp : p.recordedAs n = []) :
    c'.groups.find? (·.number == n) = c.groups.find? (·.number == n) := by
  induction h with
  | nothing | wordEdge | textStart | textEnd | manyNone | lazyNone => rfl
  | one hnext _ =>
    obtain ⟨_, _, _, hgroups, _⟩ := Cursor.takes_of_next? hnext
    rw [hgroups]
  | seq _ _ ihp ihq =>
    rw [recordedAs, List.append_eq_nil_iff] at hp
    rw [ihq hp.2, ihp hp.1]
  | altLeft _ ih =>
    rw [recordedAs, List.append_eq_nil_iff] at hp
    exact ih hp.1
  | altRight _ ih =>
    rw [recordedAs, List.append_eq_nil_iff] at hp
    exact ih hp.2
  | manyMore _ _ ihp ihrest | lazyMore _ _ ihp ihrest => rw [ihrest hp, ihp hp]
  | @group i q c c' _ ih =>
    rw [recordedAs] at hp
    split at hp
    · cases hp
    · rename_i hne
      rw [Cursor.record, List.find?_cons_of_neg (by simpa using hne), ih hp]

/-- A pattern for the beginning of the text is tried there only. -/
theorem find?_textStart (q : Pattern) (s : Bytes) :
    (seq textStart q).find? s = (seq textStart q).matchHere? none s := by
  cases s with
  | nil => rfl
  | cons b s =>
    rw [find?, findFrom?, findFrom?_textStart]
    cases (seq textStart q).matchHere? none (b :: s) <;> rfl

theorem occursIn_textStart {q : Pattern} {s : Bytes} :
    (seq textStart q).occursIn s = true ↔ ∃ c', Leads q { prev := none, rest := s } c' := by
  rw [occursIn, find?_textStart, isSome_matchHere?_iff]
  constructor
  · rintro ⟨c', h⟩
    obtain ⟨c₁, hstart, hleads⟩ := leads_seq.1 h
    cases hstart with
    | textStart _ => exact ⟨c', hleads⟩
  · rintro ⟨c', h⟩
    exact ⟨c', .seq (.textStart rfl) h⟩

/-- The text of a group is that of its latest record. -/
theorem lookup_recorded (s : Bytes) (gs : List Recorded) (n : Nat) :
    (gs.map fun g => (g.number, g.text s)).lookup n
      = (gs.find? (·.number == n)).map (·.text s) := by
  induction gs with
  | nil => rfl
  | cons g gs ih =>
    have hcomm : (n == g.number) = (g.number == n) := BEq.comm
    rw [List.map_cons, List.lookup_cons, List.find?_cons, hcomm, ih]
    cases g.number == n <;> rfl

/-- The match of a pattern for the beginning of the text, as the matcher leaves it. -/
theorem exists_run_of_textStart {q : Pattern} {s : Bytes} {m : Match}
    (h : (seq textStart q).find? s = some m) :
    ∃ r, q.run { prev := none, rest := s } some = some r ∧ m.after = r.rest ∧
      ∀ n, m.group? n = (r.groups.find? (·.number == n)).map (·.text s) := by
  rw [find?_textStart, matchHere?, Option.map_eq_some_iff] at h
  obtain ⟨r, hr, rfl⟩ := h
  exact ⟨r, hr, rfl, lookup_recorded s r.groups⟩

/-- A group that a match runs through holds what its pattern takes. -/
theorem leads_of_group {l r : List Pattern} {q : Pattern} {n skip : Nat} {prev : Option UInt8}
    {s : Bytes} {m : Match} (h : (seqs (l ++ group n q :: r)).findFrom? skip prev s = some m)
    (hr : (seqs r).recordedAs n = []) :
    ∃ c₁ c₂ c' u v, m.text = u ++ m.group n ++ v ∧
      Leads (seqs l) { prev := m.before.getLast?.or prev, rest := m.text ++ m.after } c₁ ∧
      Cursor.Takes { prev := m.before.getLast?.or prev, rest := m.text ++ m.after } u c₁ ∧
      Leads q c₁ c₂ ∧ c₁.Takes (m.group n) c₂ ∧ Leads (seqs r) (c₂.record n c₁) c' ∧
      c₂.rest = v ++ m.after := by
  obtain ⟨c', hplaces, hgroups⟩ := places_of_findFrom? h
  obtain ⟨c₁, hl, hrest⟩ := (leads_seqs_append l _).1 hplaces.leads
  obtain ⟨c₃, hgroup, htail⟩ := leads_seqs_cons.1 hrest
  obtain ⟨c₂, hq, rfl⟩ := leads_group.1 hgroup
  obtain ⟨u, hu⟩ := hl.takes
  obtain ⟨t, ht⟩ := hq.takes
  obtain ⟨v, hv⟩ := htail.takes
  have hlast : m.group n = t := by
    rw [Match.group, Match.group?, hgroups, lookup_recorded, htail.find?_groups hr, Cursor.record,
      List.find?_cons_of_pos (by simp)]
    exact text_recorded rfl hu ht n
  refine ⟨c₁, c₂, c', u, v, ?_, hl, hu, hq, hlast ▸ ht, htail, ?_⟩
  · rw [hlast]
    exact hplaces.takes.unique ((hu.trans (ht.record n c₁)).trans hv)
  · rw [hplaces.after]
    exact hv.rest

end Pattern

end SqlDialect
