import SqlDialect.Proofs.Pattern.Keyword

set_option autoImplicit false

/-! # Where matches start and end

What the shape of a pattern says about the places between which it matches: whether it takes
anything, whether it can end inside a word or start there, and what its groups record. -/

namespace SqlDialect

open Bytes

namespace Pattern

/-! ## Matches in their place -/

/-- The pattern takes at least one byte. -/
def Consumes (p : Pattern) : Prop :=
  ∀ c c' : Cursor, Leads p c c' → c.taken < c'.taken

/-- The pattern matches where the match says, in a text behind the byte `prev`. -/
structure Places (p : Pattern) (prev : Option UInt8) (m : Match) (c' : Cursor) : Prop where
  leads : Leads p { prev := m.before.getLast?.or prev, rest := m.text ++ m.after } c'
  takes : Cursor.Takes { prev := m.before.getLast?.or prev, rest := m.text ++ m.after } m.text c'
  after : m.after = c'.rest

theorem places_of_findFrom? {p : Pattern} {skip : Nat} {prev : Option UInt8} {s : Bytes} {m : Match}
    (h : p.findFrom? skip prev s = some m) : ∃ c', p.Places prev m c' ∧
      m.groups = c'.groups.map fun g => (g.number, g.text (m.text ++ m.after)) := by
  obtain ⟨c', hleads, htakes, -, hafter, hgroups⟩ := leads_of_matchHere? (matchHere?_of_findFrom? h)
  exact ⟨c', ⟨hleads, htakes, hafter⟩, hgroups⟩

theorem Leads.taken_le {p : Pattern} {c c' : Cursor} (h : Leads p c c') : c.taken ≤ c'.taken := by
  obtain ⟨t, ht⟩ := h.takes
  rw [ht.taken]
  exact Nat.le_add_right _ _

section

variable {p : Pattern} {prev : Option UInt8} {m : Match} {c' : Cursor}

theorem Places.text_ne_nil (h : p.Places prev m c') (hp : p.Consumes) : m.text ≠ [] := by
  intro hnil
  have hlt := hp _ _ h.leads
  rw [h.takes.taken, hnil] at hlt
  exact Nat.lt_irrefl _ hlt

theorem Places.prev_eq (h : p.Places prev m c') (hp : p.Consumes) : c'.prev = m.text.getLast? := by
  rw [h.takes.prev]
  cases hlast : m.text.getLast? with
  | none => exact absurd (List.getLast?_eq_none_iff.1 hlast) (h.text_ne_nil hp)
  | some x => rfl

end

/-! ## Taking something -/

theorem leads_seqs_append (ps qs : List Pattern) {c c' : Cursor} :
    Leads (seqs (ps ++ qs)) c c' ↔ ∃ c₁, Leads (seqs ps) c c₁ ∧ Leads (seqs qs) c₁ c' := by
  induction ps generalizing c with
  | nil =>
    constructor
    · exact fun h => ⟨c, .nothing c, h⟩
    · rintro ⟨c₁, hnil, h⟩
      obtain rfl := leads_nothing.1 hnil
      exact h
  | cons p ps ih =>
    rw [List.cons_append, leads_seqs_cons]
    constructor
    · rintro ⟨c₁, hp, h⟩
      obtain ⟨c₂, hps, hqs⟩ := ih.1 h
      exact ⟨c₂, leads_seqs_cons.2 ⟨c₁, hp, hps⟩, hqs⟩
    · rintro ⟨c₂, hps, hqs⟩
      obtain ⟨c₁, hp, hps⟩ := leads_seqs_cons.1 hps
      exact ⟨c₁, hp, ih.2 ⟨c₂, hps, hqs⟩⟩

theorem consumes_of_mem {p : Pattern} {ps : List Pattern} (hmem : p ∈ ps) (hp : p.Consumes) :
    (seqs ps).Consumes := by
  induction ps with
  | nil => exact absurd hmem List.not_mem_nil
  | cons q ps ih =>
    intro c c' h
    obtain ⟨c₁, hq, hps⟩ := leads_seqs_cons.1 h
    rcases List.mem_cons.1 hmem with rfl | hmem
    · exact Nat.lt_of_lt_of_le (hp _ _ hq) hps.taken_le
    · exact Nat.lt_of_le_of_lt hq.taken_le (ih hmem _ _ hps)

theorem Cursor.Takes.taken_lt {c c' : Cursor} {t : Bytes} (h : c.Takes t c') (ht : t ≠ []) :
    c.taken < c'.taken := by
  rw [h.taken]
  exact Nat.lt_add_of_pos_right (List.length_pos_iff.2 ht)

theorem consumes_keyword {s : String} (hs : IsKeyword s) : (keyword s).Consumes := by
  intro c c' h
  obtain ⟨t, htakes, hne, -⟩ := leads_keyword_bytes hs h
  exact htakes.taken_lt hne

theorem consumes_keywords {ss : List String} (hne : ss ≠ []) (hss : ∀ s ∈ ss, IsKeyword s) :
    (keywords ss).Consumes := by
  intro c c' h
  obtain ⟨s, hs, hkey⟩ := leads_keywords hne h
  exact consumes_keyword (hss s hs) _ _ hkey

theorem leads_phrase_head {s : String} {ss : List String} {c c' : Cursor}
    (h : Leads (phrase (s :: ss)) c c') :
    ∃ c₁, Leads (keyword s) c c₁ ∧ c₁.taken ≤ c'.taken := by
  cases ss with
  | nil => exact ⟨c', h, Nat.le_refl _⟩
  | cons next ss =>
    obtain ⟨c₁, hkey, hrest⟩ := leads_seqs_cons.1 h
    exact ⟨c₁, hkey, hrest.taken_le⟩

theorem consumes_phrase {s : String} (hs : IsKeyword s) (ss : List String) :
    (phrase (s :: ss)).Consumes := by
  intro c c' h
  obtain ⟨c₁, hkey, hle⟩ := leads_phrase_head h
  exact Nat.lt_of_lt_of_le (consumes_keyword hs _ _ hkey) hle

theorem consumes_wholeWord {word : String} (hword : IsKeyword word) :
    (wholeWord word).Consumes :=
  consumes_of_mem (List.mem_cons_of_mem _ List.mem_cons_self) (consumes_keyword hword)

theorem consumes_wholePhrase {word : String} (hword : IsKeyword word) (ss : List String) :
    (wholePhrase (word :: ss)).Consumes :=
  consumes_of_mem (List.mem_cons_of_mem _ List.mem_cons_self) (consumes_phrase hword ss)

theorem Consumes.after_lt {p : Pattern} (hp : p.Consumes) {prev : Option UInt8} {s : Bytes}
    {m : Match} (h : p.findFrom? 0 prev s = some m) : m.after.length < s.length := by
  obtain ⟨c', hplaces, -⟩ := places_of_findFrom? h
  have hne := List.length_pos_iff.2 (hplaces.text_ne_nil hp)
  rw [← text_of_findFrom? h, List.length_append, List.length_append]
  omega

theorem allFrom_of_findFrom? {p : Pattern} {prev : Option UInt8} {s : Bytes} {m : Match}
    (h : p.findFrom? 0 prev s = some m) (hlt : m.after.length < s.length) :
    p.allFrom prev s = m :: p.allFrom m.text.getLast? m.after := by
  rw [allFrom, h]
  exact if_pos hlt

/-! ## The whole text -/

/-- A match of a pattern for the beginning of the text starts there. -/
theorem before_eq_nil {ps : List Pattern} {s : Bytes} {m : Match}
    (h : (seqs (textStart :: ps)).find? s = some m) : m.before = [] := by
  obtain ⟨c', hplaces, -⟩ := places_of_findFrom? h
  obtain ⟨c₁, hstart, -⟩ := leads_seqs_cons.1 hplaces.leads
  cases hstart with
  | textStart hprev =>
    rw [Option.or_none] at hprev
    exact List.getLast?_eq_none_iff.1 hprev

/-- Such a match leads through the text from its beginning. -/
theorem leads_of_textStart {ps : List Pattern} {s : Bytes} {m : Match}
    (h : (seqs (textStart :: ps)).find? s = some m) :
    ∃ c', Leads (seqs ps) { prev := none, rest := s } c' ∧ m.after = c'.rest := by
  have hbefore := before_eq_nil h
  have htext := text_of_find? h
  rw [hbefore, List.nil_append] at htext
  obtain ⟨c', hplaces, -⟩ := places_of_findFrom? h
  obtain ⟨c₁, hstart, hleads⟩ := leads_seqs_cons.1 hplaces.leads
  rw [hbefore, htext] at hstart
  cases hstart with
  | textStart _ => exact ⟨c', hleads, hplaces.after⟩

/-- A match of a pattern for the end of the text ends there. -/
theorem after_eq_nil {ps : List Pattern} {skip : Nat} {prev : Option UInt8} {s : Bytes} {m : Match}
    (h : (seqs (ps ++ [textEnd])).findFrom? skip prev s = some m) : m.after = [] := by
  obtain ⟨c', hplaces, -⟩ := places_of_findFrom? h
  obtain ⟨c₁, -, hend⟩ := (leads_seqs_append ps _).1 hplaces.leads
  obtain ⟨c₂, hlast, hnil⟩ := leads_seqs_cons.1 hend
  obtain rfl := leads_nothing.1 hnil
  cases hlast with
  | textEnd hrest =>
    rw [hplaces.after]
    exact hrest

theorem text_eq_of_whole {ps : List Pattern} {s : Bytes} {m : Match}
    (h : (seqs (textStart :: (ps ++ [textEnd]))).find? s = some m) : m.text = s := by
  have htext := text_of_find? h
  have hafter := @after_eq_nil (textStart :: ps) _ _ _ _ h
  rwa [before_eq_nil h, hafter, List.append_nil] at htext

/-! ## Outside words -/

/-- The pattern never ends inside a word. -/
def EndsOutside (p : Pattern) : Prop :=
  ∀ c c' : Cursor, Leads p c c' → c'.prev.any isWord = true → c'.rest.head?.any isWord = false

theorem endsOutside_wordEdge (ps : List Pattern) : (seqs (ps ++ [wordEdge])).EndsOutside := by
  intro c c' h hprev
  obtain ⟨c₁, -, hend⟩ := (leads_seqs_append _ _).1 h
  obtain ⟨c₂, hedge, hnil⟩ := leads_seqs_cons.1 hend
  obtain rfl := leads_nothing.1 hnil
  obtain ⟨rfl, hedge⟩ := leads_wordEdge.1 hedge
  rw [Cursor.atWordEdge, hprev, bne_iff_ne] at hedge
  exact Bool.eq_false_iff.2 (Ne.symm hedge)

theorem endsOutside_text {s : String} (hs : ∀ ch ∈ s.toList, ch.toNat < 128) {x : UInt8}
    (hlast : (ascii s).getLast? = some x) (hx : isWord x = false) (ps : List Pattern) :
    (seqs (ps ++ [text s])).EndsOutside := by
  intro c c' h hprev
  obtain ⟨c₁, -, hend⟩ := (leads_seqs_append _ _).1 h
  obtain ⟨c₂, htext, hnil⟩ := leads_seqs_cons.1 hend
  obtain rfl := leads_nothing.1 hnil
  have htakes := leads_text hs htext
  rw [htakes.prev, hlast] at hprev
  exact absurd (hx.symm.trans hprev) Bool.false_ne_true

/-- The pattern never starts inside a word. -/
def StartsOutside (p : Pattern) : Prop :=
  ∀ c c' : Cursor, Leads p c c' → c.prev.any isWord = false

theorem startsOutside_of_keyword {s : String} (hs : IsKeyword s) (hhead : AsciiHead s)
    {q : Pattern} (hq : ∀ c c' : Cursor, Leads q c c' → ∃ c₁, Leads (keyword s) c c₁)
    (ps : List Pattern) : (seqs (wordEdge :: q :: ps)).StartsOutside := by
  intro c c' h
  obtain ⟨c₁, hedge, h₁⟩ := leads_seqs_cons.1 h
  obtain ⟨rfl, hedge⟩ := leads_wordEdge.1 hedge
  obtain ⟨c₂, hopen, -⟩ := leads_seqs_cons.1 h₁
  obtain ⟨c₃, hkey⟩ := hq _ _ hopen
  obtain ⟨x, u, hrest, hx⟩ := leads_keyword_head hhead hkey
  obtain ⟨t, htakes, hne, hword⟩ := leads_keyword_bytes hs hkey
  have hxt : x ∈ t := by
    obtain ⟨y, t, rfl⟩ := List.exists_cons_of_ne_nil hne
    obtain ⟨rfl, -⟩ := List.cons.inj (hrest.symm.trans htakes.rest)
    exact List.mem_cons_self
  have hnext : c₁.rest.head?.any isWord = true := by
    rw [hrest]
    exact hword x hxt hx
  rw [Cursor.atWordEdge, hnext, bne_iff_ne] at hedge
  exact Bool.eq_false_iff.2 hedge

theorem startsOutside_keyword {s : String} (hs : IsKeyword s) (hhead : AsciiHead s)
    (ps : List Pattern) : (seqs (wordEdge :: keyword s :: ps)).StartsOutside :=
  startsOutside_of_keyword hs hhead (fun _ c' h => ⟨c', h⟩) ps

theorem startsOutside_phrase {s : String} (hs : IsKeyword s) (hhead : AsciiHead s)
    (ss : List String) (ps : List Pattern) :
    (seqs (wordEdge :: phrase (s :: ss) :: ps)).StartsOutside := by
  refine startsOutside_of_keyword hs hhead (fun c c' h => ?_) ps
  obtain ⟨c₁, hkey, -⟩ := leads_phrase_head h
  exact ⟨c₁, hkey⟩

/-! ## Keywords with ASCII forms only -/

/-- All forms of all letters of the keyword are ASCII. -/
def AsciiKeyword (s : String) : Prop :=
  ∀ ch ∈ s.toList, ch.toNat < 128 ∧ AsciiSet (CharSet.anyCase ch)

instance (s : String) : Decidable (AsciiKeyword s) :=
  inferInstanceAs (Decidable (∀ ch ∈ s.toList, _))

/-- Such a keyword takes its own letters. -/
theorem leads_keyword_ascii {s : String} (hs : AsciiKeyword s) {c c' : Cursor}
    (h : Leads (keyword s) c c') :
    ∃ t, c.Takes t c' ∧ t.map lowerByte = (ascii s).map lowerByte := by
  rw [keyword_eq] at h
  rw [ascii]
  rw [AsciiKeyword] at hs
  generalize s.toList = cs at hs h
  induction cs generalizing c with
  | nil =>
    obtain rfl := leads_nothing.1 h
    exact ⟨[], .refl _, rfl⟩
  | cons ch cs ih =>
    obtain ⟨hch, hcs⟩ := List.forall_mem_cons.1 hs
    obtain ⟨c₁, hone, hseqs⟩ := leads_seqs_cons.1 h
    obtain ⟨b, hb, hset, htakes, -⟩ := leads_one_ascii hch.2 hone
    obtain ⟨t, htakes', ht⟩ := ih hcs hseqs
    rw [contains_anyCase hch.1 hb, beq_iff_eq] at hset
    refine ⟨[b] ++ t, htakes.trans htakes', ?_⟩
    rw [List.singleton_append, List.map_cons, ht, hset]
    rfl

/-! ## What groups record -/

/-- The pattern records nothing. -/
def noGroups : Pattern → Bool
  | seq p q => p.noGroups && q.noGroups
  | alt p q => p.noGroups && q.noGroups
  | many p => p.noGroups
  | manyLazy p => p.noGroups
  | group _ _ => false
  | _ => true

theorem Leads.groups_eq {p : Pattern} {c c' : Cursor} (h : Leads p c c')
    (hp : p.noGroups = true) : c'.groups = c.groups := by
  induction h with
  | nothing | wordEdge | textStart | textEnd | manyNone | lazyNone => rfl
  | one hnext _ =>
    obtain ⟨_, _, _, hgroups, _⟩ := Cursor.takes_of_next? hnext
    exact hgroups
  | seq _ _ ihp ihq =>
    rw [noGroups, Bool.and_eq_true] at hp
    rw [ihq hp.2, ihp hp.1]
  | altLeft _ ih =>
    rw [noGroups, Bool.and_eq_true] at hp
    exact ih hp.1
  | altRight _ ih =>
    rw [noGroups, Bool.and_eq_true] at hp
    exact ih hp.2
  | manyMore _ _ ihp ihrest | lazyMore _ _ ihp ihrest => rw [ihrest hp, ihp hp]
  | group => cases hp

/-- A group records the text that it takes. -/
theorem text_recorded {c₀ c₁ c₂ : Cursor} {u t : Bytes} (h₀ : c₀.taken = 0) (h₁ : c₀.Takes u c₁)
    (h₂ : c₁.Takes t c₂) (n : Nat) :
    Recorded.text ⟨n, c₁.taken, c₂.taken - c₁.taken⟩ c₀.rest = t := by
  have hstart : c₁.taken = u.length := by rw [h₁.taken, h₀, Nat.zero_add]
  have hlen : c₂.taken - c₁.taken = t.length := by rw [h₂.taken, Nat.add_sub_cancel_left]
  rw [Recorded.text, hlen, hstart, h₁.rest, h₂.rest, List.drop_left' rfl, List.take_left' rfl]

/-- The patterns whose text the pattern records under a number. -/
def recordedAs (n : Nat) : Pattern → List Pattern
  | seq p q => p.recordedAs n ++ q.recordedAs n
  | alt p q => p.recordedAs n ++ q.recordedAs n
  | many p => p.recordedAs n
  | manyLazy p => p.recordedAs n
  | group i p => if i = n then p :: p.recordedAs n else p.recordedAs n
  | _ => []

/-- What is recorded on the way was recorded before, or the pattern has a group that recorded it. -/
theorem Leads.recorded {p : Pattern} {c c' : Cursor} (h : Leads p c c') :
    ∀ g ∈ c'.groups, g ∈ c.groups ∨ ∃ q ∈ p.recordedAs g.number, ∃ u c₁ c₂, c.Takes u c₁ ∧
      Leads q c₁ c₂ ∧ g = ⟨g.number, c₁.taken, c₂.taken - c₁.taken⟩ := by
  induction h with
  | nothing | wordEdge | textStart | textEnd | manyNone | lazyNone => exact fun g hg => Or.inl hg
  | one hnext _ =>
    intro g hg
    obtain ⟨_, _, _, hgroups, _⟩ := Cursor.takes_of_next? hnext
    exact Or.inl (hgroups ▸ hg)
  | @seq p q c c₀ c' hp hq ihp ihq =>
    intro g hg
    rcases ihq g hg with hg | ⟨r, hr, u, c₁, c₂, htakes, hleads, heq⟩
    · rcases ihp g hg with hg | ⟨r, hr, hrest⟩
      · exact Or.inl hg
      · exact Or.inr ⟨r, List.mem_append_left _ hr, hrest⟩
    · obtain ⟨v, hv⟩ := hp.takes
      exact Or.inr ⟨r, List.mem_append_right _ hr, v ++ u, c₁, c₂, hv.trans htakes, hleads, heq⟩
  | altLeft _ ih =>
    intro g hg
    rcases ih g hg with hg | ⟨r, hr, hrest⟩
    · exact Or.inl hg
    · exact Or.inr ⟨r, List.mem_append_left _ hr, hrest⟩
  | altRight _ ih =>
    intro g hg
    rcases ih g hg with hg | ⟨r, hr, hrest⟩
    · exact Or.inl hg
    · exact Or.inr ⟨r, List.mem_append_right _ hr, hrest⟩
  | manyMore hp _ ihp ihrest | lazyMore hp _ ihp ihrest =>
    intro g hg
    rcases ihrest g hg with hg | ⟨r, hr, u, c₁, c₂, htakes, hleads, heq⟩
    · exact ihp g hg
    · obtain ⟨v, hv⟩ := hp.takes
      exact Or.inr ⟨r, hr, v ++ u, c₁, c₂, hv.trans htakes, hleads, heq⟩
  | @group n p c c' hp ih =>
    intro g hg
    have hbody : ∀ r ∈ p.recordedAs g.number, r ∈ (Pattern.group n p).recordedAs g.number := by
      intro r hr
      rw [recordedAs]
      split
      · exact List.mem_cons_of_mem _ hr
      · exact hr
    -- the record of the group itself is the latest, in front of those made inside it
    rcases List.mem_cons.1 hg with rfl | hg
    · refine Or.inr ⟨p, ?_, [], c, c', .refl c, hp, rfl⟩
      rw [recordedAs, if_pos rfl]
      exact List.mem_cons_self
    · rcases ih g hg with hg | ⟨r, hr, hrest⟩
      · exact Or.inl hg
      · exact Or.inr ⟨r, hbody r hr, hrest⟩

/-- A group of a match holds a text that the pattern of the group leads over. -/
theorem leads_of_group? {p : Pattern} {skip : Nat} {prev : Option UInt8} {s : Bytes} {m : Match}
    (hm : p.findFrom? skip prev s = some m) {n : Nat} {t : Bytes} (ht : m.group? n = some t) :
    ∃ q ∈ p.recordedAs n, ∃ c c', Leads q c c' ∧ c.Takes t c' := by
  obtain ⟨c', hplaces, hgroups⟩ := places_of_findFrom? hm
  have hmem : (n, t) ∈ m.groups := by
    rw [Match.group?] at ht
    obtain ⟨a, b, hsplit, -⟩ := List.lookup_eq_some_iff.1 ht
    rw [hsplit]
    exact List.mem_append_right _ List.mem_cons_self
  rw [hgroups, List.mem_map] at hmem
  obtain ⟨g, hg, heq⟩ := hmem
  obtain ⟨rfl, rfl⟩ := Prod.mk.inj heq
  rcases hplaces.leads.recorded g hg with hg | ⟨q, hq, u, c₁, c₂, hu, hleads, hrec⟩
  · exact absurd hg List.not_mem_nil
  · obtain ⟨v, hv⟩ := hleads.takes
    have htext := text_recorded rfl hu hv g.number
    rw [← hrec] at htext
    exact ⟨q, hq, c₁, c₂, hleads, htext ▸ hv⟩

/-- What holds of the texts that the pattern of a group takes holds of the group, where it holds of the
empty text. -/
theorem group_of_leads {P : Bytes → Prop} (hnil : P []) {p : Pattern} {n skip : Nat}
    {prev : Option UInt8} {s : Bytes} {m : Match}
    (hp : ∀ q ∈ p.recordedAs n, ∀ (c c' : Cursor) (t : Bytes), Leads q c c' → c.Takes t c' → P t)
    (hm : p.findFrom? skip prev s = some m) : P (m.group n) := by
  rw [Match.group]
  cases hgroup : m.group? n with
  | none => exact hnil
  | some t =>
    obtain ⟨q, hq, c, c', hleads, htakes⟩ := leads_of_group? hm hgroup
    exact hp q hq c c' t hleads htakes

/-! ## Bytes that are avoided -/

/-- No set of the pattern holds any of the bytes. -/
def avoids (bs : Bytes) : Pattern → Bool
  | one set => bs.all fun b => !set.contains b.toNat
  | seq p q => p.avoids bs && q.avoids bs
  | alt p q => p.avoids bs && q.avoids bs
  | many p => p.avoids bs
  | manyLazy p => p.avoids bs
  | group _ p => p.avoids bs
  | _ => true

/-- Such a pattern takes none of the bytes: only a set that holds an ASCII byte takes it, since the
bytes of other characters are no ASCII. -/
theorem notMem_of_leads {bs : Bytes} {p : Pattern} (hp : p.avoids bs = true) {c c' : Cursor}
    {t : Bytes} (h : Leads p c c') (ht : c.Takes t c') {b : UInt8} (hb : b ∈ bs)
    (hascii : b < 128) : b ∉ t := by
  induction h generalizing t with
  | nothing | wordEdge | textStart | textEnd | manyNone | lazyNone =>
    rw [ht.unique (.refl _)]
    exact List.not_mem_nil
  | @one set c c' code hnext hset =>
    obtain ⟨x, u, htakes, -, hx⟩ := Cursor.takes_of_next? hnext
    rw [ht.unique htakes]
    rw [avoids, List.all_eq_true] at hp
    have hfree : set.contains b.toNat = false := by simpa using hp b hb
    -- a character is one ASCII byte, which the set would hold, or bytes that are not ASCII
    rcases hx with ⟨-, rfl, rfl⟩ | ⟨hx, hu, -⟩
    · rw [List.mem_singleton]
      rintro rfl
      exact Bool.noConfusion (hfree.symm.trans hset)
    · rw [List.mem_cons, not_or]
      refine ⟨?_, fun hmem => UInt8.not_lt.2 (hu b hmem) hascii⟩
      rintro rfl
      exact UInt8.not_lt.2 hx hascii
  | seq hp' hq' ihp ihq =>
    rw [avoids, Bool.and_eq_true] at hp
    obtain ⟨u, hu⟩ := hp'.takes
    obtain ⟨v, hv⟩ := hq'.takes
    rw [ht.unique (hu.trans hv), List.mem_append, not_or]
    exact ⟨ihp hp.1 hu, ihq hp.2 hv⟩
  | altLeft _ ih =>
    rw [avoids, Bool.and_eq_true] at hp
    exact ih hp.1 ht
  | altRight _ ih =>
    rw [avoids, Bool.and_eq_true] at hp
    exact ih hp.2 ht
  | manyMore hp' hrest ihp ihrest | lazyMore hp' hrest ihp ihrest =>
    obtain ⟨u, hu⟩ := hp'.takes
    obtain ⟨v, hv⟩ := hrest.takes
    rw [ht.unique (hu.trans hv), List.mem_append, not_or]
    exact ⟨ihp hp hu, ihrest hp hv⟩
  | @group n p c c' hp' ih =>
    obtain ⟨u, hu⟩ := hp'.takes
    rw [ht.unique (hu.record n c)]
    exact ih hp hu

/-- A pattern that avoids the blanks takes none. -/
theorem unblank_of_leads {p : Pattern} (hp : p.avoids [9, 10, 12, 13, 32] = true) {c c' : Cursor}
    {t : Bytes} (h : Leads p c c') (ht : c.Takes t c') :
    ∀ x ∈ t, CharSet.blank.contains x.toNat = false := by
  intro x hx
  rw [Bool.eq_false_iff]
  intro hblank
  exact notMem_of_leads hp h ht (forall_blank (fun _ hlisted => hlisted) hblank)
    (ascii_of_blank hblank).1 hx

/-! ## Runs -/

theorem drop_length_takeWhile (q : UInt8 → Bool) (s : Bytes) :
    s.drop (s.takeWhile q).length = s.dropWhile q := by
  have hcut : s = s.takeWhile q ++ s.dropWhile q := List.takeWhile_append_dropWhile.symm
  exact (congrArg (List.drop (s.takeWhile q).length) hcut).trans (List.drop_left' rfl)

/-- A pattern that opens with a run of characters does not start inside a run. -/
theorem prev_of_findFrom? {p : Pattern} {set : CharSet} (hrun : p.leadRun? = some set)
    (hopen : ∀ c c' : Cursor, Leads p c c' →
      ∃ x u, c.rest = x :: u ∧ x < 128 ∧ set.contains x.toNat = true)
    (hword : ∀ b : UInt8, isWord b = true → set.contains b.toNat = true) {skip : Nat}
    {prev : Option UInt8} {s : Bytes} {m : Match} (h : p.findFrom? skip prev s = some m)
    (hedge : ((s.take skip).getLast?.or prev).any isWord = true →
      ∀ x, (s.drop skip).head? = some x → ¬ (x < 128 ∧ set.contains x.toNat = true)) :
    (m.before.getLast?.or prev).any isWord = false := by
  -- a match here starts with a byte of the set, which no word byte precedes
  have hhere : ∀ {prev : Option UInt8} {s : Bytes} {m : Match}, p.matchHere? prev s = some m →
      (prev.any isWord = true → ∀ x, s.head? = some x → ¬ (x < 128 ∧ set.contains x.toNat = true)) →
      (m.before.getLast?.or prev).any isWord = false := by
    intro prev s m hm hedge
    obtain ⟨c', hleads, -, hbefore, -⟩ := leads_of_matchHere? hm
    obtain ⟨x, u, hrest, hx⟩ := hopen _ _ hleads
    rw [hbefore, Bool.eq_false_iff]
    intro hprev
    exact hedge hprev x (congrArg List.head? hrest) hx
  induction s generalizing skip prev m with
  | nil =>
    cases skip with
    | zero => exact hhere h hedge
    | succ n => cases h
  | cons b s ih =>
    have hshift : ∀ {n : Nat} {m : Match},
        (p.findFrom? n (some b) s).map (Match.shift b) = some m →
        (((s.take n).getLast?.or (some b)).any isWord = true →
          ∀ x, (s.drop n).head? = some x → ¬ (x < 128 ∧ set.contains x.toNat = true)) →
        (m.before.getLast?.or prev).any isWord = false := by
      intro n m hm hedge
      obtain ⟨m', hm', rfl⟩ := Option.map_eq_some_iff.1 hm
      rw [Match.shift, getLast?_cons_or]
      exact ih hm' hedge
    cases skip with
    | succ n =>
      rw [List.take_succ_cons, getLast?_cons_or, List.drop_succ_cons] at hedge
      exact hshift h hedge
    | zero =>
      rw [findFrom?] at h
      split at h
      · rename_i m' hm'
        obtain rfl := Option.some.inj h
        exact hhere hm' hedge
      · refine hshift h fun hlast x hx hrunx => ?_
        rw [stride, hrun] at hlast hx
        dsimp only at hlast hx
        split at hlast
        · -- the rest of the run has been passed over
          rename_i hb
          rw [if_pos hb, drop_length_takeWhile] at hx
          have hnot := List.head?_dropWhile_not
            (fun b => decide (b < 128) && set.contains b.toNat) s
          rw [hx] at hnot
          dsimp only at hnot
          rw [Bool.and_eq_false_iff, decide_eq_false_iff_not] at hnot
          rcases hnot with hnot | hnot
          · exact hnot hrunx.1
          · exact Bool.noConfusion (hrunx.2.symm.trans hnot)
        · -- a character outside the set ends in no word byte
          rename_i hb
          cases hcont : (s.take (Utf8.lead b s).2).getLast? with
          | none =>
            rw [hcont] at hlast
            exact hb (by rw [hword b hlast, decide_eq_true (ascii_of_isWord hlast)]; rfl)
          | some y =>
            rw [hcont] at hlast
            have hy := (Utf8.lead_continuation b s).2 y (List.mem_of_getLast? hcont)
            exact UInt8.not_lt.2 hy (ascii_of_isWord hlast)

end Pattern

end SqlDialect
