import SqlDialect.Pattern.Lemmas
import SqlDialect.Proofs.Text.Glyphs

set_option autoImplicit false

/-! # What patterns match

`Leads p c c'` is the meaning of a pattern as a relation between places: the pattern matches the
stretch from `c` to `c'`. The matcher is sound for it: whatever it finds is such a stretch. A stretch
is described by the text that it takes (`Cursor.Takes`), which also gives the byte in front of the
place behind it.

The search moves on character by character, so for a pattern without a leading run it cannot miss a
match: a part of the text in which no match starts is passed over (`findFrom?_skip`). -/

namespace SqlDialect

namespace Pattern

/-! ## Stretches of text -/

/-- `c'` lies behind the text `t`, which starts at `c`. -/
structure Cursor.Takes (c : Cursor) (t : Bytes) (c' : Cursor) : Prop where
  rest : c.rest = t ++ c'.rest
  taken : c'.taken = c.taken + t.length
  prev : c'.prev = t.getLast?.or c.prev

namespace Cursor

theorem Takes.refl (c : Cursor) : c.Takes [] c :=
  ⟨rfl, rfl, rfl⟩

theorem Takes.trans {a b c : Cursor} {t u : Bytes} (hab : a.Takes t b) (hbc : b.Takes u c) :
    a.Takes (t ++ u) c where
  rest := by rw [hab.rest, hbc.rest, List.append_assoc]
  taken := by rw [hbc.taken, hab.taken, List.length_append, Nat.add_assoc]
  prev := by rw [hbc.prev, hab.prev, List.getLast?_append, Option.or_assoc]

theorem Takes.unique {c c' : Cursor} {t u : Bytes} (ht : c.Takes t c') (hu : c.Takes u c') :
    t = u := by
  have htaken := ht.taken.symm.trans hu.taken
  exact List.append_inj_left (ht.rest.symm.trans hu.rest) (Nat.add_left_cancel htaken)

theorem Takes.record {c c' : Cursor} {t : Bytes} (h : c.Takes t c') (n : Nat) (start : Cursor) :
    c.Takes t (c'.record n start) :=
  ⟨h.rest, h.taken, h.prev⟩

/-- The next character is a byte below 128, or a sequence of larger bytes with a larger code. -/
theorem takes_of_next? {c c' : Cursor} {code : Nat} (h : c.next? = some (code, c')) :
    ∃ b t, c.Takes (b :: t) c' ∧ c'.groups = c.groups ∧
      (b < 128 ∧ t = [] ∧ code = b.toNat ∨ 128 ≤ b ∧ (∀ x ∈ t, 128 ≤ x) ∧ 128 ≤ code) := by
  rw [next?] at h
  split at h
  · simp at h
  · rename_i b s hrest
    simp only [Option.some.injEq, Prod.mk.injEq] at h
    obtain ⟨rfl, rfl⟩ := h
    refine ⟨b, s.take (Utf8.lead b s).2, ⟨?_, ?_, ?_⟩, rfl, ?_⟩
    · rw [hrest, List.cons_append, List.take_append_drop]
    · rfl
    · rw [List.getLast?_cons, Option.some_or, List.getLastD_eq_getLast?]
    · by_cases hb : b < 128
      · rw [Utf8.lead_ascii hb]
        exact Or.inl ⟨hb, rfl, rfl⟩
      · have hb := UInt8.not_lt.1 hb
        exact Or.inr ⟨hb, (Utf8.lead_continuation b s).2, Utf8.le_lead_code hb s⟩

end Cursor

/-! ## Meaning -/

/-- The pattern matches the stretch between two places. -/
inductive Leads : Pattern → Cursor → Cursor → Prop where
  | nothing (c : Cursor) : Leads .nothing c c
  | one {set : CharSet} {c c' : Cursor} {code : Nat} (hnext : c.next? = some (code, c'))
      (hset : set.contains code = true) : Leads (.one set) c c'
  | wordEdge {c : Cursor} (h : c.atWordEdge = true) : Leads .wordEdge c c
  | textStart {c : Cursor} (h : c.prev = none) : Leads .textStart c c
  | textEnd {c : Cursor} (h : c.rest = []) : Leads .textEnd c c
  | seq {p q : Pattern} {c c₁ c₂ : Cursor} (hp : Leads p c c₁) (hq : Leads q c₁ c₂) :
      Leads (.seq p q) c c₂
  | altLeft {p q : Pattern} {c c' : Cursor} (hp : Leads p c c') : Leads (.alt p q) c c'
  | altRight {p q : Pattern} {c c' : Cursor} (hq : Leads q c c') : Leads (.alt p q) c c'
  | manyNone (p : Pattern) (c : Cursor) : Leads (.many p) c c
  | manyMore {p : Pattern} {c c₁ c₂ : Cursor} (hp : Leads p c c₁) (hrest : Leads (.many p) c₁ c₂) :
      Leads (.many p) c c₂
  | lazyNone (p : Pattern) (c : Cursor) : Leads (.manyLazy p) c c
  | lazyMore {p : Pattern} {c c₁ c₂ : Cursor} (hp : Leads p c c₁)
      (hrest : Leads (.manyLazy p) c₁ c₂) : Leads (.manyLazy p) c c₂
  | group {n : Nat} {p : Pattern} {c c' : Cursor} (hp : Leads p c c') :
      Leads (.group n p) c (c'.record n c)

/-- A step of the matcher that hands on only places that the pattern leads to. -/
def Sound {α : Type} (p : Pattern) (body : Cursor → (Cursor → Option α) → Option α) : Prop :=
  ∀ c k r, body c k = some r → ∃ c', Leads p c c' ∧ k c' = some r

theorem sound_repeatGreedy {α : Type} {p : Pattern}
    {body : Cursor → (Cursor → Option α) → Option α} (hbody : Sound p body) (left : Bytes) :
    Sound (.many p) fun c k => repeatGreedy body k left c := by
  intro c k r h
  induction left generalizing c with
  | nil => exact ⟨c, .manyNone p c, h⟩
  | cons b left ih =>
    simp only [repeatGreedy] at h
    split at h
    · rename_i r' hr'
      cases h
      obtain ⟨c₁, hc₁, hk⟩ := hbody _ _ _ hr'
      split at hk
      · obtain ⟨c₂, hc₂, hk₂⟩ := ih c₁ hk
        exact ⟨c₂, .manyMore hc₁ hc₂, hk₂⟩
      · simp at hk
    · exact ⟨c, .manyNone p c, h⟩

theorem sound_repeatLazy {α : Type} {p : Pattern}
    {body : Cursor → (Cursor → Option α) → Option α} (hbody : Sound p body) (left : Bytes) :
    Sound (.manyLazy p) fun c k => repeatLazy body k left c := by
  intro c k r h
  induction left generalizing c with
  | nil => exact ⟨c, .lazyNone p c, h⟩
  | cons b left ih =>
    simp only [repeatLazy] at h
    split at h
    · rename_i r' hr'
      exact ⟨c, .lazyNone p c, by rw [hr']; exact h⟩
    · obtain ⟨c₁, hc₁, hk⟩ := hbody _ _ _ h
      split at hk
      · obtain ⟨c₂, hc₂, hk₂⟩ := ih c₁ hk
        exact ⟨c₂, .lazyMore hc₁ hc₂, hk₂⟩
      · simp at hk

/-- The matcher finds only what the pattern matches. -/
theorem sound_run {α : Type} (p : Pattern) : @Sound α p p.run := by
  induction p with
  | nothing => exact fun c k r h => ⟨c, .nothing c, h⟩
  | one set =>
    intro c k r h
    simp only [run] at h
    split at h
    · rename_i code c' hnext
      split at h
      · rename_i hset
        exact ⟨c', .one hnext hset, h⟩
      · simp at h
    · simp at h
  | wordEdge =>
    intro c k r h
    simp only [run] at h
    split at h
    · rename_i hedge
      exact ⟨c, .wordEdge hedge, h⟩
    · simp at h
  | textStart =>
    intro c k r h
    simp only [run] at h
    split at h
    · rename_i hstart
      exact ⟨c, .textStart (Option.isNone_iff_eq_none.1 hstart), h⟩
    · simp at h
  | textEnd =>
    intro c k r h
    simp only [run] at h
    split at h
    · rename_i hend
      exact ⟨c, .textEnd (List.isEmpty_iff.1 hend), h⟩
    · simp at h
  | seq p q ihp ihq =>
    intro c k r h
    obtain ⟨c₁, hc₁, h₁⟩ := ihp _ _ _ h
    obtain ⟨c₂, hc₂, h₂⟩ := ihq _ _ _ h₁
    exact ⟨c₂, .seq hc₁ hc₂, h₂⟩
  | alt p q ihp ihq =>
    intro c k r h
    simp only [run] at h
    split at h
    · rename_i r' hr'
      obtain ⟨c₁, hc₁, h₁⟩ := ihp _ _ _ hr'
      exact ⟨c₁, .altLeft hc₁, by rw [h₁]; exact h⟩
    · obtain ⟨c₁, hc₁, h₁⟩ := ihq _ _ _ h
      exact ⟨c₁, .altRight hc₁, h₁⟩
  | many p ih => exact fun c k r h => sound_repeatGreedy ih c.rest c k r h
  | manyLazy p ih => exact fun c k r h => sound_repeatLazy ih c.rest c k r h
  | group n p ih =>
    intro c k r h
    obtain ⟨c₁, hc₁, h₁⟩ := ih _ _ _ h
    exact ⟨_, .group hc₁, h₁⟩

/-- A pattern takes text. -/
theorem Leads.takes {p : Pattern} {c c' : Cursor} (h : Leads p c c') : ∃ t, c.Takes t c' := by
  induction h with
  | nothing | wordEdge | textStart | textEnd | manyNone | lazyNone => exact ⟨[], .refl _⟩
  | one hnext _ =>
    obtain ⟨b, t, htakes, _⟩ := Cursor.takes_of_next? hnext
    exact ⟨b :: t, htakes⟩
  | seq _ _ ihp ihq | manyMore _ _ ihp ihq | lazyMore _ _ ihp ihq =>
    obtain ⟨t, ht⟩ := ihp
    obtain ⟨u, hu⟩ := ihq
    exact ⟨t ++ u, ht.trans hu⟩
  | altLeft _ ih | altRight _ ih => exact ih
  | group _ ih =>
    obtain ⟨t, ht⟩ := ih
    exact ⟨t, ht.record _ _⟩

theorem leads_seq {p q : Pattern} {c c' : Cursor} :
    Leads (.seq p q) c c' ↔ ∃ c₁, Leads p c c₁ ∧ Leads q c₁ c' :=
  ⟨fun h => by cases h with | seq hp hq => exact ⟨_, hp, hq⟩, fun ⟨_, hp, hq⟩ => .seq hp hq⟩

theorem leads_nothing {c c' : Cursor} : Leads .nothing c c' ↔ c' = c :=
  ⟨fun h => by cases h; rfl, fun h => h ▸ .nothing c⟩

theorem leads_seqs_cons {p : Pattern} {ps : List Pattern} {c c' : Cursor} :
    Leads (seqs (p :: ps)) c c' ↔ ∃ c₁, Leads p c c₁ ∧ Leads (seqs ps) c₁ c' :=
  leads_seq

theorem leads_alt {p q : Pattern} {c c' : Cursor} :
    Leads (.alt p q) c c' ↔ Leads p c c' ∨ Leads q c c' := by
  constructor
  · intro h
    cases h with
    | altLeft hp => exact Or.inl hp
    | altRight hq => exact Or.inr hq
  · rintro (hp | hq)
    · exact .altLeft hp
    · exact .altRight hq

theorem leads_wordEdge {c c' : Cursor} :
    Leads .wordEdge c c' ↔ c' = c ∧ c.atWordEdge = true :=
  ⟨fun h => by cases h with | wordEdge h => exact ⟨rfl, h⟩, fun ⟨rfl, h⟩ => .wordEdge h⟩

theorem leads_group {n : Nat} {p : Pattern} {c c' : Cursor} :
    Leads (.group n p) c c' ↔ ∃ c₁, Leads p c c₁ ∧ c' = c₁.record n c :=
  ⟨fun h => by cases h with | group hp => exact ⟨_, hp, rfl⟩, fun ⟨_, hp, h⟩ => h ▸ .group hp⟩

/-! ## Matches -/

/-- A match is a stretch that the pattern leads over. -/
theorem leads_of_matchHere? {p : Pattern} {prev : Option UInt8} {s : Bytes} {m : Match}
    (h : p.matchHere? prev s = some m) :
    ∃ c', Leads p { prev, rest := s } c' ∧ Cursor.Takes { prev, rest := s } m.text c' ∧
      m.before = [] ∧ m.after = c'.rest ∧
      m.groups = c'.groups.map fun g => (g.number, g.text s) := by
  simp only [matchHere?, Option.map_eq_some_iff] at h
  obtain ⟨c, hc, rfl⟩ := h
  obtain ⟨c', hleads, hk⟩ := sound_run p _ _ _ hc
  obtain rfl : c' = c := Option.some.inj hk
  obtain ⟨t, ht⟩ := hleads.takes
  have htext : s.take c'.taken = t := by
    have hrest : s = t ++ c'.rest := ht.rest
    have htaken : c'.taken = t.length := ht.taken.trans (Nat.zero_add _)
    rw [htaken, hrest, List.take_left']
    rfl
  exact ⟨c', hleads, by rw [htext]; exact ht, rfl, rfl, rfl⟩

theorem findFrom?_of_matchHere? {p : Pattern} {prev : Option UInt8} {s : Bytes} {m : Match}
    (h : p.matchHere? prev s = some m) : p.findFrom? 0 prev s = some m := by
  cases s with
  | nil => exact h
  | cons b s => rw [findFrom?, h]

/-- The byte in front of a place, from the text before it. -/
theorem getLast?_cons_or (x : UInt8) (a : Bytes) (prev : Option UInt8) :
    (x :: a).getLast?.or prev = a.getLast?.or (some x) := by
  rw [List.getLast?_cons]
  cases a.getLast? <;> rfl

/-- A match that is found is a match at its place. -/
theorem matchHere?_of_findFrom? {p : Pattern} {skip : Nat} {prev : Option UInt8} {s : Bytes}
    {m : Match} (h : p.findFrom? skip prev s = some m) :
    p.matchHere? (m.before.getLast?.or prev) (m.text ++ m.after)
      = some { m with before := [] } := by
  have hhere : ∀ {prev : Option UInt8} {s : Bytes} {m : Match}, p.matchHere? prev s = some m →
      p.matchHere? (m.before.getLast?.or prev) (m.text ++ m.after)
        = some { m with before := [] } := by
    intro prev s m hm
    obtain ⟨_, _, _, hbefore, _⟩ := leads_of_matchHere? hm
    have htext := text_of_matchHere? hm
    obtain ⟨before, text, after, groups⟩ := m
    subst hbefore
    rw [List.nil_append] at htext
    rw [htext]
    exact hm
  induction s generalizing skip prev m with
  | nil =>
    cases skip with
    | zero => exact hhere (by simpa [findFrom?] using h)
    | succ n => simp [findFrom?] at h
  | cons b s ih =>
    -- a match further on is one of the rest of the text, with a byte more in front
    have hshift : ∀ {skip' : Nat}, (p.findFrom? skip' (some b) s).map (Match.shift b) = some m →
        p.matchHere? (m.before.getLast?.or prev) (m.text ++ m.after)
          = some { m with before := [] } := by
      intro skip' hm
      obtain ⟨m', hm', rfl⟩ := Option.map_eq_some_iff.1 hm
      rw [Match.shift, getLast?_cons_or]
      exact ih hm'
    cases skip with
    | zero =>
      rw [findFrom?] at h
      split at h
      · rename_i m' hm'
        cases h
        exact hhere hm'
      · exact hshift h
    | succ n =>
      rw [findFrom?] at h
      exact hshift h

/-! ## Passing over text -/

/-- No match starts in `a`, which stands between the byte `prev` and the text `b`. -/
def NoMatchIn (p : Pattern) (prev : Option UInt8) (a b : Bytes) : Prop :=
  ∀ a₁ x a₂, a = a₁ ++ x :: a₂ →
    p.matchHere? (a₁.getLast?.or prev) (x :: (a₂ ++ b)) = none

theorem noMatchIn_nil (p : Pattern) (prev : Option UInt8) (b : Bytes) :
    p.NoMatchIn prev [] b := by
  intro a₁ x a₂ h
  simp at h

theorem noMatchIn_cons {p : Pattern} {prev : Option UInt8} {x : UInt8} {a b : Bytes} :
    p.NoMatchIn prev (x :: a) b ↔
      p.matchHere? prev (x :: (a ++ b)) = none ∧ p.NoMatchIn (some x) a b := by
  constructor
  · intro h
    refine ⟨h [] x a rfl, ?_⟩
    intro a₁ y a₂ ha
    have hhere := h (x :: a₁) y a₂ (by rw [ha]; rfl)
    rwa [getLast?_cons_or] at hhere
  · rintro ⟨hhere, hrest⟩ a₁ y a₂ ha
    cases a₁ with
    | nil =>
      obtain ⟨rfl, rfl⟩ := List.cons.inj ha
      exact hhere
    | cons z a₁ =>
      rw [List.cons_append, List.cons.injEq] at ha
      obtain ⟨rfl, ha⟩ := ha
      rw [getLast?_cons_or]
      exact hrest a₁ y a₂ ha

theorem noMatchIn_append {p : Pattern} {prev : Option UInt8} {a₁ a₂ b : Bytes} :
    p.NoMatchIn prev (a₁ ++ a₂) b ↔
      p.NoMatchIn prev a₁ (a₂ ++ b) ∧ p.NoMatchIn (a₁.getLast?.or prev) a₂ b := by
  induction a₁ generalizing prev with
  | nil => simp [noMatchIn_nil]
  | cons x a₁ ih =>
    rw [List.cons_append, noMatchIn_cons, ih, noMatchIn_cons, List.append_assoc,
      getLast?_cons_or, and_assoc]

/-- A character ends at the latest in front of the next byte below 128. -/
theorem lead_le_length {x : UInt8} {a : Bytes}
    (ha : ∀ y, (x :: a).getLast? = some y → y < 128) (b : Bytes) :
    (Utf8.lead x (a ++ b)).2 ≤ a.length := by
  cases hlast : a.getLast? with
  | none =>
    obtain rfl := List.getLast?_eq_none_iff.1 hlast
    rw [Utf8.lead_ascii (ha x rfl)]
    exact Nat.le_refl 0
  | some y =>
    have hy : y < 128 := ha y (by rw [List.getLast?_cons, hlast]; rfl)
    refine Nat.le_of_not_lt fun hlt => ?_
    have hmem : y ∈ (a ++ b).take (Utf8.lead x (a ++ b)).2 := by
      rw [List.take_append, List.take_of_length_le (Nat.le_of_lt hlt), List.mem_append]
      exact Or.inl (List.mem_of_getLast? hlast)
    exact absurd ((Utf8.lead_continuation x _).2 y hmem) (UInt8.not_le.2 hy)

theorem findFrom?_skip_le {p : Pattern} (hp : p.leadRun? = none) {a : Bytes}
    (ha : ∀ x, a.getLast? = some x → x < 128) {prev : Option UInt8} {b : Bytes}
    (hno : p.NoMatchIn prev a b) {skip : Nat} (hskip : skip ≤ a.length) :
    p.findFrom? skip prev (a ++ b)
      = (p.findFrom? 0 (a.getLast?.or prev) b).map
          fun m => { m with before := a ++ m.before } := by
  induction a generalizing skip prev with
  | nil =>
    obtain rfl : skip = 0 := Nat.le_zero.1 hskip
    simp
  | cons x a ih =>
    have hlast : ∀ y, a.getLast? = some y → y < 128 := by
      intro y hy
      apply ha
      rw [List.getLast?_cons, hy]
      rfl
    obtain ⟨hhere, hno⟩ := noMatchIn_cons.1 hno
    have hnext : ∀ n ≤ a.length, (p.findFrom? n (some x) (a ++ b)).map (Match.shift x)
        = (p.findFrom? 0 ((x :: a).getLast?.or prev) b).map
            fun m => { m with before := x :: a ++ m.before } := by
      intro n hn
      rw [ih hlast hno hn, Option.map_map, getLast?_cons_or]
      rfl
    cases skip with
    | zero =>
      rw [List.cons_append, findFrom?, hhere]
      apply hnext
      have hstride : p.stride x (a ++ b) = (Utf8.lead x (a ++ b)).2 := by simp [stride, hp]
      rw [hstride]
      exact lead_le_length ha b
    | succ n =>
      rw [List.cons_append, findFrom?]
      exact hnext n (Nat.le_of_succ_le_succ hskip)

/-- The search passes over a text in which no match starts. -/
theorem findFrom?_skip {p : Pattern} (hp : p.leadRun? = none) {a : Bytes}
    (ha : ∀ x, a.getLast? = some x → x < 128) {prev : Option UInt8} {b : Bytes}
    (hno : p.NoMatchIn prev a b) :
    p.findFrom? 0 prev (a ++ b)
      = (p.findFrom? 0 (a.getLast?.or prev) b).map
          fun m => { m with before := a ++ m.before } :=
  findFrom?_skip_le hp ha hno (Nat.zero_le _)

/-- A character ends in front of a byte below 128. -/
theorem lead_le_of_ascii {x : UInt8} (hx : x < 128) (y : UInt8) (a b : Bytes) :
    (Utf8.lead y (a ++ x :: b)).2 ≤ a.length := by
  refine Nat.le_of_not_lt fun hlt => ?_
  have hmem : x ∈ (a ++ x :: b).take (Utf8.lead y (a ++ x :: b)).2 := by
    rw [List.take_append, List.mem_append]
    right
    obtain ⟨n, hn⟩ := Nat.exists_eq_succ_of_ne_zero (Nat.sub_ne_zero_of_lt hlt)
    rw [hn, List.take_succ_cons]
    exact List.mem_cons_self
  exact absurd ((Utf8.lead_continuation y _).2 x hmem) (UInt8.not_le.2 hx)

theorem exists_findFrom?_of_skip_le {p : Pattern} (hp : p.leadRun? = none) {a b : Bytes}
    {x : UInt8} (hx : x < 128) {prev : Option UInt8} {m₀ : Match}
    (h : p.matchHere? (a.getLast?.or prev) (x :: b) = some m₀) {skip : Nat}
    (hskip : skip ≤ a.length) :
    ∃ m, p.findFrom? skip prev (a ++ x :: b) = some m ∧ m.before.length ≤ a.length := by
  induction a generalizing skip prev with
  | nil =>
    obtain rfl := Nat.le_zero.1 hskip
    obtain ⟨_, _, _, hbefore, _⟩ := leads_of_matchHere? h
    refine ⟨m₀, ?_, Nat.le_of_eq (by rw [hbefore])⟩
    rw [List.nil_append, findFrom?, show p.matchHere? prev (x :: b) = some m₀ from h]
  | cons y a ih =>
    rw [getLast?_cons_or] at h
    have hnext : ∀ n ≤ a.length, ∃ m,
        (p.findFrom? n (some y) (a ++ x :: b)).map (Match.shift y) = some m ∧
          m.before.length ≤ (y :: a).length := by
      intro n hn
      obtain ⟨m, hm, hlen⟩ := ih h hn
      refine ⟨m.shift y, by rw [hm]; rfl, ?_⟩
      exact Nat.succ_le_succ hlen
    cases skip with
    | succ n =>
      rw [List.cons_append, findFrom?]
      exact hnext n (Nat.le_of_succ_le_succ hskip)
    | zero =>
      rw [List.cons_append, findFrom?]
      cases hhere : p.matchHere? prev (y :: (a ++ x :: b)) with
      | some m =>
        obtain ⟨_, _, _, hbefore, _⟩ := leads_of_matchHere? hhere
        exact ⟨m, rfl, by rw [hbefore]; exact Nat.zero_le _⟩
      | none =>
        have hstride : p.stride y (a ++ x :: b) = (Utf8.lead y (a ++ x :: b)).2 := by
          simp [stride, hp]
        exact hnext _ (by rw [hstride]; exact lead_le_of_ascii hx y a b)

/-- The search finds a match that starts with a byte below 128, or one further left. -/
theorem exists_findFrom?_le {p : Pattern} (hp : p.leadRun? = none) {a b : Bytes} {x : UInt8}
    (hx : x < 128) {prev : Option UInt8} {m₀ : Match}
    (h : p.matchHere? (a.getLast?.or prev) (x :: b) = some m₀) :
    ∃ m, p.findFrom? 0 prev (a ++ x :: b) = some m ∧ m.before.length ≤ a.length :=
  exists_findFrom?_of_skip_le hp hx h (Nat.zero_le _)

/-! ## Replacement -/

/-- What replacing makes of the text behind the byte `prev`. -/
def rewriteFrom (p : Pattern) (f : Match → Bytes) (prev : Option UInt8) (s : Bytes) : Bytes :=
  (p.allFrom prev s).flatMap (fun m => m.before ++ f m)
    ++ (((p.allFrom prev s).getLast?.map Match.after).getD s)

theorem replaceWith_eq (p : Pattern) (f : Match → Bytes) (s : Bytes) :
    p.replaceWith f s = p.rewriteFrom f none s :=
  rfl

/-- Replacing goes on behind the first match. -/
theorem rewriteFrom_eq (p : Pattern) (f : Match → Bytes) (prev : Option UInt8) (s : Bytes) :
    p.rewriteFrom f prev s
      = match p.findFrom? 0 prev s with
        | none => s
        | some m =>
          if m.after.length < s.length then
            m.before ++ f m ++ p.rewriteFrom f m.text.getLast? m.after
          else s := by
  rw [rewriteFrom, allFrom]
  cases p.findFrom? 0 prev s with
  | none => rfl
  | some m =>
    dsimp only
    split
    · simp only [List.flatMap_cons, rewriteFrom, List.append_assoc, List.getLast?_cons]
      cases (p.allFrom m.text.getLast? m.after).getLast? <;> simp
    · rfl

theorem rewriteFrom_nil (p : Pattern) (f : Match → Bytes) (prev : Option UInt8) :
    p.rewriteFrom f prev [] = [] := by
  rw [rewriteFrom_eq]
  cases p.findFrom? 0 prev [] with
  | none => rfl
  | some m => exact if_neg (Nat.not_lt_zero _)

/-- Replacing keeps the text in front in which no match starts. -/
theorem rewriteFrom_skip {p : Pattern} (hp : p.leadRun? = none) (f : Match → Bytes) {a : Bytes}
    (ha : ∀ x, a.getLast? = some x → x < 128) {prev : Option UInt8} {b : Bytes}
    (hno : p.NoMatchIn prev a b) : ∃ b', p.rewriteFrom f prev (a ++ b) = a ++ b' := by
  rw [rewriteFrom_eq, findFrom?_skip hp ha hno]
  cases p.findFrom? 0 (a.getLast?.or prev) b with
  | none => exact ⟨b, rfl⟩
  | some m =>
    dsimp only [Option.map_some]
    split
    · exact ⟨_, by rw [List.append_assoc, List.append_assoc]⟩
    · exact ⟨b, rfl⟩

end Pattern

end SqlDialect
