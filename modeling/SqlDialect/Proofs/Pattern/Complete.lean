import SqlDialect.Proofs.Pattern.Context
import SqlDialect.Proofs.Text.OneLine

set_option autoImplicit false

/-! # What the search cannot miss

The matcher tries everything that a pattern can mean: where the pattern leads somewhere, the matcher
finds a match (`isSome_matchHere?_iff`). The search passes over bytes in two ways. It moves on by
whole characters, so it stops at every byte below 128; and behind a place where a pattern with
a leading run does not match it skips the rest of the run, in which there is no match either, since
the run could have started earlier (`exists_leads_before`). So a pattern occurs in a text exactly if
it leads somewhere from a place of the text (`occursIn_iff`), as long as its matches start with a
byte below 128. -/

namespace SqlDialect

open Bytes

namespace Pattern

/-! ## One place in two matches -/

/-- The cursors stand at one place of a text; what was taken and recorded before may differ. -/
structure Cursor.SamePlace (c d : Cursor) : Prop where
  rest : d.rest = c.rest
  prev : d.prev = c.prev

namespace Cursor.SamePlace

variable {c d c' d' : Cursor} {t : Bytes}

theorem refl (c : Cursor) : c.SamePlace c :=
  ⟨rfl, rfl⟩

theorem record (h : c'.SamePlace d') (n : Nat) (c d : Cursor) :
    (c'.record n c).SamePlace (d'.record n d) :=
  ⟨h.rest, h.prev⟩

/-- The same text taken from the same place ends at the same place. -/
theorem takes (h : c.SamePlace d) (hc : c.Takes t c') (hd : d.Takes t d') : c'.SamePlace d' where
  rest := List.append_cancel_left (hd.rest.symm.trans (h.rest.trans hc.rest))
  prev := by rw [hd.prev, hc.prev, h.prev]

theorem of_takes_nil (h : c.SamePlace d) (hc : c.Takes [] c') : c'.SamePlace d :=
  h.takes hc (.refl d)

end Cursor.SamePlace

/-- The next character does not depend on what is in front of it. -/
theorem Cursor.next?_of_rest {c d : Cursor} (hrest : d.rest = c.rest) {code : Nat} {c' : Cursor}
    (h : c.next? = some (code, c')) : ∃ d', d.next? = some (code, d') ∧ c'.SamePlace d' := by
  rw [Cursor.next?] at h ⊢
  rw [hrest]
  split at h
  · cases h
  · obtain ⟨hcode, rfl⟩ := Prod.mk.inj (Option.some.inj h)
    exact ⟨_, congrArg some (Prod.ext hcode rfl), ⟨rfl, rfl⟩⟩

theorem leads_one_of_rest {set : CharSet} {c c' d : Cursor} (h : Leads (.one set) c c')
    (hrest : d.rest = c.rest) : ∃ d', Leads (.one set) d d' ∧ c'.SamePlace d' := by
  cases h with
  | one hnext hset =>
    obtain ⟨d', hd, hsame⟩ := Cursor.next?_of_rest hrest hnext
    exact ⟨d', .one hd hset, hsame⟩

/-- Where a pattern leads depends on the place alone. -/
theorem Leads.samePlace {p : Pattern} {c c' d : Cursor} (h : Leads p c c') (hcd : c.SamePlace d) :
    ∃ d', Leads p d d' ∧ c'.SamePlace d' := by
  induction h generalizing d with
  | nothing => exact ⟨d, .nothing d, hcd⟩
  | one hnext hset => exact leads_one_of_rest (.one hnext hset) hcd.rest
  | wordEdge hedge =>
    refine ⟨d, .wordEdge ?_, hcd⟩
    rwa [Cursor.atWordEdge, hcd.rest, hcd.prev]
  | textStart hstart => exact ⟨d, .textStart (hcd.prev.trans hstart), hcd⟩
  | textEnd hend => exact ⟨d, .textEnd (hcd.rest.trans hend), hcd⟩
  | seq _ _ ihp ihq =>
    obtain ⟨d₁, hp, h₁⟩ := ihp hcd
    obtain ⟨d₂, hq, h₂⟩ := ihq h₁
    exact ⟨d₂, .seq hp hq, h₂⟩
  | altLeft _ ih =>
    obtain ⟨d', hp, h'⟩ := ih hcd
    exact ⟨d', .altLeft hp, h'⟩
  | altRight _ ih =>
    obtain ⟨d', hq, h'⟩ := ih hcd
    exact ⟨d', .altRight hq, h'⟩
  | manyNone p => exact ⟨d, .manyNone p d, hcd⟩
  | manyMore _ _ ihp ihrest =>
    obtain ⟨d₁, hp, h₁⟩ := ihp hcd
    obtain ⟨d₂, hrest, h₂⟩ := ihrest h₁
    exact ⟨d₂, .manyMore hp hrest, h₂⟩
  | lazyNone p => exact ⟨d, .lazyNone p d, hcd⟩
  | lazyMore _ _ ihp ihrest =>
    obtain ⟨d₁, hp, h₁⟩ := ihp hcd
    obtain ⟨d₂, hrest, h₂⟩ := ihrest h₁
    exact ⟨d₂, .lazyMore hp hrest, h₂⟩
  | group _ ih =>
    obtain ⟨d', hp, h'⟩ := ih hcd
    exact ⟨_, .group hp, h'.record _ _ _⟩

/-! ## More text behind -/

/-- The same place in a text that goes on with `r`. -/
structure Cursor.Longer (r : Bytes) (c d : Cursor) : Prop where
  rest : d.rest = c.rest ++ r
  prev : d.prev = c.prev

/-- A character in front of an ASCII byte is the same whatever stands behind that byte. -/
theorem Cursor.next?_longer {c c' d : Cursor} {code : Nat} (h : c.next? = some (code, c'))
    {u r : Bytes} {x : UInt8} (hx : x < 128) (hend : c'.rest = u ++ [x]) (hcd : c.Longer r d) :
    ∃ d', d.next? = some (code, d') ∧ c'.Longer r d' := by
  rw [Cursor.next?] at h
  split at h
  · cases h
  · rename_i b s hrest
    simp only [Option.some.injEq, Prod.mk.injEq] at h
    obtain ⟨rfl, rfl⟩ := h
    dsimp only at hend
    have hs : s = s.take (Utf8.lead b s).2 ++ u ++ [x] := by
      rw [List.append_assoc, ← hend, List.take_append_drop]
    have hlead : Utf8.lead b (s ++ r) = Utf8.lead b s := by
      generalize s.take (Utf8.lead b s).2 ++ u = a at hs
      rw [hs, List.append_assoc, List.singleton_append, Utf8.lead_append_ascii hx,
        Utf8.lead_append_ascii hx]
    have hle : (Utf8.lead b s).2 ≤ s.length := by
      have hlen := congrArg List.length hend
      rw [List.length_drop, List.length_append, List.length_singleton] at hlen
      omega
    have hnext : d.next? = some ((Utf8.lead b s).1,
        { d with
          prev := some ((s.take (Utf8.lead b s).2).getLastD b)
          rest := s.drop (Utf8.lead b s).2 ++ r
          taken := d.taken + (s.take (Utf8.lead b s).2).length + 1 }) := by
      simp only [Cursor.next?, hcd.rest, hrest, List.cons_append, hlead,
        List.take_append_of_le_length hle, List.drop_append_of_le_length hle]
    exact ⟨_, hnext, rfl, rfl⟩

/-- A pattern that leads up to an ASCII byte does so whatever stands behind that byte. -/
theorem Leads.longer {p : Pattern} {c c' d : Cursor} (h : Leads p c c') {u r : Bytes} {x : UInt8}
    (hx : x < 128) (hend : c'.rest = u ++ [x]) (hcd : c.Longer r d) :
    ∃ d', Leads p d d' ∧ c'.Longer r d' := by
  -- the last byte is not taken, so it is still there wherever a part of the match ends
  have hbefore : ∀ {q : Pattern} {c₁ c₂ : Cursor} {v : Bytes}, Leads q c₁ c₂ → c₂.rest = v ++ [x] →
      ∃ w, c₁.rest = w ++ [x] := by
    intro q c₁ c₂ v hq hv
    obtain ⟨t, ht⟩ := hq.takes
    exact ⟨t ++ v, by rw [ht.rest, hv, List.append_assoc]⟩
  induction h generalizing d u with
  | nothing c => exact ⟨d, .nothing d, hcd⟩
  | one hnext hset =>
    obtain ⟨d', hd, hlonger⟩ := Cursor.next?_longer hnext hx hend hcd
    exact ⟨d', .one hd hset, hlonger⟩
  | @wordEdge c hedge =>
    have hhead : d.rest.head? = c.rest.head? := by
      rw [hcd.rest, hend]
      cases u <;> rfl
    refine ⟨d, .wordEdge ?_, hcd⟩
    rwa [Cursor.atWordEdge, hhead, hcd.prev]
  | textStart hstart => exact ⟨d, .textStart (hcd.prev.trans hstart), hcd⟩
  -- the end of the text is not reached in front of the last byte
  | textEnd hnil =>
    rw [hnil] at hend
    exact absurd hend.symm (List.append_ne_nil_of_right_ne_nil _ (List.cons_ne_nil _ _))
  | seq hp hq ihp ihq =>
    obtain ⟨w, hw⟩ := hbefore hq hend
    obtain ⟨d₁, hp', h₁⟩ := ihp hw hcd
    obtain ⟨d₂, hq', h₂⟩ := ihq hend h₁
    exact ⟨d₂, .seq hp' hq', h₂⟩
  | altLeft _ ih =>
    obtain ⟨d', hp, h'⟩ := ih hend hcd
    exact ⟨d', .altLeft hp, h'⟩
  | altRight _ ih =>
    obtain ⟨d', hq, h'⟩ := ih hend hcd
    exact ⟨d', .altRight hq, h'⟩
  | manyNone p => exact ⟨d, .manyNone p d, hcd⟩
  | manyMore hp hrest ihp ihrest =>
    obtain ⟨w, hw⟩ := hbefore hrest hend
    obtain ⟨d₁, hp', h₁⟩ := ihp hw hcd
    obtain ⟨d₂, hrest', h₂⟩ := ihrest hend h₁
    exact ⟨d₂, .manyMore hp' hrest', h₂⟩
  | lazyNone p => exact ⟨d, .lazyNone p d, hcd⟩
  | lazyMore hp hrest ihp ihrest =>
    obtain ⟨w, hw⟩ := hbefore hrest hend
    obtain ⟨d₁, hp', h₁⟩ := ihp hw hcd
    obtain ⟨d₂, hrest', h₂⟩ := ihrest hend h₁
    exact ⟨d₂, .lazyMore hp' hrest', h₂⟩
  | group _ ih =>
    obtain ⟨d', hp, h'⟩ := ih hend hcd
    exact ⟨_, .group hp, ⟨h'.rest, h'.prev⟩⟩

/-! ## Whatever a pattern means is found -/

section

variable {α : Type} {body : Cursor → (Cursor → Option α) → Option α}

/-- A step of the matcher finds something wherever the pattern leads over a text behind which the
rest of the match does. -/
def Complete (p : Pattern) (body : Cursor → (Cursor → Option α) → Option α) : Prop :=
  ∀ c c' t, Leads p c c' → c.Takes t c' → ∀ d k, c.SamePlace d →
    (∀ d', d.Takes t d' → (k d').isSome) → (body d k).isSome

theorem isSome_orElse {o₁ o₂ : Option α} (h : o₁.isSome ∨ o₂.isSome) :
    (match o₁ with | some r => some r | none => o₂).isSome := by
  cases o₁ with
  | some r => rfl
  | none => exact h.resolve_left Bool.false_ne_true

/-- A round that takes something is within the bound, and one that takes nothing can be left out. -/
theorem complete_repeatGreedy {p : Pattern} (hbody : Complete p body) {c c' d : Cursor} {t : Bytes}
    {k : Cursor → Option α} (h : Leads (.many p) c c') (ht : c.Takes t c') (hcd : c.SamePlace d)
    (hk : ∀ d', d.Takes t d' → (k d').isSome) {left : Bytes}
    (hleft : d.rest.length ≤ left.length) : (repeatGreedy body k left d).isSome := by
  generalize hq : many p = q at h
  induction h generalizing d t left with
  | manyNone =>
    obtain rfl := ht.unique (.refl _)
    have hd := hk d (.refl d)
    cases left with
    | nil => exact hd
    | cons b left => exact isSome_orElse (Or.inr hd)
  | @manyMore _ c c₁ c₂ hp hrest _ ih =>
    cases hq
    obtain ⟨u, hu⟩ := hp.takes
    obtain ⟨v, hv⟩ := hrest.takes
    obtain rfl := ht.unique (hu.trans hv)
    by_cases hnil : u = []
    · subst hnil
      exact ih hv (hcd.of_takes_nil hu) hk hleft rfl
    · have hlen : 0 < u.length := List.length_pos_iff.2 hnil
      cases left with
      | nil =>
        rw [hcd.rest, hu.rest, List.length_append, List.length_nil] at hleft
        omega
      | cons b left =>
        refine isSome_orElse (Or.inl (hbody _ _ u hp hu d _ hcd fun d₁ hd₁ => ?_))
        rw [if_pos (hd₁.taken_lt hnil)]
        refine ih hv (hcd.takes hu hd₁) (fun d₂ hd₂ => hk d₂ (hd₁.trans hd₂)) ?_ rfl
        rw [hd₁.rest, List.length_append, List.length_cons] at hleft
        omega
  | _ => cases hq

theorem complete_repeatLazy {p : Pattern} (hbody : Complete p body) {c c' d : Cursor} {t : Bytes}
    {k : Cursor → Option α} (h : Leads (.manyLazy p) c c') (ht : c.Takes t c')
    (hcd : c.SamePlace d) (hk : ∀ d', d.Takes t d' → (k d').isSome) {left : Bytes}
    (hleft : d.rest.length ≤ left.length) : (repeatLazy body k left d).isSome := by
  generalize hq : manyLazy p = q at h
  induction h generalizing d t left with
  | lazyNone =>
    obtain rfl := ht.unique (.refl _)
    have hd := hk d (.refl d)
    cases left with
    | nil => exact hd
    | cons b left => exact isSome_orElse (Or.inl hd)
  | @lazyMore _ c c₁ c₂ hp hrest _ ih =>
    cases hq
    obtain ⟨u, hu⟩ := hp.takes
    obtain ⟨v, hv⟩ := hrest.takes
    obtain rfl := ht.unique (hu.trans hv)
    by_cases hnil : u = []
    · subst hnil
      exact ih hv (hcd.of_takes_nil hu) hk hleft rfl
    · have hlen : 0 < u.length := List.length_pos_iff.2 hnil
      cases left with
      | nil =>
        rw [hcd.rest, hu.rest, List.length_append, List.length_nil] at hleft
        omega
      | cons b left =>
        refine isSome_orElse (Or.inr (hbody _ _ u hp hu d _ hcd fun d₁ hd₁ => ?_))
        rw [if_pos (hd₁.taken_lt hnil)]
        refine ih hv (hcd.takes hu hd₁) (fun d₂ hd₂ => hk d₂ (hd₁.trans hd₂)) ?_ rfl
        rw [hd₁.rest, List.length_append, List.length_cons] at hleft
        omega
  | _ => cases hq

end

/-- The matcher finds something wherever the pattern matches. -/
theorem complete_run {α : Type} (p : Pattern) : @Complete α p p.run := by
  induction p with
  | nothing =>
    intro c c' t h ht d k _ hk
    cases h
    obtain rfl := ht.unique (.refl _)
    exact hk d (.refl d)
  | one set =>
    intro c c' t h ht d k hcd hk
    -- a text determines the match of a set, so both take the same character
    obtain ⟨d', hd, hsame⟩ := leads_one_of_rest h hcd.rest
    obtain ⟨u, hu⟩ := hd.takes
    have hut : u = t := by
      have hrest := hu.rest
      rw [hcd.rest, ht.rest, hsame.rest] at hrest
      exact (List.append_cancel_right hrest).symm
    cases hd with
    | one hnext hset =>
      rw [run, hnext]
      dsimp only
      rw [if_pos hset]
      exact hk d' (hut ▸ hu)
  | wordEdge =>
    intro c c' t h ht d k hcd hk
    obtain ⟨rfl, hedge⟩ := leads_wordEdge.1 h
    obtain rfl := ht.unique (.refl _)
    rw [run, if_pos (by rwa [Cursor.atWordEdge, hcd.rest, hcd.prev])]
    exact hk d (.refl d)
  | textStart =>
    intro c c' t h ht d k hcd hk
    cases h with
    | textStart hstart =>
      obtain rfl := ht.unique (.refl _)
      rw [run, if_pos (by rw [hcd.prev, hstart]; rfl)]
      exact hk d (.refl d)
  | textEnd =>
    intro c c' t h ht d k hcd hk
    cases h with
    | textEnd hend =>
      obtain rfl := ht.unique (.refl _)
      rw [run, if_pos (by rw [hcd.rest, hend]; rfl)]
      exact hk d (.refl d)
  | seq p q ihp ihq =>
    intro c c' t h ht d k hcd hk
    obtain ⟨c₁, hp, hq⟩ := leads_seq.1 h
    obtain ⟨u, hu⟩ := hp.takes
    obtain ⟨v, hv⟩ := hq.takes
    obtain rfl := ht.unique (hu.trans hv)
    refine ihp c c₁ u hp hu d _ hcd fun d₁ hd₁ => ?_
    exact ihq c₁ c' v hq hv d₁ k (hcd.takes hu hd₁) fun d₂ hd₂ => hk d₂ (hd₁.trans hd₂)
  | alt p q ihp ihq =>
    intro c c' t h ht d k hcd hk
    apply isSome_orElse
    rcases leads_alt.1 h with hp | hq
    · exact Or.inl (ihp c c' t hp ht d k hcd hk)
    · exact Or.inr (ihq c c' t hq ht d k hcd hk)
  | many p ih =>
    exact fun c c' t h ht d k hcd hk => complete_repeatGreedy ih h ht hcd hk (Nat.le_refl _)
  | manyLazy p ih =>
    exact fun c c' t h ht d k hcd hk => complete_repeatLazy ih h ht hcd hk (Nat.le_refl _)
  | group n p ih =>
    intro c c' t h ht d k hcd hk
    obtain ⟨c₁, hp, rfl⟩ := leads_group.1 h
    refine ih c c₁ t hp ⟨ht.rest, ht.taken, ht.prev⟩ d _ hcd fun d₁ hd₁ => ?_
    exact hk _ (hd₁.record n d)

/-- A pattern matches at a place exactly if it leads somewhere from there. -/
theorem isSome_matchHere?_iff {p : Pattern} {prev : Option UInt8} {s : Bytes} :
    (p.matchHere? prev s).isSome = true ↔ ∃ c', Leads p { prev, rest := s } c' := by
  constructor
  · intro h
    obtain ⟨m, hm⟩ := Option.isSome_iff_exists.1 h
    obtain ⟨c', hleads, -⟩ := leads_of_matchHere? hm
    exact ⟨c', hleads⟩
  · rintro ⟨c', h⟩
    obtain ⟨t, ht⟩ := h.takes
    rw [matchHere?, Option.isSome_map]
    exact complete_run p _ c' t h ht _ some (.refl _) fun _ _ => rfl

/-! ## Runs at the start -/

/-- A pattern with a leading run matches one character of the run earlier as well. -/
theorem exists_leads_before {p : Pattern} {set : CharSet} (hp : p.leadRun? = some set)
    {c c₁ c' : Cursor} {code : Nat} (hnext : c.next? = some (code, c₁))
    (hset : set.contains code = true) (h : Leads p c₁ c') :
    ∃ c'', Leads p c c'' ∧ c'.SamePlace c'' := by
  fun_induction leadRun? p generalizing c c₁ c' code with
  | case1 set' =>
    obtain rfl := Option.some.inj hp
    exact ⟨c', .manyMore (.one hnext hset) h, .refl c'⟩
  | case2 set' =>
    obtain rfl := Option.some.inj hp
    exact ⟨c', .lazyMore (.one hnext hset) h, .refl c'⟩
  | case3 set' q hq ih =>
    obtain rfl := Option.some.inj hp
    obtain ⟨c₂, hone, hrest⟩ := leads_seq.1 h
    cases hone with
    | one hnext' hset' =>
      obtain ⟨c'', hlead, hsame⟩ := ih hq hnext' hset' hrest
      exact ⟨c'', .seq (.one hnext hset) hlead, hsame⟩
  | case4 set' q hq ih => cases hp
  | case5 p q _ ih =>
    obtain ⟨c₂, hlead, hrest⟩ := leads_seq.1 h
    obtain ⟨d₂, hd₂, hsame₂⟩ := ih hp hnext hset hlead
    obtain ⟨d', hd', hsame⟩ := hrest.samePlace hsame₂
    exact ⟨d', .seq hd₂ hd', hsame⟩
  | case6 n p ih =>
    obtain ⟨c₂, hlead, rfl⟩ := leads_group.1 h
    obtain ⟨d₂, hd₂, hsame⟩ := ih hp hnext hset hlead
    exact ⟨_, .group hd₂, hsame.record _ _ _⟩
  | case7 => cases hp

/-- The place `a` bytes into the text `a ++ b`. -/
def Cursor.behind (prev : Option UInt8) (a b : Bytes) : Cursor :=
  { prev := a.getLast?.or prev, rest := b }

theorem exists_leads_run {p : Pattern} {set : CharSet} (hp : p.leadRun? = some set) {a b : Bytes}
    (ha : ∀ x ∈ a, x < 128 ∧ set.contains x.toNat = true) {prev : Option UInt8}
    (h : ∃ c', Leads p (.behind prev a b) c') : ∃ c', Leads p { prev, rest := a ++ b } c' := by
  induction a generalizing prev with
  | nil => exact h
  | cons y a ih =>
    obtain ⟨⟨hy, hset⟩, ha⟩ := List.forall_mem_cons.1 ha
    have hbehind : ∃ c', Leads p (.behind (some y) a b) c' := by
      rwa [Cursor.behind, ← getLast?_cons_or y a prev]
    obtain ⟨c', hc'⟩ := ih ha hbehind
    have hnext : Cursor.next? { prev, rest := y :: (a ++ b) }
        = some (y.toNat, { prev := some y, rest := a ++ b, taken := 1 }) := by
      simp [Cursor.next?, Utf8.lead_ascii hy]
    obtain ⟨d', hd', -⟩ := hc'.samePlace (d := { prev := some y, rest := a ++ b, taken := 1 })
      ⟨rfl, rfl⟩
    obtain ⟨c'', hc'', -⟩ := exists_leads_before hp hnext hset hd'
    exact ⟨c'', hc''⟩

/-! ## Searching -/

theorem forall_mem_of_lt_takeWhile {q : UInt8 → Bool} {a b : Bytes}
    (h : a.length < ((a ++ b).takeWhile q).length) : ∀ x ∈ a, q x = true := by
  intro x hx
  have hlead : a <+: (a ++ b).takeWhile q :=
    List.prefix_of_prefix_length_le (List.prefix_append a b) (List.takeWhile_prefix q)
      (Nat.le_of_lt h)
  exact List.all_eq_true.1 List.all_takeWhile x (hlead.subset hx)

/-- The search passes over no place from which the pattern leads somewhere, if a byte below 128
stands there. -/
theorem isSome_findFrom?_of_leads {p : Pattern} {a b : Bytes} {x : UInt8} (hx : x < 128)
    {prev : Option UInt8} (h : ∃ c', Leads p (.behind prev a (x :: b)) c') {skip : Nat}
    (hskip : skip ≤ a.length) : (p.findFrom? skip prev (a ++ x :: b)).isSome = true := by
  -- the bytes in front are passed one by one, or as one run of the set that leads the pattern
  induction a generalizing skip prev with
  | nil =>
    obtain rfl := Nat.le_zero.1 hskip
    obtain ⟨m, hm⟩ := Option.isSome_iff_exists.1 (isSome_matchHere?_iff.2 h)
    exact Option.isSome_iff_exists.2 ⟨m, findFrom?_of_matchHere? hm⟩
  | cons y a ih =>
    have hnext : ∀ n ≤ a.length,
        ((p.findFrom? n (some y) (a ++ x :: b)).map (Match.shift y)).isSome = true := by
      intro n hn
      rw [Option.isSome_map]
      refine ih ?_ hn
      rwa [Cursor.behind, ← getLast?_cons_or y a prev]
    rw [List.cons_append]
    cases skip with
    | succ n =>
      rw [findFrom?]
      exact hnext n (Nat.le_of_succ_le_succ hskip)
    | zero =>
      rw [findFrom?]
      cases hhere : p.matchHere? prev (y :: (a ++ x :: b)) with
      | some m => rfl
      | none =>
        apply hnext
        rw [stride]
        split
        · rename_i set hset
          dsimp only
          split
          · -- a run that reached the match would have matched from its start
            rename_i hy
            refine Nat.le_of_not_lt fun hlong => ?_
            have hrun : ∀ z ∈ y :: a, z < 128 ∧ set.contains z.toNat = true := by
              rw [Bool.and_eq_true, decide_eq_true_eq] at hy
              refine List.forall_mem_cons.2 ⟨hy, fun z hz => ?_⟩
              have hz := forall_mem_of_lt_takeWhile hlong z hz
              rwa [Bool.and_eq_true, decide_eq_true_eq] at hz
            have hsome := isSome_matchHere?_iff.2 (exists_leads_run hset hrun h)
            rw [List.cons_append, hhere] at hsome
            exact Bool.false_ne_true hsome
          · exact lead_le_of_ascii hx y a b
        · exact lead_le_of_ascii hx y a b

/-- Each match of the pattern starts with a byte below 128. -/
def StartsAscii (p : Pattern) : Prop :=
  ∀ c c' : Cursor, Leads p c c' → ∃ x u, c.rest = x :: u ∧ x < 128

/-- A pattern occurs in a text exactly if it leads somewhere from a place of the text. -/
theorem occursIn_iff {p : Pattern} (hp : p.StartsAscii) {s : Bytes} :
    p.occursIn s = true ↔ ∃ a b, s = a ++ b ∧ ∃ c', Leads p (.behind none a b) c' := by
  constructor
  · intro h
    obtain ⟨m, hm⟩ := Option.isSome_iff_exists.1 h
    obtain ⟨c', hplaces, -⟩ := places_of_findFrom? hm
    have htext := text_of_find? hm
    rw [List.append_assoc] at htext
    exact ⟨m.before, m.text ++ m.after, htext.symm, c', hplaces.leads⟩
  · rintro ⟨a, b, rfl, h⟩
    obtain ⟨c', hc'⟩ := h
    obtain ⟨x, u, rfl, hx⟩ : ∃ x u, b = x :: u ∧ x < 128 := hp _ _ hc'
    exact isSome_findFrom?_of_leads hx ⟨c', hc'⟩ (Nat.zero_le _)

/-- What occurs in the last part of a text occurs in the text, if a match at the start of that part
is none of the byte in front of it. -/
theorem occursIn_append_left {p : Pattern} (hp : p.StartsAscii) {a b : Bytes}
    (hcut : (∃ c', Leads p (.behind none [] b) c') → ∃ c', Leads p (.behind none a b) c')
    (h : p.occursIn b = true) : p.occursIn (a ++ b) = true := by
  obtain ⟨a', b', rfl, hlead⟩ := (occursIn_iff hp).1 h
  refine (occursIn_iff hp).2 ⟨a ++ a', b', (List.append_assoc a a' b').symm, ?_⟩
  cases a' with
  | nil =>
    rw [List.append_nil]
    exact hcut hlead
  | cons y a' =>
    rwa [Cursor.behind, List.getLast?_append, List.getLast?_cons, Option.some_or, ← List.getLast?_cons]

/-- No match that starts at a word edge is lost when text is put in front that ends in no word. -/
theorem occursIn_append_of_startFree {p : Pattern} (hp : p.StartsAscii) (hfree : p.startFree = true)
    {a b : Bytes} (ha : a.getLast?.any isWord = false) (h : p.occursIn b = true) :
    p.occursIn (a ++ b) = true := by
  refine occursIn_append_left hp (fun hlead => ?_) h
  have hsome := isSome_matchHere?_iff.2 hlead
  have hcongr : p.matchHere? (a.getLast?.or none) b
      = p.matchHere? (([] : Bytes).getLast?.or none) b := by
    refine matchHere?_congr hfree ?_ b
    rw [Option.or_none, ha]
    rfl
  rw [← hcongr] at hsome
  exact isSome_matchHere?_iff.1 hsome

/-! ## Where the search finds something -/

section

variable {p : Pattern} {prev : Option UInt8}

/-- Where the search finds nothing that starts in `a`, nothing does. -/
theorem noMatchIn_of_findFrom? (hp : p.StartsAscii) (hlead : p.leadRun? = none) {a b : Bytes}
    (h : ∀ m, p.findFrom? 0 prev (a ++ b) = some m → a.length ≤ m.before.length) :
    p.NoMatchIn prev a b := by
  intro a₁ x a₂ ha
  cases hm : p.matchHere? (a₁.getLast?.or prev) (x :: (a₂ ++ b)) with
  | none => rfl
  | some m₀ =>
    obtain ⟨c', hleads, -⟩ := leads_of_matchHere? hm
    obtain ⟨y, u, hy, hascii⟩ := hp _ _ hleads
    obtain rfl : x = y := (List.cons.inj hy).1
    obtain ⟨m, hfind, hlen⟩ := exists_findFrom?_le hlead hascii hm
    have hle := h m (by rw [ha, List.append_assoc]; exact hfind)
    rw [ha, List.length_append, List.length_cons] at hle
    omega

/-- A search that passes over a text in which no match starts finds the match behind it. -/
theorem findFrom?_eq_some (hp : p.StartsAscii) (hlead : p.leadRun? = none) {a b : Bytes}
    (hno : p.NoMatchIn prev a b) {m₀ : Match}
    (h : p.matchHere? (a.getLast?.or prev) b = some m₀) :
    p.findFrom? 0 prev (a ++ b) = some { m₀ with before := a } := by
  obtain ⟨c', hleads, -⟩ := leads_of_matchHere? h
  obtain ⟨x, b, rfl, hx⟩ : ∃ x u, b = x :: u ∧ x < 128 := hp _ _ hleads
  obtain ⟨m, hfind, hlen⟩ := exists_findFrom?_le hlead hx h
  have hhere := matchHere?_of_findFrom? hfind
  have htext := text_of_findFrom? hfind
  rw [List.append_assoc] at htext
  obtain ⟨u, ha, hrest⟩ : ∃ u, a = m.before ++ u ∧ m.text ++ m.after = u ++ x :: b := by
    rcases List.append_eq_append_iff.1 htext with ⟨u, ha, hu⟩ | ⟨u, hbefore, hu⟩
    · exact ⟨u, ha, hu⟩
    · have hnil : u = [] := by
        rw [hbefore, List.length_append] at hlen
        exact List.length_eq_zero_iff.1 (by omega)
      subst hnil
      exact ⟨[], by simpa using hbefore.symm, by simpa using hu.symm⟩
  cases u with
  | nil =>
    rw [List.append_nil] at ha
    rw [hrest, ← ha, List.nil_append, h, Option.some.injEq] at hhere
    rw [hfind, hhere, ha]
  | cons y u =>
    -- a match further left would start in the text that is passed over
    have hnone := hno m.before y u ha
    rw [hrest, List.cons_append, hnone] at hhere
    simp at hhere

theorem rewriteFrom_of_findFrom? (hp : p.Consumes) {f : Match → Bytes} {s : Bytes} {m : Match}
    (h : p.findFrom? 0 prev s = some m) :
    p.rewriteFrom f prev s = m.before ++ f m ++ p.rewriteFrom f m.text.getLast? m.after := by
  rw [rewriteFrom_eq, h]
  exact if_pos (hp.after_lt h)

/-- A search in a text in which no match starts finds nothing. -/
theorem findFrom?_eq_none (hp : p.Consumes) {s : Bytes} (hno : p.NoMatchIn prev s []) :
    p.findFrom? 0 prev s = none := by
  rw [Option.eq_none_iff_forall_ne_some]
  intro m hfind
  obtain ⟨c', hplaces, -⟩ := places_of_findFrom? hfind
  obtain ⟨x, u, hx⟩ := List.exists_cons_of_ne_nil (hplaces.text_ne_nil hp)
  have hhere := matchHere?_of_findFrom? hfind
  have hnone := hno m.before x (u ++ m.after) (by
    rw [← text_of_findFrom? hfind, List.append_assoc, hx, List.cons_append])
  rw [hx, List.cons_append] at hhere
  rw [List.append_nil, hhere] at hnone
  simp at hnone

/-- The search passes over a text in which no match starts. -/
theorem findFrom?_append (hp : p.StartsAscii) (hconsumes : p.Consumes) (hlead : p.leadRun? = none)
    {a b : Bytes} (hno : p.NoMatchIn prev a b) :
    p.findFrom? 0 prev (a ++ b)
      = (p.findFrom? 0 (a.getLast?.or prev) b).map fun m => { m with before := a ++ m.before } := by
  cases hfind : p.findFrom? 0 (a.getLast?.or prev) b with
  | none =>
    have hrest : p.NoMatchIn (a.getLast?.or prev) b [] := by
      refine noMatchIn_of_findFrom? hp hlead fun m hm => ?_
      rw [List.append_nil, hfind] at hm
      cases hm
    refine findFrom?_eq_none hconsumes (noMatchIn_append.2 ⟨?_, hrest⟩)
    rwa [List.append_nil]
  | some m =>
    have htext := text_of_findFrom? hfind
    rw [List.append_assoc] at htext
    have hgap : p.NoMatchIn (a.getLast?.or prev) m.before (m.text ++ m.after) := by
      refine noMatchIn_of_findFrom? hp hlead fun m' hm' => ?_
      rw [htext, hfind] at hm'
      exact Nat.le_of_eq (congrArg (fun m : Match => m.before.length) (Option.some.inj hm'))
    have hall : p.NoMatchIn prev (a ++ m.before) (m.text ++ m.after) :=
      noMatchIn_append.2 ⟨by rwa [htext], hgap⟩
    have hhere := matchHere?_of_findFrom? hfind
    rw [← Option.or_assoc, ← List.getLast?_append] at hhere
    have hsome := findFrom?_eq_some hp hlead hall hhere
    rw [List.append_assoc, htext] at hsome
    exact hsome

end

end Pattern

end SqlDialect
