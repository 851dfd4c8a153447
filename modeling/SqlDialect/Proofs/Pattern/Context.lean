import SqlDialect.Proofs.Pattern.Ends

set_option autoImplicit false

/-! # What a match depends on

A pattern looks back no further than to the byte in front of it, and only to tell a word byte from
others; the beginning of the text is the one thing more that it may ask for. So at two places with
the same text ahead a pattern without that question finds the same (`rel_run`). A pattern for the
start of a statement asks for the beginning once and then passes over blanks, so blanks in front of a
statement change nothing but the text of the match (`find?_blank_append`). -/

namespace SqlDialect

open Bytes

namespace Pattern

/-- The pattern does not ask for the beginning of the text. -/
def startFree : Pattern → Bool
  | textStart => false
  | seq p q => p.startFree && q.startFree
  | alt p q => p.startFree && q.startFree
  | many p => p.startFree
  | manyLazy p => p.startFree
  | group _ p => p.startFree
  | _ => true

/-- What was recorded, in a match that starts `n` bytes further left. -/
def Recorded.shift (n : Nat) (g : Recorded) : Recorded :=
  { g with start := g.start + n }

/-- The places have the same text ahead and stand both behind a word byte or both not; the match up
to `d` started `n` bytes further left. -/
structure Cursor.SameAhead (n : Nat) (c d : Cursor) : Prop where
  rest : d.rest = c.rest
  edge : d.prev.any isWord = c.prev.any isWord
  taken : d.taken = c.taken + n
  groups : d.groups = c.groups.map (Recorded.shift n)

namespace Cursor.SameAhead

variable {n : Nat} {c d : Cursor}

theorem next? (h : c.SameAhead n d) :
    Option.Rel (fun x y => y.1 = x.1 ∧ SameAhead n x.2 y.2) c.next? d.next? := by
  rw [Cursor.next?, Cursor.next?, h.rest]
  split
  · exact .none
  · refine .some ⟨rfl, ⟨rfl, rfl, ?_, h.groups⟩⟩
    dsimp only
    rw [h.taken]
    omega

theorem record {c' d' : Cursor} (h : c.SameAhead n d) (h' : c'.SameAhead n d') (i : Nat) :
    (c'.record i c).SameAhead n (d'.record i d) := by
  refine ⟨h'.rest, h'.edge, h'.taken, ?_⟩
  have hlen : d'.taken - d.taken = c'.taken - c.taken := by
    rw [h.taken, h'.taken]
    omega
  rw [Cursor.record, Cursor.record, hlen, h'.groups, h.taken]
  rfl

end Cursor.SameAhead

section

variable {α β : Type} {R : α → β → Prop} {n : Nat}

/-- A step of the matcher finds the same at places with the same text ahead, if what follows does. -/
def SameStep (R : α → β → Prop) (n : Nat) (body : Cursor → (Cursor → Option α) → Option α)
    (body' : Cursor → (Cursor → Option β) → Option β) : Prop :=
  ∀ c d k k', Cursor.SameAhead n c d →
    (∀ c' d', Cursor.SameAhead n c' d' → Option.Rel R (k c') (k' d')) →
    Option.Rel R (body c k) (body' d k')

theorem rel_orElse {o₁ o₂ : Option α} {o₁' o₂' : Option β} :
    Option.Rel R o₁ o₁' → Option.Rel R o₂ o₂' →
      Option.Rel R (match o₁ with | some r => some r | none => o₂)
        (match o₁' with | some r => some r | none => o₂') := by
  intro h₁ h₂
  cases h₁ with
  | none => exact h₂
  | some h => exact .some h

variable {body : Cursor → (Cursor → Option α) → Option α}
  {body' : Cursor → (Cursor → Option β) → Option β}

theorem sameStep_repeatGreedy (hbody : SameStep R n body body') (left : Bytes) :
    SameStep R n (fun c k => repeatGreedy body k left c) fun c k => repeatGreedy body' k left c := by
  induction left with
  | nil => exact fun c d k k' h hk => hk c d h
  | cons b left ih =>
    intro c d k k' h hk
    refine rel_orElse (hbody c d _ _ h fun c' d' h' => ?_) (hk c d h)
    have hprogress : d.taken < d'.taken ↔ c.taken < c'.taken := by
      rw [h.taken, h'.taken]
      omega
    simp only [hprogress]
    split
    · exact ih c' d' k k' h' hk
    · exact .none

theorem sameStep_repeatLazy (hbody : SameStep R n body body') (left : Bytes) :
    SameStep R n (fun c k => repeatLazy body k left c) fun c k => repeatLazy body' k left c := by
  induction left with
  | nil => exact fun c d k k' h hk => hk c d h
  | cons b left ih =>
    intro c d k k' h hk
    refine rel_orElse (hk c d h) (hbody c d _ _ h fun c' d' h' => ?_)
    have hprogress : d.taken < d'.taken ↔ c.taken < c'.taken := by
      rw [h.taken, h'.taken]
      omega
    simp only [hprogress]
    split
    · exact ih c' d' k k' h' hk
    · exact .none

/-- A pattern finds the same at places with the same text ahead. -/
theorem rel_run {p : Pattern} (hp : p.startFree = true) : SameStep R n p.run p.run := by
  induction p with
  | nothing => exact fun c d k k' h hk => hk c d h
  | one set =>
    intro c d k k' h hk
    rw [run, run]
    -- both cursors have the same text in front of them, so they take the same character or none
    have hnext := h.next?
    cases hc : c.next? with
    | none =>
      rw [hc] at hnext
      cases hd : d.next? with
      | none => exact .none
      | some y => rw [hd] at hnext; cases hnext
    | some x =>
      rw [hc] at hnext
      cases hd : d.next? with
      | none => rw [hd] at hnext; cases hnext
      | some y =>
        rw [hd] at hnext
        cases hnext with
        | some hxy =>
          dsimp only
          rw [hxy.1]
          split
          · exact hk _ _ hxy.2
          · exact .none
  | wordEdge =>
    intro c d k k' h hk
    rw [run, run, Cursor.atWordEdge, Cursor.atWordEdge, h.rest, h.edge]
    split
    · exact hk c d h
    · exact .none
  | textStart => cases hp
  | textEnd =>
    intro c d k k' h hk
    rw [run, run, h.rest]
    split
    · exact hk c d h
    · exact .none
  | seq p q ihp ihq =>
    rw [startFree, Bool.and_eq_true] at hp
    exact fun c d k k' h hk => ihp hp.1 c d _ _ h fun c' d' h' => ihq hp.2 c' d' k k' h' hk
  | alt p q ihp ihq =>
    rw [startFree, Bool.and_eq_true] at hp
    exact fun c d k k' h hk => rel_orElse (ihp hp.1 c d k k' h hk) (ihq hp.2 c d k k' h hk)
  | many p ih =>
    intro c d k k' h hk
    rw [run, run, h.rest]
    exact sameStep_repeatGreedy (ih hp) c.rest c d k k' h hk
  | manyLazy p ih =>
    intro c d k k' h hk
    rw [run, run, h.rest]
    exact sameStep_repeatLazy (ih hp) c.rest c d k k' h hk
  | group i p ih =>
    exact fun c d k k' h hk => ih hp c d _ _ h fun c' d' h' => hk _ _ (h.record h' i)

end

/-! ## The byte in front -/

/-- Only whether a word byte stands in front of it can change a match. -/
theorem matchHere?_congr {p : Pattern} (hp : p.startFree = true) {prev prev' : Option UInt8}
    (hprev : prev'.any isWord = prev.any isWord) (s : Bytes) :
    p.matchHere? prev' s = p.matchHere? prev s := by
  have hsame : Cursor.SameAhead 0 { prev := prev, rest := s } { prev := prev', rest := s } :=
    ⟨rfl, hprev, rfl, rfl⟩
  have hrel := rel_run (R := Cursor.SameAhead 0) hp _ _ some some hsame fun _ _ h => .some h
  rw [matchHere?, matchHere?]
  generalize p.run { prev := prev, rest := s } some = o at hrel
  generalize p.run { prev := prev', rest := s } some = o' at hrel
  cases hrel with
  | none => rfl
  | @some c d h =>
    have hgroups : d.groups = c.groups :=
      h.groups.trans (List.map_id c.groups)
    simp only [Option.map_some, h.rest, h.taken, Nat.add_zero, hgroups]

theorem findFrom?_congr {p : Pattern} (hp : p.startFree = true) {prev prev' : Option UInt8}
    (hprev : prev'.any isWord = prev.any isWord) (s : Bytes) :
    p.findFrom? 0 prev' s = p.findFrom? 0 prev s := by
  cases s with
  | nil => exact matchHere?_congr hp hprev []
  | cons b s => rw [findFrom?, findFrom?, matchHere?_congr hp hprev]

/-- The search passes over as many bytes as it is told to. -/
theorem findFrom?_length (p : Pattern) (a : Bytes) (prev : Option UInt8) (b : Bytes) :
    p.findFrom? a.length prev (a ++ b)
      = (p.findFrom? 0 (a.getLast?.or prev) b).map fun m => { m with before := a ++ m.before } := by
  induction a generalizing prev with
  | nil => simp
  | cons x a ih =>
    rw [List.length_cons, List.cons_append, findFrom?, ih, Option.map_map, getLast?_cons_or]
    rfl

/-! ## Blanks in front of a statement -/

theorem allBlank_nil : AllBlank [] :=
  fun _ h => absurd h List.not_mem_nil

/-- The text does not start with a blank. -/
def UnblankHead (s : Bytes) : Prop :=
  ∀ x, s.head? = some x → CharSet.blank.contains x.toNat = false

theorem unblankHead_of_unblank {t : Bytes} (ht : ∀ x ∈ t, CharSet.blank.contains x.toNat = false)
    (hne : t ≠ []) (r : Bytes) : UnblankHead (t ++ r) := by
  obtain ⟨y, t, rfl⟩ := List.exists_cons_of_ne_nil hne
  intro x hx
  obtain rfl : y = x := Option.some.inj hx
  exact ht y List.mem_cons_self

/-- The blanks in front of a text without blanks at its start are its first blanks. -/
theorem takeWhile_blank {bl s : Bytes} (hbl : AllBlank bl) (hs : UnblankHead s) :
    (bl ++ s).takeWhile (fun b => CharSet.blank.contains b.toNat) = bl := by
  rw [List.takeWhile_append_of_pos hbl]
  cases s with
  | nil => simp
  | cons x s => rw [List.takeWhile_cons, hs x rfl]; simp

theorem not_leads_blank {c c' : Cursor} (hc : UnblankHead c.rest) :
    ¬ Leads (.one CharSet.blank) c c' := by
  intro h
  obtain ⟨b, -, hb, htakes, -⟩ := leads_one_ascii (by decide) h
  have hhead := hc b (by rw [htakes.rest]; rfl)
  exact Bool.noConfusion (hhead.symm.trans hb)

section

variable {α : Type} {k : Cursor → Option α} {c : Cursor}

/-- Blanks are taken all, if what follows does not match at a blank. -/
theorem run_blanks_eq {t s : Bytes} (hrest : c.rest = t ++ s) (ht : AllBlank t)
    (hs : UnblankHead s) (hk : ∀ c' : Cursor, ¬ UnblankHead c'.rest → k c' = none) :
    blanks.run c k = k (c.past t s) := by
  rw [blanks, run, hrest]
  induction t generalizing c with
  | nil =>
    rw [List.nil_append] at hrest ⊢
    have hc : c.past [] s = c := by simp [Cursor.past, ← hrest]
    rw [hc]
    cases s with
    | nil => rfl
    | cons x s => rw [repeatGreedy, run_eq_none fun c' => not_leads_blank (hrest ▸ hs)]
  | cons x t ih =>
    obtain ⟨hx, ht⟩ := List.forall_mem_cons.1 ht
    have htail := ih (c := c.past [x] (t ++ s)) rfl ht
    rw [Cursor.past_past] at htail
    have hnone : k c = none := by
      refine hk c fun hsolid => ?_
      rw [hrest] at hsolid
      exact Bool.noConfusion ((hsolid x rfl).symm.trans hx)
    rw [List.cons_append] at hrest ⊢
    rw [repeatGreedy, run_one hrest (ascii_of_blank hx).1, if_pos hx, if_pos (by simp [Cursor.past]),
      htail, hnone]
    simp only [List.singleton_append]
    cases k (c.past (x :: t) s) <;> rfl

end

/-- The pattern matches at no blank. -/
def StartsUnblank (p : Pattern) : Prop :=
  ∀ c c' : Cursor, Leads p c c' → UnblankHead c.rest

theorem startsUnblank_keyword {s : String} (hs : IsKeyword s) (ps : List Pattern) :
    (seqs (keyword s :: ps)).StartsUnblank := by
  intro c c' h
  obtain ⟨c₁, hkey, -⟩ := leads_seqs_cons.1 h
  obtain ⟨t, htakes, hne, ht⟩ := leads_keyword_bytes hs hkey
  obtain ⟨y, t, rfl⟩ := List.exists_cons_of_ne_nil hne
  intro x hx
  rw [htakes.rest] at hx
  obtain rfl : y = x := Option.some.inj hx
  rw [Bool.eq_false_iff]
  intro hblank
  have hword := ht y List.mem_cons_self (ascii_of_blank hblank).1
  exact Bool.noConfusion ((ascii_of_blank hblank).2.2.symm.trans hword)

/-- A pattern for the start of a statement. -/
def atStart (ps : List Pattern) : Pattern :=
  seqs (textStart :: blanks :: ps)

/-- A pattern that asks for the beginning of the text matches there or nowhere. -/
theorem findFrom?_textStart (q : Pattern) (skip : Nat) (b : UInt8) (s : Bytes) :
    (seq textStart q).findFrom? skip (some b) s = none := by
  rw [Option.eq_none_iff_forall_ne_some]
  intro m hm
  obtain ⟨c', hplaces, -⟩ := places_of_findFrom? hm
  obtain ⟨c₁, hstart, -⟩ := leads_seq.1 hplaces.leads
  cases hstart with
  | textStart hprev => simp at hprev

theorem find?_atStart (ps : List Pattern) (s : Bytes) :
    (atStart ps).find? s = (atStart ps).matchHere? none s := by
  cases s with
  | nil => rfl
  | cons b s =>
    rw [find?, findFrom?, atStart, seqs, List.foldr_cons, findFrom?_textStart]
    cases (seq textStart (List.foldr seq nothing (blanks :: ps))).matchHere? none (b :: s) <;> rfl

theorem run_atStart {ps : List Pattern} (hps : (seqs ps).StartsUnblank) {bl s : Bytes}
    (hbl : AllBlank bl) (hs : UnblankHead s) :
    (atStart ps).run { prev := none, rest := bl ++ s } some
      = (seqs ps).run { prev := bl.getLast?, rest := s, taken := bl.length } some := by
  have hk : ∀ c' : Cursor, ¬ UnblankHead c'.rest → (seqs ps).run c' some = none :=
    fun c' hc' => run_eq_none fun c'' h => hc' (hps _ _ h)
  have hrun := run_blanks_eq (c := { prev := none, rest := bl ++ s }) rfl hbl hs hk
  simp only [Cursor.past, Option.or_none, Nat.zero_add] at hrun
  exact hrun

/-- Blanks in front of a statement become a part of the match. -/
theorem find?_blank_append {ps : List Pattern} (hps : (seqs ps).StartsUnblank)
    (hfree : (seqs ps).startFree = true) {bl s : Bytes} (hbl : AllBlank bl) (hs : UnblankHead s) :
    (atStart ps).find? (bl ++ s)
      = ((atStart ps).find? s).map fun m => { m with text := bl ++ m.text } := by
  have hedge : bl.getLast?.any isWord = false := by
    cases hlast : bl.getLast? with
    | none => rfl
    | some x => exact (ascii_of_blank (hbl x (List.mem_of_getLast? hlast))).2.2
  have hsame : Cursor.SameAhead bl.length { prev := none, rest := s }
      { prev := bl.getLast?, rest := s, taken := bl.length } :=
    ⟨rfl, hedge, (Nat.zero_add _).symm, rfl⟩
  have hrel := rel_run (R := Cursor.SameAhead bl.length) hfree _ _ some some hsame
    fun _ _ h => .some h
  have hbare := run_atStart hps allBlank_nil hs
  rw [List.nil_append] at hbare
  rw [find?_atStart, find?_atStart, matchHere?, matchHere?, run_atStart hps hbl hs, hbare]
  generalize (seqs ps).run { prev := bl.getLast?, rest := s, taken := bl.length } some = o' at hrel
  rw [show ([] : Bytes).getLast? = none from rfl, List.length_nil]
  generalize (seqs ps).run { prev := none, rest := s } some = o at hrel
  cases hrel with
  | none => rfl
  | @some c d h =>
    simp only [Option.map_some, h.rest, h.taken, h.groups, List.map_map]
    congr 2
    · rw [Nat.add_comm, List.take_length_add_append]
    · refine List.map_congr_left fun g _ => ?_
      simp [Recorded.shift, Recorded.text, Nat.add_comm g.start, List.drop_length_add_append]

end Pattern

end SqlDialect
