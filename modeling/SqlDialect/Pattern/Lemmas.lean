import SqlDialect.Pattern.Search

set_option autoImplicit false

/-! # What a match says about the text

A match only cuts the text: the three parts of a match, put together, are the text that was
searched. -/

namespace SqlDialect

namespace Pattern

/-- `c'` is reached from `c` by taking text. -/
def Cursor.Reaches (c c' : Cursor) : Prop :=
  ∃ t, c.rest = t ++ c'.rest ∧ c'.taken = c.taken + t.length

namespace Cursor

theorem Reaches.refl (c : Cursor) : c.Reaches c :=
  ⟨[], by simp, by simp⟩

theorem Reaches.trans {a b c : Cursor} (hab : a.Reaches b) (hbc : b.Reaches c) : a.Reaches c := by
  obtain ⟨t, ht, hn⟩ := hab
  obtain ⟨u, hu, hm⟩ := hbc
  exact ⟨t ++ u, by simp [ht, hu], by simp [hn, hm, Nat.add_assoc]⟩

theorem reaches_of_next? {c c' : Cursor} {code : Nat} (h : c.next? = some (code, c')) :
    c.Reaches c' := by
  rw [next?] at h
  split at h
  · simp at h
  · rename_i b s hrest
    simp only [Option.some.injEq, Prod.mk.injEq] at h
    obtain ⟨_, rfl⟩ := h
    exact ⟨b :: s.take (Utf8.lead b s).2, by simp [hrest], rfl⟩

theorem reaches_record (c start : Cursor) (n : Nat) : c.Reaches (c.record n start) :=
  ⟨[], by simp [record], by simp [record]⟩

end Cursor

/-- A step that hands on only places reached from where it started. -/
def Forward {α : Type} (body : Cursor → (Cursor → Option α) → Option α) : Prop :=
  ∀ c k r, body c k = some r → ∃ c', c.Reaches c' ∧ k c' = some r

theorem forward_repeatGreedy {α : Type} {body : Cursor → (Cursor → Option α) → Option α}
    (hbody : Forward body) (left : Bytes) :
    Forward fun c k => repeatGreedy body k left c := by
  intro c k r h
  induction left generalizing c with
  | nil => exact ⟨c, .refl c, h⟩
  | cons b left ih =>
    simp only [repeatGreedy] at h
    split at h
    · rename_i r' hr'
      cases h
      obtain ⟨c₁, hc₁, hk⟩ := hbody _ _ _ hr'
      split at hk
      · obtain ⟨c₂, hc₂, hk₂⟩ := ih c₁ hk
        exact ⟨c₂, hc₁.trans hc₂, hk₂⟩
      · simp at hk
    · exact ⟨c, .refl c, h⟩

theorem forward_repeatLazy {α : Type} {body : Cursor → (Cursor → Option α) → Option α}
    (hbody : Forward body) (left : Bytes) :
    Forward fun c k => repeatLazy body k left c := by
  intro c k r h
  induction left generalizing c with
  | nil => exact ⟨c, .refl c, h⟩
  | cons b left ih =>
    simp only [repeatLazy] at h
    split at h
    · rename_i r' hr'
      exact ⟨c, .refl c, by rw [hr']; exact h⟩
    · obtain ⟨c₁, hc₁, hk⟩ := hbody _ _ _ h
      split at hk
      · obtain ⟨c₂, hc₂, hk₂⟩ := ih c₁ hk
        exact ⟨c₂, hc₁.trans hc₂, hk₂⟩
      · simp at hk

theorem forward_run {α : Type} (p : Pattern) : @Forward α p.run := by
  induction p with
  | nothing => exact fun c k r h => ⟨c, .refl c, h⟩
  | one set =>
    intro c k r h
    simp only [run] at h
    split at h
    · rename_i code c' hnext
      split at h
      · exact ⟨c', Cursor.reaches_of_next? hnext, h⟩
      · simp at h
    · simp at h
  | wordEdge =>
    intro c k r h
    simp only [run] at h
    split at h
    · exact ⟨c, .refl c, h⟩
    · simp at h
  | textStart =>
    intro c k r h
    simp only [run] at h
    split at h
    · exact ⟨c, .refl c, h⟩
    · simp at h
  | textEnd =>
    intro c k r h
    simp only [run] at h
    split at h
    · exact ⟨c, .refl c, h⟩
    · simp at h
  | seq p q ihp ihq =>
    intro c k r h
    obtain ⟨c₁, hc₁, h₁⟩ := ihp _ _ _ h
    obtain ⟨c₂, hc₂, h₂⟩ := ihq _ _ _ h₁
    exact ⟨c₂, hc₁.trans hc₂, h₂⟩
  | alt p q ihp ihq =>
    intro c k r h
    simp only [run] at h
    split at h
    · rename_i r' hr'
      obtain ⟨c₁, hc₁, h₁⟩ := ihp _ _ _ hr'
      exact ⟨c₁, hc₁, by rw [h₁]; exact h⟩
    · exact ihq _ _ _ h
  | many p ih => exact fun c k r h => forward_repeatGreedy ih c.rest c k r h
  | manyLazy p ih => exact fun c k r h => forward_repeatLazy ih c.rest c k r h
  | group n p ih =>
    intro c k r h
    obtain ⟨c₁, hc₁, h₁⟩ := ih _ _ _ h
    exact ⟨_, hc₁.trans (Cursor.reaches_record c₁ c n), h₁⟩

theorem text_of_matchHere? {p : Pattern} {prev : Option UInt8} {s : Bytes} {m : Match}
    (h : p.matchHere? prev s = some m) : m.before ++ m.text ++ m.after = s := by
  simp only [matchHere?, Option.map_eq_some_iff] at h
  obtain ⟨c, hc, rfl⟩ := h
  obtain ⟨c', ⟨t, ht, hn⟩, hk⟩ := forward_run p _ _ _ hc
  simp only [Option.some.injEq] at hk
  subst hk
  simp only [Nat.zero_add] at hn
  simp only at ht
  simp [ht, hn]

theorem text_of_findFrom? {p : Pattern} {skip : Nat} {prev : Option UInt8} {s : Bytes} {m : Match}
    (h : p.findFrom? skip prev s = some m) : m.before ++ m.text ++ m.after = s := by
  induction s generalizing skip prev m with
  | nil =>
    cases skip with
    | zero => exact text_of_matchHere? (by simpa [findFrom?] using h)
    | succ n => simp [findFrom?] at h
  | cons b s ih =>
    cases skip with
    | zero =>
      simp only [findFrom?] at h
      split at h
      · rename_i m' hm'
        simp only [Option.some.injEq] at h
        subst h
        exact text_of_matchHere? hm'
      · simp only [Option.map_eq_some_iff] at h
        obtain ⟨m', hm', rfl⟩ := h
        have := ih hm'
        simpa [Match.shift] using this
    | succ n =>
      simp only [findFrom?, Option.map_eq_some_iff] at h
      obtain ⟨m', hm', rfl⟩ := h
      have := ih hm'
      simpa [Match.shift] using this

/-- The parts of a match make up the text that was searched. -/
theorem text_of_find? {p : Pattern} {s : Bytes} {m : Match} (h : p.find? s = some m) :
    m.before ++ m.text ++ m.after = s :=
  text_of_findFrom? h

end Pattern

end SqlDialect
