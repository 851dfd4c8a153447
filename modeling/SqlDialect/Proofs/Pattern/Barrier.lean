import SqlDialect.Proofs.Pattern.Context
import SqlDialect.Proofs.Text.OneLine

set_option autoImplicit false

/-! # A byte that a pattern does not take

A match ends in front of an ASCII byte that no set of the pattern holds. So what stands behind that
byte decides nothing: in two texts that are the same up to it, the pattern matches the same
(`matchHere?_barrier`). -/

namespace SqlDialect

open Bytes

namespace Pattern

/-- The same text is ahead of both places up to the byte `z`, with which `n` bytes have been taken. -/
structure Cursor.SameUpTo (z : UInt8) (x y : Bytes) (n : Nat) (c d : Cursor) : Prop where
  ahead : ∃ t, c.rest = t ++ z :: x ∧ d.rest = t ++ z :: y ∧ c.taken + t.length = n
  prev : d.prev = c.prev
  taken : d.taken = c.taken
  groups : d.groups = c.groups

variable {z : UInt8} {x y : Bytes} {n : Nat}

namespace Cursor.SameUpTo

variable {c d c' d' : Cursor}

theorem next?_cons {b : UInt8} {s : Bytes} {code k : Nat} (hrest : c.rest = b :: s)
    (hlead : Utf8.lead b s = (code, k)) : c.next? = some (code, { c with
      prev := some ((s.take k).getLastD b)
      rest := s.drop k
      taken := c.taken + (s.take k).length + 1 }) := by
  rw [Cursor.next?, hrest]
  dsimp only
  rw [hlead]

theorem record (h : c.SameUpTo z x y n d) (h' : c'.SameUpTo z x y n d') (i : Nat) :
    (c'.record i c).SameUpTo z x y n (d'.record i d) :=
  ⟨h'.ahead, h'.prev, h'.taken, by simp only [Cursor.record, h.taken, h'.taken, h'.groups]⟩

theorem head?_rest (h : c.SameUpTo z x y n d) : d.rest.head? = c.rest.head? := by
  obtain ⟨t, hc, hd, -⟩ := h.ahead
  rw [hc, hd]
  cases t <;> rfl

theorem isEmpty_rest (h : c.SameUpTo z x y n d) :
    c.rest.isEmpty = false ∧ d.rest.isEmpty = false := by
  obtain ⟨t, hc, hd, -⟩ := h.ahead
  rw [hc, hd]
  simp

/-- A character in front of the byte is the same in both texts. -/
theorem next? (hz : z < 128) (h : c.SameUpTo z x y n d) :
    (∃ c' d', c.next? = some (z.toNat, c') ∧ d.next? = some (z.toNat, d')) ∨
      ∃ code c' d', c.next? = some (code, c') ∧ d.next? = some (code, d') ∧
        c'.SameUpTo z x y n d' := by
  obtain ⟨t, hc, hd, hlen⟩ := h.ahead
  cases t with
  | nil =>
    have hlead : ∀ r, Utf8.lead z r = (z.toNat, 0) := Utf8.lead_ascii hz
    exact Or.inl ⟨_, _, next?_cons hc (hlead x), next?_cons hd (hlead y)⟩
  | cons b t =>
    have hle := lead_le_of_ascii hz b t x
    rw [Utf8.lead_append_ascii hz] at hle
    generalize hlead : Utf8.lead b t = l at hle
    obtain ⟨code, k⟩ := l
    have hsame : ∀ r, Utf8.lead b (t ++ z :: r) = (code, k) := fun r =>
      (Utf8.lead_append_ascii hz b t r).trans hlead
    rw [List.cons_append] at hc hd
    refine Or.inr ⟨_, _, _, next?_cons hc (hsame x), next?_cons hd (hsame y), ?_⟩
    rw [List.take_append_of_le_length hle, List.take_append_of_le_length hle]
    refine ⟨⟨t.drop k, List.drop_append_of_le_length hle, List.drop_append_of_le_length hle, ?_⟩,
      rfl, congrArg (· + (t.take k).length + 1) h.taken, h.groups⟩
    simp only [List.length_cons, List.length_take, List.length_drop] at hlen hle ⊢
    omega

end Cursor.SameUpTo

section

variable {α β : Type} {R : α → β → Prop}

/-- A step of the matcher finds the same in front of the byte, if what follows does. -/
def BarrierStep (R : α → β → Prop) (z : UInt8) (x y : Bytes) (n : Nat)
    (body : Cursor → (Cursor → Option α) → Option α)
    (body' : Cursor → (Cursor → Option β) → Option β) : Prop :=
  ∀ c d k k', Cursor.SameUpTo z x y n c d →
    (∀ c' d', Cursor.SameUpTo z x y n c' d' → Option.Rel R (k c') (k' d')) →
    Option.Rel R (body c k) (body' d k')

variable {body : Cursor → (Cursor → Option α) → Option α}
  {body' : Cursor → (Cursor → Option β) → Option β}

/-- The text behind the byte bounds the number of rounds from above only: each round takes some of
the text in front of it. -/
theorem barrierStep_repeatGreedy (hbody : BarrierStep R z x y n body body') (left left' : Bytes)
    {c d : Cursor} {k : Cursor → Option α} {k' : Cursor → Option β} (h : c.SameUpTo z x y n d)
    (hleft : n < c.taken + left.length) (hleft' : n < c.taken + left'.length)
    (hk : ∀ c' d', Cursor.SameUpTo z x y n c' d' → Option.Rel R (k c') (k' d')) :
    Option.Rel R (repeatGreedy body k left c) (repeatGreedy body' k' left' d) := by
  induction left generalizing left' c d with
  | nil =>
    obtain ⟨t, -, -, hlen⟩ := h.ahead
    rw [List.length_nil] at hleft
    omega
  | cons b left ih =>
    cases left' with
    | nil =>
      obtain ⟨t, -, -, hlen⟩ := h.ahead
      rw [List.length_nil] at hleft'
      omega
    | cons b' left' =>
      rw [List.length_cons] at hleft hleft'
      refine rel_orElse (hbody c d _ _ h fun c' d' h' => ?_) (hk c d h)
      rw [h.taken, h'.taken]
      split
      · exact ih left' h' (by omega) (by omega)
      · exact .none

theorem barrierStep_repeatLazy (hbody : BarrierStep R z x y n body body') (left left' : Bytes)
    {c d : Cursor} {k : Cursor → Option α} {k' : Cursor → Option β} (h : c.SameUpTo z x y n d)
    (hleft : n < c.taken + left.length) (hleft' : n < c.taken + left'.length)
    (hk : ∀ c' d', Cursor.SameUpTo z x y n c' d' → Option.Rel R (k c') (k' d')) :
    Option.Rel R (repeatLazy body k left c) (repeatLazy body' k' left' d) := by
  induction left generalizing left' c d with
  | nil =>
    obtain ⟨t, -, -, hlen⟩ := h.ahead
    rw [List.length_nil] at hleft
    omega
  | cons b left ih =>
    cases left' with
    | nil =>
      obtain ⟨t, -, -, hlen⟩ := h.ahead
      rw [List.length_nil] at hleft'
      omega
    | cons b' left' =>
      rw [List.length_cons] at hleft hleft'
      refine rel_orElse (hk c d h) (hbody c d _ _ h fun c' d' h' => ?_)
      rw [h.taken, h'.taken]
      split
      · exact ih left' h' (by omega) (by omega)
      · exact .none

/-- There are more bytes ahead than the rounds that end in front of the byte can take. -/
theorem Cursor.SameUpTo.lt {c d : Cursor} (h : c.SameUpTo z x y n d) :
    n < c.taken + c.rest.length ∧ n < c.taken + d.rest.length := by
  obtain ⟨t, hc, hd, hlen⟩ := h.ahead
  rw [hc, hd]
  simp only [List.length_append, List.length_cons]
  omega

/-- A pattern that avoids the byte finds the same in front of it. -/
theorem barrierStep_run (hz : z < 128) {p : Pattern} (hp : p.avoids [z] = true) :
    BarrierStep R z x y n p.run p.run := by
  induction p with
  | nothing => exact fun c d k k' h hk => hk c d h
  | one set =>
    intro c d k k' h hk
    have hset : set.contains z.toNat = false := by simpa [avoids] using hp
    rw [run, run]
    rcases h.next? hz with ⟨c', d', hc, hd⟩ | ⟨code, c', d', hc, hd, h'⟩
    · rw [hc, hd]
      dsimp only
      rw [hset]
      exact .none
    · rw [hc, hd]
      dsimp only
      split
      · exact hk _ _ h'
      · exact .none
  | wordEdge =>
    intro c d k k' h hk
    rw [run, run, Cursor.atWordEdge, Cursor.atWordEdge, h.head?_rest, h.prev]
    split
    · exact hk c d h
    · exact .none
  | textStart =>
    intro c d k k' h hk
    rw [run, run, h.prev]
    split
    · exact hk c d h
    · exact .none
  | textEnd =>
    intro c d k k' h hk
    rw [run, run, h.isEmpty_rest.1, h.isEmpty_rest.2]
    exact .none
  | seq p q ihp ihq =>
    rw [avoids, Bool.and_eq_true] at hp
    exact fun c d k k' h hk => ihp hp.1 c d _ _ h fun c' d' h' => ihq hp.2 c' d' k k' h' hk
  | alt p q ihp ihq =>
    rw [avoids, Bool.and_eq_true] at hp
    exact fun c d k k' h hk => rel_orElse (ihp hp.1 c d k k' h hk) (ihq hp.2 c d k k' h hk)
  | many p ih =>
    exact fun c d k k' h hk => barrierStep_repeatGreedy (ih hp) c.rest d.rest h h.lt.1 h.lt.2 hk
  | manyLazy p ih =>
    exact fun c d k k' h hk => barrierStep_repeatLazy (ih hp) c.rest d.rest h h.lt.1 h.lt.2 hk
  | group i p ih =>
    exact fun c d k k' h hk => ih hp c d _ _ h fun c' d' h' => hk _ _ (h.record h' i)

end

/-- A match of a pattern that avoids the byte ends in front of it, and is a match whatever stands
behind the byte. -/
theorem matchHere?_barrier (hz : z < 128) {p : Pattern} (hp : p.avoids [z] = true)
    {prev : Option UInt8} {t x : Bytes} {m : Match} (h : p.matchHere? prev (t ++ z :: x) = some m)
    (y : Bytes) :
    ∃ u m', t = m.text ++ u ∧ p.matchHere? prev (t ++ z :: y) = some m' ∧ m'.text = m.text ∧
      m'.after = u ++ z :: y := by
  have hsame : Cursor.SameUpTo z x y t.length { prev := prev, rest := t ++ z :: x }
      { prev := prev, rest := t ++ z :: y } :=
    ⟨⟨t, rfl, rfl, Nat.zero_add _⟩, rfl, rfl, rfl⟩
  have hrel := barrierStep_run (R := Cursor.SameUpTo z x y t.length) hz hp _ _ some some hsame
    fun _ _ h => .some h
  have htext := text_of_matchHere? h
  obtain ⟨c, hc, rfl⟩ := Option.map_eq_some_iff.1 h
  rw [hc] at hrel
  generalize hrun : p.run { prev := prev, rest := t ++ z :: y } some = o at hrel
  cases hrel with
  | @some c d hcd =>
    obtain ⟨u, hcrest, hdrest, -⟩ := hcd.ahead
    have hmatch : p.matchHere? prev (t ++ z :: y) = some _ := Option.map_eq_some_iff.2 ⟨d, hrun, rfl⟩
    have htext' := text_of_matchHere? hmatch
    dsimp only at htext htext'
    rw [hcrest, List.nil_append, ← List.append_assoc, List.append_cancel_right_eq] at htext
    rw [hdrest, List.nil_append, ← List.append_assoc, List.append_cancel_right_eq] at htext'
    refine ⟨u, _, htext.symm, hmatch, ?_, hdrest⟩
    exact List.append_cancel_right (htext'.trans htext.symm)

end Pattern

end SqlDialect
