import SqlDialect.Identifier.Basic
import SqlDialect.Proofs.Literal.RoundTrip
import SqlDialect.Proofs.Text.Words

set_option autoImplicit false

/-! # Stray placeholders

A stretch of text that reads as a placeholder, in any letter case, is *stray* if it is none of the
placeholders in use. A text is *settled* if no word in it starts with a stray stretch: each of them
stands behind a word byte, where it is only a part of a longer word.

The text of a statement that holds no start of a placeholder outside its literals is settled, and so
it stays when its names are taken out of their backticks, even where a name and the text around it
become one word. As long as there are backticks, stretches are therefore read through them
(`ticks`). -/

namespace SqlDialect

open Bytes

/-! ## Stray stretches -/

/-- The text as it is read: without its backticks, if it is read through them. -/
def unticked (ticks : Bool) (s : Bytes) : Bytes :=
  s.filter fun b => !(ticks && b == backtick)

theorem unticked_false (s : Bytes) : unticked false s = s :=
  List.filter_eq_self.2 fun _ _ => rfl

theorem unticked_append (ticks : Bool) (s t : Bytes) :
    unticked ticks (s ++ t) = unticked ticks s ++ unticked ticks t :=
  List.filter_append ..

theorem unticked_of_notMem {s : Bytes} (h : backtick ∉ s) (ticks : Bool) : unticked ticks s = s := by
  refine List.filter_eq_self.2 fun b hb => ?_
  have hne : (b == backtick) = false := by
    rw [beq_eq_false_iff_ne]
    rintro rfl
    exact h hb
  simp [hne]

/-- Whether the byte can be a part of a stretch that reads as a placeholder. -/
def isTokenByte (ticks : Bool) (b : UInt8) : Bool :=
  isDigit b || (ascii "_pglit").contains (lowerByte b) || (ticks && b == backtick)

/-- The stretch reads as a placeholder, in any letter case, but as none of the first `n`. -/
structure Stray (ticks : Bool) (n : Nat) (t : Bytes) : Prop where
  head : t.head? = some 95
  reads : ∃ ds : Bytes, ds ≠ [] ∧ (∀ b ∈ ds, isDigit b = true) ∧
    (unticked ticks t).map lowerByte = marker ++ ds ++ markerEnd
  other : ∀ k < n, unticked ticks t ≠ placeholder k

theorem lowerByte_eq_underscore {b : UInt8} : lowerByte b = 95 ↔ b = 95 := by
  refine ⟨fun h => ?_, by rintro rfl; rfl⟩
  exact forall_lowerByte (P := fun b => lowerByte b = 95 → b = 95) (l := [95]) (by decide)
    (List.mem_singleton.2 h) h

namespace Stray

variable {ticks : Bool} {n : Nat} {t : Bytes}

theorem isTokenByte (h : Stray ticks n t) : ∀ b ∈ t, isTokenByte ticks b = true := by
  intro b hb
  rw [SqlDialect.isTokenByte]
  cases hskip : ticks && b == backtick with
  | true => exact Bool.or_true _
  | false =>
    obtain ⟨ds, -, hds, hreads⟩ := h.reads
    have hmem : lowerByte b ∈ (unticked ticks t).map lowerByte :=
      List.mem_map_of_mem (List.mem_filter.2 ⟨hb, by rw [hskip]; rfl⟩)
    have hfixed : ∀ x ∈ marker ++ markerEnd, (ascii "_pglit").contains x = true := by decide
    rw [hreads, List.mem_append, List.mem_append] at hmem
    rcases hmem with (hmem | hmem) | hmem
    · rw [hfixed _ (List.mem_append_left _ hmem), Bool.or_true, Bool.true_or]
    · rw [← isDigit_lowerByte, hds _ hmem, Bool.true_or, Bool.true_or]
    · rw [hfixed _ (List.mem_append_right _ hmem), Bool.or_true, Bool.true_or]

theorem count (h : Stray ticks n t) : 4 ≤ t.count 95 := by
  obtain ⟨ds, -, -, hreads⟩ := h.reads
  have hlower : ∀ s : Bytes, (s.map lowerByte).count 95 = s.count 95 := by
    intro s
    rw [List.count_eq_countP, List.count_eq_countP, List.countP_map]
    refine List.countP_congr fun b _ => ?_
    simp [lowerByte_eq_underscore]
  have hcount := congrArg (List.count 95) hreads
  rw [hlower, List.count_append, List.count_append] at hcount
  have hmarker : marker.count 95 = 2 := by decide
  have hend : markerEnd.count 95 = 2 := by decide
  have hle : (unticked ticks t).count 95 ≤ t.count 95 := List.filter_sublist.count_le 95
  omega

/-- The end of a stray stretch is an underscore, or a backtick. -/
theorem mem_of_suffix {t₁ t₂ : Bytes} (h : Stray ticks n (t₁ ++ t₂)) (hne : t₂ ≠ []) :
    95 ∈ t₂ ∨ backtick ∈ t₂ := by
  refine Classical.or_iff_not_imp_right.2 fun htick => ?_
  obtain ⟨ds, -, -, hreads⟩ := h.reads
  rw [unticked_append, unticked_of_notMem htick, List.map_append] at hreads
  have hlast := congrArg List.getLast? hreads
  have hend : (marker ++ ds ++ markerEnd).getLast? = some 95 := by
    rw [List.getLast?_append]
    rfl
  obtain ⟨t₂, b, rfl⟩ := List.eq_nil_or_concat t₂ |>.resolve_left hne
  rw [List.concat_eq_append, List.map_append, ← List.append_assoc, List.map_singleton,
    List.getLast?_concat, hend, Option.some.injEq, lowerByte_eq_underscore] at hlast
  simp [hlast]

theorem ne_nil (h : Stray ticks n t) : t ≠ [] := by
  rintro rfl
  cases h.head

end Stray

/-! ## Settled texts -/

/-- Every stray stretch of the text, which stands behind the byte `prev`, follows a word byte. -/
def Settled (ticks : Bool) (n : Nat) (prev : Option UInt8) (s : Bytes) : Prop :=
  ∀ a t b, s = a ++ t ++ b → Stray ticks n t → (a.getLast?.or prev).any isWord = true

theorem head?_append_left {s : Bytes} (h : s ≠ []) (t : Bytes) : (s ++ t).head? = s.head? := by
  obtain ⟨b, s, rfl⟩ := List.exists_cons_of_ne_nil h
  rfl

/-- A stretch of two texts is in the one or the other or in both. -/
theorem append_eq_append_append {u v a t b : Bytes} (h : u ++ v = a ++ t ++ b) :
    (∃ b', u = a ++ t ++ b') ∨ (∃ a', a = u ++ a' ∧ v = a' ++ t ++ b) ∨
      ∃ t₁ t₂, t₁ ≠ [] ∧ t₂ ≠ [] ∧ t = t₁ ++ t₂ ∧ u = a ++ t₁ ∧ v = t₂ ++ b := by
  rcases List.append_eq_append_iff.1 h with ⟨c, hc, hv⟩ | ⟨c, hu, -⟩
  · rcases List.append_eq_append_iff.1 hc with ⟨d, rfl, rfl⟩ | ⟨d, rfl, rfl⟩
    · by_cases hd : d = []
      · subst hd
        exact Or.inr (Or.inl ⟨[], by simp, by simpa using hv⟩)
      · by_cases hc : c = []
        · subst hc
          exact Or.inl ⟨[], by simp⟩
        · exact Or.inr (Or.inr ⟨d, c, hd, hc, rfl, rfl, hv⟩)
    · exact Or.inr (Or.inl ⟨d, rfl, by rw [hv]⟩)
  · exact Or.inl ⟨c, hu⟩

/-- No stray stretch starts in `u` and ends in `v`: the bytes at the end of `u` that could be a part
of one hold no underscore, or those at the start of `v` hold neither an underscore nor a backtick. -/
def Sealed (ticks : Bool) (u v : Bytes) : Prop :=
  (∃ u₁ u₂, u = u₁ ++ u₂ ∧ 95 ∉ u₂ ∧ ∀ x, u₁.getLast? = some x → isTokenByte ticks x = false) ∨
    ∃ v₁ v₂, v = v₁ ++ v₂ ∧ 95 ∉ v₁ ∧ backtick ∉ v₁ ∧
      ∀ x, v₂.head? = some x → isTokenByte ticks x = false

section

variable {ticks : Bool} {n : Nat} {u v : Bytes}

theorem sealed_of_last (h : ∀ x, u.getLast? = some x → isTokenByte ticks x = false) (v : Bytes) :
    Sealed ticks u v :=
  Or.inl ⟨u, [], by simp, List.not_mem_nil, h⟩

theorem sealed_of_head (u : Bytes) (h : ∀ x, v.head? = some x → isTokenByte ticks x = false) :
    Sealed ticks u v :=
  Or.inr ⟨[], v, rfl, List.not_mem_nil, List.not_mem_nil, h⟩

/-- What is behind the last byte that is no part of a stray stretch seals a text. -/
theorem sealed_of_append (u₁ : Bytes) {u₂ : Bytes} {x : UInt8} (hx : isTokenByte ticks x = false)
    (hu₂ : 95 ∉ u₂) (v : Bytes) : Sealed ticks (u₁ ++ x :: u₂) v := by
  refine Or.inl ⟨u₁ ++ [x], u₂, by simp, hu₂, ?_⟩
  intro y hy
  rw [List.getLast?_concat] at hy
  exact Option.some.inj hy ▸ hx

theorem Sealed.not_stray (h : Sealed ticks u v) {a b t₁ t₂ : Bytes} (ht₁ : t₁ ≠ []) (ht₂ : t₂ ≠ [])
    (hu : u = a ++ t₁) (hv : v = t₂ ++ b) : ¬ Stray ticks n (t₁ ++ t₂) := by
  intro hstray
  rcases h with ⟨u₁, u₂, rfl, h95, hlast⟩ | ⟨v₁, v₂, rfl, h95, htick, hhead⟩
  · -- the stretch starts in `u₂`, which has no underscore, or covers the last byte of `u₁`
    have hfirst : t₁.head? = some 95 := by
      rw [← hstray.head, head?_append_left ht₁]
    rcases List.append_eq_append_iff.1 hu with ⟨c, rfl, rfl⟩ | ⟨c, rfl, rfl⟩
    · exact h95 (List.mem_append_right c (List.mem_of_head? hfirst))
    · cases hc : c.getLast? with
      | none =>
        obtain rfl := List.getLast?_eq_none_iff.1 hc
        exact h95 (List.mem_of_head? hfirst)
      | some x =>
        have hx := hlast x (by rw [List.getLast?_append, hc]; rfl)
        rw [hstray.isTokenByte x (by simp [List.mem_of_getLast? hc])] at hx
        exact Bool.noConfusion hx
  · rcases List.append_eq_append_iff.1 hv with ⟨c, rfl, rfl⟩ | ⟨c, rfl, rfl⟩
    · cases hc : c.head? with
      | none =>
        obtain rfl := List.head?_eq_none_iff.1 hc
        rcases hstray.mem_of_suffix ht₂ with hmem | hmem
        · exact h95 (by simpa using hmem)
        · exact htick (by simpa using hmem)
      | some x =>
        have hx := hhead x (by rw [List.head?_append, hc]; rfl)
        rw [hstray.isTokenByte x (by simp [List.mem_of_head? hc])] at hx
        exact Bool.noConfusion hx
    · rcases hstray.mem_of_suffix ht₂ with hmem | hmem
      · exact h95 (List.mem_append_left _ hmem)
      · exact htick (List.mem_append_left _ hmem)

namespace Settled

variable {prev q : Option UInt8} {s : Bytes}

theorem left (h : Settled ticks n prev (u ++ v)) : Settled ticks n prev u := by
  rintro a t b rfl hstray
  exact h a t (b ++ v) (by simp) hstray

theorem right (h : Settled ticks n prev (u ++ v)) : Settled ticks n (u.getLast?.or prev) v := by
  rintro a t b rfl hstray
  have hword := h (u ++ a) t b (by simp) hstray
  rwa [List.getLast?_append, Option.or_assoc] at hword

theorem right_of_ne_nil {w : Bytes} (h : Settled ticks n prev (u ++ v ++ w)) (hv : v ≠ []) :
    Settled ticks n v.getLast? w := by
  have hright := h.right
  rw [List.getLast?_append] at hright
  cases hlast : v.getLast? with
  | none => exact absurd (List.getLast?_eq_none_iff.1 hlast) hv
  | some x =>
    rw [hlast] at hright
    exact hright

/-- The byte in front of a text does not matter if it is a word byte, or no word byte before, or if
the text starts with no underscore. -/
theorem behind (h : Settled ticks n prev s)
    (hq : prev.any isWord = true → q.any isWord = true ∨ s.head? ≠ some 95) :
    Settled ticks n q s := by
  rintro a t b rfl hstray
  have hword := h a t b rfl hstray
  cases hlast : a.getLast? with
  | some x =>
    rw [hlast] at hword
    exact hword
  | none =>
    obtain rfl := List.getLast?_eq_none_iff.1 hlast
    rcases hq hword with hq | hhead
    · exact hq
    · have h95 := hstray.head
      refine absurd ?_ hhead
      rw [List.nil_append, head?_append_left hstray.ne_nil]
      exact h95

theorem of_none (h : Settled ticks n none s) : Settled ticks n q s :=
  h.behind fun hword => absurd hword Bool.false_ne_true

theorem append (hu : Settled ticks n prev u) (hv : Settled ticks n (u.getLast?.or prev) v)
    (hsealed : Sealed ticks u v) : Settled ticks n prev (u ++ v) := by
  intro a t b h hstray
  rcases append_eq_append_append h with
    ⟨b', hb'⟩ | ⟨a', rfl, ha'⟩ | ⟨t₁, t₂, ht₁, ht₂, rfl, hut, hvt⟩
  · exact hu a t b' hb' hstray
  · have hword := hv a' t b ha' hstray
    rwa [List.getLast?_append, Option.or_assoc]
  · exact absurd hstray (hsealed.not_stray ht₁ ht₂ hut hvt)

end Settled

/-- A text with too few underscores for a placeholder is settled. -/
theorem settled_of_count {s : Bytes} (h : s.count 95 < 4) (prev : Option UInt8) :
    Settled ticks n prev s := by
  rintro a t b rfl hstray
  have hcount := hstray.count
  simp only [List.count_append] at h
  omega

end

/-! ## The text of a statement -/

/-- Outside its literals and without its backticks the statement holds no start of a placeholder, in
any letter case. -/
def Unmarked (sql : Bytes) : Prop :=
  ∀ g ∈ (Shielding.ofText sql).gaps, ¬ marker <:+: (unticked true g).map lowerByte

instance (sql : Bytes) : Decidable (Unmarked sql) :=
  inferInstanceAs (Decidable (∀ g ∈ _, _))

theorem unmarked_nil : Unmarked [] := by
  decide +kernel

theorem followsGap_unticked {s : Bytes} (h : FollowsGap s) :
    FollowsGap ((unticked true s).map lowerByte) := by
  rcases h with rfl | ⟨rest, rfl⟩
  · exact Or.inl rfl
  · refine Or.inr ⟨(unticked true rest).map lowerByte, ?_⟩
    rw [unticked_append, List.map_append]
    rfl

/-- No stray stretch starts in an unmarked gap. -/
theorem not_stray_of_gap {n : Nat} {g₁ g₂ after t b : Bytes}
    (hgap : ¬ marker <:+: (unticked true (g₁ ++ g₂)).map lowerByte) (hne : g₂ ≠ [])
    (hafter : FollowsGap after) (h : g₂ ++ after = t ++ b) : ¬ Stray true n t := by
  intro hstray
  obtain ⟨ds, -, -, hreads⟩ := hstray.reads
  have hhead : g₂.head? = some 95 := by
    rw [← head?_append_left hne after, h, head?_append_left hstray.ne_nil, hstray.head]
  have hne' : (unticked true g₂).map lowerByte ≠ [] := by
    refine List.ne_nil_of_mem (List.mem_map_of_mem (a := 95) (List.mem_filter.2 ⟨?_, rfl⟩))
    exact List.mem_of_head? hhead
  have hread : (unticked true g₂).map lowerByte ++ (unticked true after).map lowerByte
      = marker ++ (ds ++ markerEnd ++ (unticked true b).map lowerByte) := by
    rw [← List.map_append, ← unticked_append, h, unticked_append, List.map_append, hreads]
    simp only [List.append_assoc]
  obtain ⟨post, hpost⟩ := marker_inside_gap hne' (followsGap_unticked hafter) hread
  apply hgap
  rw [unticked_append, List.map_append, hpost, ← List.append_assoc]
  exact ⟨_, _, rfl⟩

theorem mem_placeholder {k : Nat} {b : UInt8} (hb : b ∈ placeholder k) :
    b ∈ marker ++ markerEnd ∨ isDigit b = true := by
  rw [placeholder, List.mem_append, List.mem_append] at hb
  rcases hb with (hb | hb) | hb
  · exact Or.inl (List.mem_append_left _ hb)
  · exact Or.inr (isDigit_of_mem_decimal hb)
  · exact Or.inl (List.mem_append_right _ hb)

theorem backtick_notMem_placeholder (k : Nat) : backtick ∉ placeholder k := by
  intro h
  rcases mem_placeholder h with h | h
  · exact absurd h (by decide)
  · exact absurd h (by decide)

/-- A stretch at a placeholder in use that reads as a placeholder is the one in use. -/
theorem not_stray_of_placeholder {n k : Nat} (hk : k < n) {t b after : Bytes}
    (h : t ++ b = placeholder k ++ after) : ¬ Stray true n t := by
  intro hstray
  obtain ⟨ds, hne, hds, hreads⟩ := hstray.reads
  have hread : unticked true t ++ unticked true b = placeholder k ++ unticked true after := by
    rw [← unticked_append, h, unticked_append, unticked_of_notMem (backtick_notMem_placeholder k)]
  obtain ⟨w, w₃, hw, hw₁₂, hw₃⟩ := List.map_eq_append_iff.1 hreads
  obtain ⟨w₁, w₂, rfl, hw₁, hw₂⟩ := List.map_eq_append_iff.1 hw₁₂
  -- the letters are those of the placeholder in use, so only the digits could differ
  have hlen : w₁.length = marker.length := by rw [← hw₁, List.length_map]
  have hend : w₃ = markerEnd := by
    have h95 : ∀ b ∈ w₃, b = 95 := by
      intro b hb
      rw [← lowerByte_eq_underscore]
      have hmem : lowerByte b ∈ markerEnd := hw₃ ▸ List.mem_map_of_mem hb
      have hall : ∀ x ∈ markerEnd, x = 95 := by decide
      exact hall _ hmem
    have hlen₃ : w₃.length = 2 := by
      rw [← List.length_map (f := lowerByte), hw₃]
      rfl
    rw [List.eq_replicate_iff.2 ⟨hlen₃, h95⟩]
    rfl
  have hdigits : ∀ b ∈ w₂, isDigit b = true := by
    intro b hb
    rw [← isDigit_lowerByte]
    exact hds (lowerByte b) (hw₂ ▸ List.mem_map_of_mem hb)
  rw [hw, hend, placeholder] at hread
  simp only [List.append_assoc] at hread
  obtain ⟨rfl, hrest⟩ := List.append_inj hread hlen
  have htake := congrArg (List.takeWhile isDigit) hrest
  rw [takeWhile_isDigit_append hdigits,
    takeWhile_isDigit_append fun b hb => isDigit_of_mem_decimal hb] at htake
  refine hstray.other k hk ?_
  rw [hw, htake, hend, placeholder]

theorem isWord_of_mem_placeholder {k : Nat} {b : UInt8} (hb : b ∈ placeholder k) :
    isWord b = true := by
  have hfixed : ∀ x ∈ marker ++ markerEnd, isWord x = true := by decide
  rcases mem_placeholder hb with hb | hb
  · exact hfixed b hb
  · exact isWord_of_isDigit hb

theorem lowerByte_of_mem_placeholder {k : Nat} {b : UInt8} (hb : b ∈ placeholder k) :
    lowerByte b = b := by
  have hfixed : ∀ x ∈ marker ++ markerEnd, lowerByte x = x := by decide
  rcases mem_placeholder hb with hb | hb
  · exact hfixed b hb
  · exact lowerByte_of_isDigit hb

/-- Unmarked gaps with placeholders in use between them are settled: a stray stretch can only start
behind the first byte of a placeholder. -/
theorem settled_numbered {n : Nat} (tail : List (Literal × Bytes)) :
    ∀ (k : Nat) (g : Bytes) (prev : Option UInt8),
      (∀ g' ∈ g :: tail.map Prod.snd, ¬ marker <:+: (unticked true g').map lowerByte) →
      k + tail.length ≤ n → Settled true n prev (g ++ Shielding.numbered k tail) := by
  induction tail with
  | nil =>
    intro k g prev hgaps _ a t b h hstray
    rw [Shielding.numbered, List.append_nil, List.append_assoc] at h
    subst h
    exact absurd hstray (not_stray_of_gap (hgaps _ List.mem_cons_self)
      (List.append_ne_nil_of_left_ne_nil hstray.ne_nil b) (Or.inl rfl) (List.append_nil _))
  | cons p tail ih =>
    obtain ⟨l, gap⟩ := p
    intro k g prev hgaps hk a t b h hstray
    obtain ⟨hg, hgaps⟩ := List.forall_mem_cons.1 hgaps
    have hafter := Shielding.followsGap_numbered k ((l, gap) :: tail)
    rw [List.append_assoc] at h
    -- no stray stretch starts in the first gap
    obtain ⟨c, rfl, hc⟩ : ∃ c, a = g ++ c ∧
        Shielding.numbered k ((l, gap) :: tail) = c ++ (t ++ b) := by
      rcases List.append_eq_append_iff.1 h with ⟨c, ha, hc⟩ | ⟨c, rfl, hc⟩
      · exact ⟨c, ha, hc⟩
      · by_cases hne : c = []
        · subst hne
          exact ⟨[], by simp, by simpa using hc.symm⟩
        · exact absurd hstray (not_stray_of_gap hg hne hafter hc.symm)
    rw [Shielding.numbered, List.append_assoc] at hc
    rw [List.length_cons] at hk
    -- it starts behind the placeholder, or inside it, where a word byte stands in front
    rcases List.append_eq_append_iff.1 hc with ⟨d, rfl, hd⟩ | ⟨d, hplace, hd⟩
    · have hword := ih (k + 1) gap (some 95) hgaps (by omega) d t b (by rw [hd, List.append_assoc])
        hstray
      have hlast : (placeholder k).getLast? = some 95 := by
        rw [placeholder, List.getLast?_append]
        rfl
      rw [← List.append_assoc, List.getLast?_append, List.getLast?_append, hlast]
      cases hd : d.getLast? with
      | none => rfl
      | some x =>
        rw [hd] at hword
        exact hword
    · cases hlast : c.getLast? with
      | none =>
        obtain rfl := List.getLast?_eq_none_iff.1 hlast
        rw [List.nil_append] at hplace
        subst hplace
        exact absurd hstray (not_stray_of_placeholder (by omega) hd)
      | some x =>
        have hx : x ∈ placeholder k := by
          rw [hplace]
          exact List.mem_append_left d (List.mem_of_getLast? hlast)
        rw [List.getLast?_append, hlast]
        exact isWord_of_mem_placeholder hx

/-- The text of an unmarked statement is settled. -/
theorem settled_shield {sql : Bytes} (h : Unmarked sql) :
    Settled true (shield sql).2.length none (shield sql).1 :=
  settled_numbered _ 0 _ none h (by simp [shield, Shielding.literals])

/-! ## Names without backticks -/

/-- The second text is the first with its names written anew: backticks are dropped or become double
quotes, double quotes are doubled, and letters may become small. -/
inductive Respells : Bytes → Bytes → Prop where
  | nil : Respells [] []
  | keep (b : UInt8) {s t : Bytes} (h : Respells s t) : Respells (b :: s) (b :: t)
  | lower (b : UInt8) {s t : Bytes} (h : Respells s t) : Respells (b :: s) (lowerByte b :: t)
  | drop {s t : Bytes} (h : Respells s t) : Respells (backtick :: s) t
  | quote {s t : Bytes} (h : Respells s t) : Respells (backtick :: s) (doubleQuote :: t)
  | double {s t : Bytes} (h : Respells s t) :
      Respells (doubleQuote :: s) (doubleQuote :: doubleQuote :: t)

namespace Respells

variable {s t s' t' : Bytes}

theorem refl (s : Bytes) : Respells s s := by
  induction s with
  | nil => exact .nil
  | cons b s ih => exact .keep b ih

theorem append (h : Respells s t) (h' : Respells s' t') : Respells (s ++ s') (t ++ t') := by
  induction h with
  | nil => exact h'
  | keep b _ ih => exact .keep b ih
  | lower b _ ih => exact .lower b ih
  | drop _ ih => exact .drop ih
  | quote _ ih => exact .quote ih
  | double _ ih => exact .double ih

theorem ne_nil (h : Respells s t) (ht : t ≠ []) : s ≠ [] := by
  rintro rfl
  cases h
  exact ht rfl

/-- Where the new text goes on with an underscore, so does the old one at the same place. -/
theorem split_at_underscore {a u : Bytes} (h : Respells s t) (ht : t = a ++ u)
    (hu : u.head? = some 95) :
    ∃ s₁ s₂, s = s₁ ++ s₂ ∧ s₂.head? = some 95 ∧ Respells s₁ a ∧ Respells s₂ u := by
  -- an underscore is kept or lowered, and never written by a quote
  induction h generalizing a with
  | nil =>
    rw [(List.append_eq_nil_iff.1 ht.symm).2] at hu
    cases hu
  | @keep b s t h ih =>
    cases a with
    | nil =>
      rw [List.nil_append] at ht
      subst ht
      exact ⟨[], b :: s, rfl, hu, .nil, .keep b h⟩
    | cons x a =>
      obtain ⟨rfl, rfl⟩ := List.cons.inj ht
      obtain ⟨s₁, s₂, rfl, hhead, h₁, h₂⟩ := ih rfl
      exact ⟨b :: s₁, s₂, rfl, hhead, .keep b h₁, h₂⟩
  | @lower b s t h ih =>
    cases a with
    | nil =>
      rw [List.nil_append] at ht
      subst ht
      have hb : b = 95 := lowerByte_eq_underscore.1 (Option.some.inj hu)
      exact ⟨[], b :: s, rfl, congrArg some hb, .nil, .lower b h⟩
    | cons x a =>
      obtain ⟨rfl, rfl⟩ := List.cons.inj ht
      obtain ⟨s₁, s₂, rfl, hhead, h₁, h₂⟩ := ih rfl
      exact ⟨b :: s₁, s₂, rfl, hhead, .lower b h₁, h₂⟩
  | drop _ ih =>
    obtain ⟨s₁, s₂, rfl, hhead, h₁, h₂⟩ := ih ht
    exact ⟨backtick :: s₁, s₂, rfl, hhead, .drop h₁, h₂⟩
  | quote _ ih =>
    cases a with
    | nil =>
      rw [List.nil_append] at ht
      subst ht
      cases hu
    | cons x a =>
      obtain ⟨rfl, rfl⟩ := List.cons.inj ht
      obtain ⟨s₁, s₂, rfl, hhead, h₁, h₂⟩ := ih rfl
      exact ⟨backtick :: s₁, s₂, rfl, hhead, .quote h₁, h₂⟩
  | double _ ih =>
    match a with
    | [] =>
      rw [List.nil_append] at ht
      subst ht
      cases hu
    | [x] =>
      obtain ⟨rfl, rfl⟩ := List.cons.inj ht
      cases hu
    | x :: y :: a =>
      simp only [List.cons_append, List.cons.injEq] at ht
      obtain ⟨rfl, rfl, rfl⟩ := ht
      obtain ⟨s₁, s₂, rfl, hhead, h₁, h₂⟩ := ih rfl
      exact ⟨doubleQuote :: s₁, s₂, rfl, hhead, .double h₁, h₂⟩

/-- What precedes a place without double quotes comes from the start of the old text. -/
theorem split_unquoted {a u : Bytes} (h : Respells s t) (ht : t = a ++ u) (ha : doubleQuote ∉ a) :
    ∃ s₁ s₂, s = s₁ ++ s₂ ∧ Respells s₁ a := by
  induction h generalizing a with
  | nil =>
    rw [(List.append_eq_nil_iff.1 ht.symm).1]
    exact ⟨[], [], rfl, .nil⟩
  | @keep b s t _ ih =>
    cases a with
    | nil => exact ⟨[], b :: s, rfl, .nil⟩
    | cons x a =>
      obtain ⟨rfl, rfl⟩ := List.cons.inj ht
      obtain ⟨s₁, s₂, rfl, h₁⟩ := ih rfl (mt (List.mem_cons_of_mem _) ha)
      exact ⟨b :: s₁, s₂, rfl, .keep b h₁⟩
  | @lower b s t _ ih =>
    cases a with
    | nil => exact ⟨[], b :: s, rfl, .nil⟩
    | cons x a =>
      obtain ⟨rfl, rfl⟩ := List.cons.inj ht
      obtain ⟨s₁, s₂, rfl, h₁⟩ := ih rfl (mt (List.mem_cons_of_mem _) ha)
      exact ⟨b :: s₁, s₂, rfl, .lower b h₁⟩
  | drop _ ih =>
    obtain ⟨s₁, s₂, rfl, h₁⟩ := ih ht ha
    exact ⟨backtick :: s₁, s₂, rfl, .drop h₁⟩
  | @quote s t _ ih =>
    cases a with
    | nil => exact ⟨[], backtick :: s, rfl, .nil⟩
    | cons x a =>
      obtain ⟨rfl, -⟩ := List.cons.inj ht
      exact absurd List.mem_cons_self ha
  | @double s t _ ih =>
    cases a with
    | nil => exact ⟨[], doubleQuote :: s, rfl, .nil⟩
    | cons x a =>
      obtain ⟨rfl, -⟩ := List.cons.inj ht
      exact absurd List.mem_cons_self ha

/-- Without quotes only letter case differs, and not where all letters are small. -/
theorem of_unquoted (h : Respells s t) (hquote : doubleQuote ∉ t) (htick : backtick ∉ t) :
    t.map lowerByte = (unticked true s).map lowerByte ∧
      ((∀ b ∈ unticked true s, lowerByte b = b) → t = unticked true s) := by
  have hkeep : ∀ {b : UInt8} (s : Bytes), b ≠ backtick →
      unticked true (b :: s) = b :: unticked true s := by
    intro b s hb
    rw [unticked, List.filter_cons, if_pos (by simpa using hb)]
    rfl
  induction h with
  | nil => exact ⟨rfl, fun _ => rfl⟩
  | @keep b s t _ ih =>
    rw [List.mem_cons, not_or] at hquote htick
    obtain ⟨hlower, hsmall⟩ := ih hquote.2 htick.2
    rw [hkeep s (Ne.symm htick.1), List.map_cons, List.map_cons, hlower, List.forall_mem_cons]
    exact ⟨rfl, fun h => by rw [← hsmall h.2]⟩
  | @lower b s t _ ih =>
    rw [List.mem_cons, not_or] at hquote htick
    obtain ⟨hlower, hsmall⟩ := ih hquote.2 htick.2
    have hb : b ≠ backtick := by
      rintro rfl
      exact htick.1 rfl
    rw [hkeep s hb, List.map_cons, List.map_cons, hlower, lowerByte_lowerByte, List.forall_mem_cons]
    exact ⟨rfl, fun h => by rw [h.1, ← hsmall h.2]⟩
  | drop _ ih => exact ih hquote htick
  | quote => exact absurd List.mem_cons_self hquote
  | double => exact absurd List.mem_cons_self hquote

/-- A word byte at the end stays there. -/
theorem getLast?_isWord (h : Respells s t) {p q : Option UInt8}
    (hpq : p.any isWord = true → q.any isWord = true)
    (hs : (s.getLast?.or p).any isWord = true) : (t.getLast?.or q).any isWord = true := by
  have hcons : ∀ (b : UInt8) (s : Bytes) (p : Option UInt8),
      (b :: s).getLast?.or p = s.getLast?.or (some b) := by
    intro b s p
    rw [List.getLast?_cons]
    cases s.getLast? <;> rfl
  induction h generalizing p q with
  | nil => exact hpq hs
  | keep b _ ih =>
    rw [hcons] at hs ⊢
    exact ih id hs
  | lower b _ ih =>
    rw [hcons] at hs ⊢
    refine ih (fun hb => ?_) hs
    rw [Option.any_some, isWord_lowerByte]
    exact hb
  | drop _ ih =>
    rw [hcons] at hs
    exact ih (p := some backtick) (fun hb => absurd hb (by decide)) hs
  | quote _ ih =>
    rw [hcons] at hs ⊢
    exact ih (p := some backtick) (fun hb => absurd hb (by decide)) hs
  | double _ ih =>
    rw [hcons] at hs
    rw [hcons, hcons]
    exact ih id hs

/-- A text that is settled through its backticks is settled when they are gone. -/
theorem settled {n : Nat} {prev : Option UInt8} (h : Respells s t) (hs : Settled true n prev s) :
    Settled false n prev t := by
  intro a w b ht hstray
  have htoken := hstray.isTokenByte
  have hquote : doubleQuote ∉ w := fun hmem => absurd (htoken _ hmem) (by decide)
  have htick : backtick ∉ w := fun hmem => absurd (htoken _ hmem) (by decide)
  rw [List.append_assoc] at ht
  obtain ⟨s₁, s₂, rfl, hhead, h₁, h₂⟩ := h.split_at_underscore ht
    ((head?_append_left hstray.ne_nil b).trans hstray.head)
  obtain ⟨v, b', rfl, hv⟩ := h₂.split_unquoted rfl hquote
  obtain ⟨hlower, hsmall⟩ := hv.of_unquoted hquote htick
  have hold : Stray true n v := by
    obtain ⟨ds, hne, hds, hreads⟩ := hstray.reads
    refine ⟨?_, ⟨ds, hne, hds, ?_⟩, ?_⟩
    · rw [← hhead, head?_append_left (hv.ne_nil hstray.ne_nil)]
    · rw [← hlower, ← hreads, unticked_false]
    · intro k hk hplace
      refine hstray.other k hk ?_
      rw [unticked_false, ← hplace]
      exact hsmall (hplace ▸ fun x hx => lowerByte_of_mem_placeholder hx)
  refine h₁.getLast?_isWord id ?_
  exact hs s₁ v b' (by simp) hold

end Respells

theorem respells_doubled (s : Bytes) :
    Respells s (replaceAll [doubleQuote] [doubleQuote, doubleQuote] s) := by
  induction s with
  | nil => exact .nil
  | cons b s ih =>
    rw [replaceAll_cons]
    split
    · rename_i hb
      subst hb
      exact .double ih
    · exact .keep b ih

theorem respells_map_lowerByte (s : Bytes) : Respells s (s.map lowerByte) := by
  induction s with
  | nil => exact .nil
  | cons b s ih => exact .lower b ih

theorem isNameByte_of_needsQuoting {name : Bytes} (h : needsQuoting name = false) :
    ∀ b ∈ name, isNameByte b = true := by
  cases name with
  | nil => exact fun b hb => absurd hb List.not_mem_nil
  | cons x name =>
    rw [needsQuoting, Bool.not_eq_false', Bool.and_eq_true, List.all_eq_true] at h
    intro b hb
    rcases List.mem_cons.1 hb with rfl | hb
    · rw [isNameByte, h.1, Bool.true_or, Bool.true_or]
    · exact h.2 b hb

theorem isNameByte_eq (b : UInt8) : isNameByte b = (isWord b || b == 36) := by
  rw [isNameByte, isNameStart, isWord, Bool.or_right_comm _ (b == 95)]

theorem isNameByte_of_isWord {b : UInt8} (h : isWord b = true) : isNameByte b = true := by
  rw [isNameByte_eq, h, Bool.true_or]

/-- What holds of the word bytes and of the dollar sign holds of every byte of a bare name. -/
theorem forall_isNameByte {P : UInt8 → Prop} (hword : ∀ b, isWord b = true → P b) (hdollar : P 36)
    {b : UInt8} (hb : isNameByte b = true) : P b := by
  rw [isNameByte_eq, Bool.or_eq_true, beq_iff_eq] at hb
  rcases hb with hb | rfl
  · exact hword b hb
  · exact hdollar

theorem ascii_of_needsQuoting {name : Bytes} (h : needsQuoting name = false) :
    ∀ b ∈ name, b < 128 := fun b hb =>
  forall_isNameByte (P := fun b => b < 128) (fun _ => ascii_of_isWord) (by decide)
    (isNameByte_of_needsQuoting h b hb)

/-- A name between backticks is written anew. -/
theorem respells_quoteIdent (name : Bytes) :
    Respells (backtick :: name ++ [backtick]) (quoteIdent name) := by
  have hquoted : ∀ {t : Bytes}, Respells name t →
      Respells (backtick :: name ++ [backtick]) (doubleQuote :: t ++ [doubleQuote]) :=
    fun h => .quote (h.append (.quote .nil))
  rw [quoteIdent]
  split
  · exact hquoted (respells_doubled name)
  · rename_i hplain
    split
    · rw [Bool.not_eq_true, Bool.or_eq_false_iff] at hplain
      rw [toLower_ascii (ascii_of_needsQuoting hplain.2)]
      exact hquoted (respells_map_lowerByte name)
    · have hbare := Respells.drop ((Respells.refl name).append (.drop .nil))
      rwa [List.append_nil] at hbare

theorem respells_replaceBackticks (s : Bytes) : Respells s (replaceBackticks s) := by
  fun_induction replaceBackticks s with
  | case1 => exact .nil
  | case2 s name rest hcut ih =>
    have hs : backtick :: s = backtick :: name ++ [backtick] ++ rest := by
      rw [eq_append_of_cut? hcut]
      rfl
    rw [hs]
    exact (respells_quoteIdent name).append ih
  | case3 s hcut => exact .refl _
  | case4 b s hb ih => exact .keep b ih

end SqlDialect
