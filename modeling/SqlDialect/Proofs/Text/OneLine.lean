import SqlDialect.Proofs.Text.Words

set_option autoImplicit false

/-! # Texts on one line

Words are cut at white space, so a text cut at an ASCII blank has the words of both parts. ASCII
characters without white space at the start or at the end of a text stay there when the text is put
on one line, and what the line holds besides does not depend on them (`oneLine_solid_append`,
`oneLine_append_solid`). -/

namespace SqlDialect

open Bytes

namespace Utf8

theorem isContinuation_of_lt {b : UInt8} (hb : b < 128) : isContinuation b = false := by
  rw [isContinuation, decide_eq_false (UInt8.not_le.2 hb), Bool.false_and]

/-- A byte below 128 ends the sequence in front of it, as the end of the text does. -/
theorem lead_append_ascii {x : UInt8} (hx : x < 128) (b : UInt8) (a s : Bytes) :
    lead b (a ++ x :: s) = lead b a := by
  have hcont := isContinuation_of_lt hx
  have h₃ : ¬ (if b = 0xE0 then (0xA0 : UInt8) else 0x80) ≤ x := by
    split <;> exact UInt8.not_le.2 (UInt8.lt_of_lt_of_le hx (by decide))
  have h₄ : ¬ (if b = 0xF0 then (0x90 : UInt8) else 0x80) ≤ x := by
    split <;> exact UInt8.not_le.2 (UInt8.lt_of_lt_of_le hx (by decide))
  unfold lead
  rcases a with _ | ⟨a₁, _ | ⟨a₂, _ | ⟨a₃, a⟩⟩⟩
  · rcases s with _ | ⟨s₁, _ | ⟨s₂, s⟩⟩ <;> simp [hcont, h₃, h₄]
  · rcases s with _ | ⟨s₁, s⟩ <;> simp [hcont]
  · simp [hcont]
  · simp

theorem glyphs_append_ascii {x : UInt8} (hx : x < 128) (a s : Bytes) :
    glyphs (a ++ x :: s) = glyphs a ++ glyphs (x :: s) := by
  induction h : a.length using Nat.strongRecOn generalizing a with
  | _ n ih =>
    cases a with
    | nil => rfl
    | cons b a =>
      have hlead := lead_append_ascii hx b a s
      have hle := (lead_continuation b a).1
      have hlen : (a.drop (lead b a).2).length < n := by
        rw [← h, List.length_drop, List.length_cons]
        omega
      have hrest := ih _ hlen (a.drop (lead b a).2) rfl
      rw [List.cons_append, glyphs_cons, glyphs_cons, hlead, List.take_append_of_le_length hle,
        List.drop_append_of_le_length hle, hrest, List.cons_append]

theorem glyphs_word_append {v : Bytes} (hv : ∀ b ∈ v, b < 128) (s : Bytes) :
    glyphs (v ++ s) = v.map (fun b => ⟨b.toNat, [b]⟩) ++ glyphs s := by
  induction v with
  | nil => rfl
  | cons b v ih =>
    obtain ⟨hb, hv⟩ := List.forall_mem_cons.1 hv
    rw [List.cons_append, glyphs_cons_ascii hb, ih hv, List.map_cons, List.cons_append]

theorem raw_ne_nil_of_mem_glyphs {s : Bytes} : ∀ g ∈ glyphs s, g.raw ≠ [] := by
  induction h : s.length using Nat.strongRecOn generalizing s with
  | _ n ih =>
    cases s with
    | nil => exact fun g hg => absurd hg List.not_mem_nil
    | cons b s =>
      have hlen : (s.drop (lead b s).2).length < n := by
        rw [← h, List.length_drop, List.length_cons]
        omega
      rw [glyphs_cons]
      exact List.forall_mem_cons.2 ⟨List.cons_ne_nil _ _, ih _ hlen rfl⟩

end Utf8

namespace Bytes

/-! ## Words of characters -/

/-- Puts a text in front of the first word. -/
def prependWord (r : Bytes) : List Bytes → List Bytes
  | [] => [r]
  | w :: ws => (r ++ w) :: ws

theorem wordsOf_cons_space {g : Glyph} (hg : isSpace g.code = true) (gs : List Glyph) :
    wordsOf (g :: gs) = wordsOf gs := by
  rw [wordsOf.eq_def]
  exact if_pos hg

section

variable {g f : Glyph} (hg : isSpace g.code = false)
include hg

theorem wordsOf_singleton : wordsOf [g] = [g.raw] := by
  rw [wordsOf.eq_def]
  exact if_neg (by rw [hg]; exact Bool.false_ne_true)

theorem wordsOf_cons_cons_space (hf : isSpace f.code = true) (gs : List Glyph) :
    wordsOf (g :: f :: gs) = g.raw :: wordsOf gs := by
  rw [wordsOf.eq_def]
  simp only [hg, hf, wordsOf_cons_space hf]
  rfl

theorem wordsOf_cons_cons (hf : isSpace f.code = false) (gs : List Glyph) :
    wordsOf (g :: f :: gs) = prependWord g.raw (wordsOf (f :: gs)) := by
  rw [wordsOf.eq_def]
  simp only [hg, hf]
  cases wordsOf (f :: gs) <;> rfl

theorem wordsOf_cons_ne_nil (gs : List Glyph) : wordsOf (g :: gs) ≠ [] := by
  cases gs with
  | nil =>
    rw [wordsOf_singleton hg]
    exact List.cons_ne_nil _ _
  | cons next gs =>
    cases hnext : isSpace next.code with
    | true =>
      rw [wordsOf_cons_cons_space hg hnext]
      exact List.cons_ne_nil _ _
    | false =>
      rw [wordsOf_cons_cons hg hnext]
      cases wordsOf (next :: gs) <;> exact List.cons_ne_nil _ _

end

theorem wordsOf_append_space {g : Glyph} (hg : isSpace g.code = true) (gs hs : List Glyph) :
    wordsOf (gs ++ g :: hs) = wordsOf gs ++ wordsOf hs := by
  induction gs with
  | nil => exact wordsOf_cons_space hg hs
  | cons f gs ih =>
    rw [List.cons_append]
    cases hf : isSpace f.code with
    | true => rw [wordsOf_cons_space hf, wordsOf_cons_space hf, ih]
    | false =>
      cases gs with
      | nil =>
        rw [List.nil_append, wordsOf_cons_cons_space hf hg, wordsOf_singleton hf]
        rfl
      | cons next gs =>
        rw [List.cons_append] at ih ⊢
        cases hnext : isSpace next.code with
        | true =>
          rw [wordsOf_cons_space hnext, wordsOf_cons_space hnext] at ih
          rw [wordsOf_cons_cons_space hf hnext, wordsOf_cons_cons_space hf hnext, ih]
          rfl
        | false =>
          rw [wordsOf_cons_cons hf hnext, wordsOf_cons_cons hf hnext, ih]
          obtain ⟨w, ws, hw⟩ := List.exists_cons_of_ne_nil (wordsOf_cons_ne_nil hnext gs)
          rw [hw]
          rfl

/-- A blank of ASCII cuts the words of a text. -/
theorem words_append_blank {x : UInt8} (hx : x < 128 ∧ isSpace x.toNat = true) (a s : Bytes) :
    words (a ++ x :: s) = words a ++ words s := by
  simp only [words, Utf8.glyphs_append_ascii hx.1, Utf8.glyphs_cons_ascii hx.1]
  exact wordsOf_append_space (g := ⟨x.toNat, [x]⟩) hx.2 _ _

/-- Words consist of bytes of the text. -/
theorem exists_glyph_of_mem_wordsOf {gs : List Glyph} {v : Bytes} (hv : v ∈ wordsOf gs) {b : UInt8}
    (hb : b ∈ v) : ∃ g ∈ gs, b ∈ g.raw := by
  induction gs generalizing v with
  | nil => cases hv
  | cons f gs ih =>
    have hrest : ∀ {v : Bytes}, v ∈ wordsOf gs → b ∈ v → ∃ g ∈ f :: gs, b ∈ g.raw := by
      intro v hv hb
      obtain ⟨g, hg, hraw⟩ := ih hv hb
      exact ⟨g, List.mem_cons_of_mem f hg, hraw⟩
    cases hf : isSpace f.code with
    | true => exact hrest (by rwa [wordsOf_cons_space hf] at hv) hb
    | false =>
      cases gs with
      | nil =>
        rw [wordsOf_singleton hf, List.mem_singleton] at hv
        exact ⟨f, List.mem_cons_self, hv ▸ hb⟩
      | cons next gs =>
        cases hnext : isSpace next.code with
        | true =>
          rw [wordsOf_cons_cons_space hf hnext, List.mem_cons] at hv
          rcases hv with rfl | hv
          · exact ⟨f, List.mem_cons_self, hb⟩
          · exact hrest (by rwa [wordsOf_cons_space hnext]) hb
        | false =>
          obtain ⟨u, us, hus⟩ := List.exists_cons_of_ne_nil (wordsOf_cons_ne_nil hnext gs)
          rw [wordsOf_cons_cons hf hnext, hus, prependWord, List.mem_cons] at hv
          rcases hv with rfl | hv
          · rcases List.mem_append.1 hb with hb | hb
            · exact ⟨f, List.mem_cons_self, hb⟩
            · exact hrest (hus ▸ List.mem_cons_self) hb
          · exact hrest (hus ▸ List.mem_cons_of_mem u hv) hb

theorem mem_of_mem_words {s v : Bytes} (hv : v ∈ words s) {b : UInt8} (hb : b ∈ v) : b ∈ s := by
  obtain ⟨g, hg, hraw⟩ := exists_glyph_of_mem_wordsOf hv hb
  rw [← Utf8.ofGlyphs_glyphs s]
  exact List.mem_flatMap.2 ⟨g, hg, hraw⟩

/-! ## Words at an end -/

/-- ASCII characters without white space, which stay in one word. -/
def Solid (v : Bytes) : Prop :=
  v ≠ [] ∧ ∀ b ∈ v, b < 128 ∧ isSpace b.toNat = false

instance (v : Bytes) : Decidable (Solid v) :=
  inferInstanceAs (Decidable (_ ∧ _))

theorem IsWord.solid {v : Bytes} (hv : IsWord v) : Solid v :=
  ⟨hv.1, fun b hb => ⟨ascii_of_isWord (hv.2 b hb), not_isSpace_of_isWord (hv.2 b hb)⟩⟩

theorem Solid.ascii {v : Bytes} (hv : Solid v) : ∀ b ∈ v, b < 128 :=
  fun b hb => (hv.2 b hb).1

theorem wordsOf_solid_append {v : Bytes} (hv : Solid v) (gs : List Glyph) :
    wordsOf (v.map (fun b => ⟨b.toNat, [b]⟩) ++ gs)
      = if gs.head?.any fun g => !isSpace g.code then prependWord v (wordsOf gs)
        else v :: wordsOf gs := by
  obtain ⟨hne, hword⟩ := hv
  induction v with
  | nil => exact absurd rfl hne
  | cons b v ih =>
    obtain ⟨hb, hv⟩ := List.forall_mem_cons.1 hword
    have hspace := hb.2
    cases v with
    | nil =>
      rw [List.map_cons, List.map_nil, List.cons_append, List.nil_append]
      cases gs with
      | nil => exact wordsOf_singleton (g := ⟨b.toNat, [b]⟩) hspace
      | cons next gs =>
        cases hnext : isSpace next.code with
        | true =>
          simp [wordsOf_cons_cons_space (g := ⟨b.toNat, [b]⟩) hspace hnext, hnext,
            wordsOf_cons_space hnext]
        | false => simp [wordsOf_cons_cons (g := ⟨b.toNat, [b]⟩) hspace hnext, hnext]
    | cons c v =>
      have hrest := ih (List.cons_ne_nil c v) hv
      have hcspace := (List.forall_mem_cons.1 hv).1.2
      rw [List.map_cons, List.cons_append] at hrest ⊢
      rw [List.map_cons, List.cons_append, wordsOf_cons_cons (g := ⟨b.toNat, [b]⟩)
        (f := ⟨c.toNat, [c]⟩) hspace hcspace, hrest]
      split
      · cases wordsOf gs <;> rfl
      · rfl

theorem wordsOf_solid {v : Bytes} (hv : Solid v) :
    wordsOf (v.map fun b => ⟨b.toNat, [b]⟩) = [v] := by
  have halone := wordsOf_solid_append hv []
  rwa [List.append_nil] at halone

theorem join_append {sep : Bytes} {ps qs : List Bytes} (hps : ps ≠ []) (hqs : qs ≠ []) :
    join sep (ps ++ qs) = join sep ps ++ sep ++ join sep qs := by
  induction ps with
  | nil => exact absurd rfl hps
  | cons p ps ih =>
    cases ps with
    | nil =>
      rw [join, join, List.singleton_append, List.intercalate_cons_of_ne_nil hqs]
      simp [join, List.intercalate]
    | cons next ps =>
      have hrest := ih (List.cons_ne_nil next ps)
      rw [join, join] at hrest ⊢
      rw [List.cons_append, List.intercalate_cons_of_ne_nil (by simp),
        List.intercalate_cons_of_ne_nil (List.cons_ne_nil next ps), hrest]
      simp only [List.append_assoc]

/-- A joined part stands between separators. -/
theorem join_of_mem (sep : Bytes) {part : Bytes} {parts : List Bytes} (h : part ∈ parts) :
    ∃ before after, join sep parts = before ++ part ++ after ∧
      (before = [] ∨ ∃ b, before = b ++ sep) ∧ (after = [] ∨ ∃ a, after = sep ++ a) := by
  obtain ⟨qs, rs, rfl⟩ := List.append_of_mem h
  have hone : join sep [part] = part := by simp [join, List.intercalate]
  have htail : ∃ after, join sep (part :: rs) = part ++ after ∧
      (after = [] ∨ ∃ a, after = sep ++ a) := by
    cases rs with
    | nil => exact ⟨[], by rw [hone, List.append_nil], Or.inl rfl⟩
    | cons r rs =>
      have hsplit : join sep ([part] ++ r :: rs) = join sep [part] ++ sep ++ join sep (r :: rs) :=
        join_append (List.cons_ne_nil part []) (List.cons_ne_nil r rs)
      refine ⟨sep ++ join sep (r :: rs), ?_, Or.inr ⟨_, rfl⟩⟩
      rw [← List.singleton_append, hsplit, hone, List.append_assoc]
  obtain ⟨after, hafter, hend⟩ := htail
  cases qs with
  | nil => exact ⟨[], after, hafter, Or.inl rfl, hend⟩
  | cons q qs =>
    refine ⟨join sep (q :: qs) ++ sep, after, ?_, Or.inr ⟨_, rfl⟩, hend⟩
    rw [join_append (List.cons_ne_nil q qs) (List.cons_ne_nil part rs), hafter]
    simp only [List.append_assoc]

theorem oneLine_append_blank {x : UInt8} (hx : x < 128 ∧ isSpace x.toNat = true) {a s : Bytes}
    (ha : words a ≠ []) (hs : words s ≠ []) :
    oneLine (a ++ x :: s) = oneLine a ++ (32 :: oneLine s) := by
  rw [oneLine, words_append_blank hx, join_append ha hs, List.append_assoc]
  rfl

theorem mem_of_mem_join {sep : Bytes} {parts : List Bytes} {b : UInt8} (hb : b ∈ join sep parts) :
    b ∈ sep ∨ ∃ part ∈ parts, b ∈ part := by
  induction parts with
  | nil => cases hb
  | cons part parts ih =>
    cases parts with
    | nil => exact Or.inr ⟨part, List.mem_cons_self, by simpa [join] using hb⟩
    | cons next parts =>
      rw [join, List.intercalate_cons_of_ne_nil (List.cons_ne_nil next parts), List.append_assoc,
        List.mem_append, List.mem_append] at hb
      rcases hb with hb | hb | hb
      · exact Or.inr ⟨part, List.mem_cons_self, hb⟩
      · exact Or.inl hb
      · rcases ih hb with hsep | ⟨p, hp, hb⟩
        · exact Or.inl hsep
        · exact Or.inr ⟨p, List.mem_cons_of_mem part hp, hb⟩

/-- A line holds single spaces and bytes of the text. -/
theorem mem_of_mem_oneLine {s : Bytes} {b : UInt8} (hb : b ∈ oneLine s) : b = 32 ∨ b ∈ s := by
  rcases mem_of_mem_join hb with hsep | ⟨v, hv, hbv⟩
  · exact Or.inl (List.mem_singleton.1 hsep)
  · exact Or.inr (mem_of_mem_words hv hbv)

theorem words_ne_nil {s : Bytes} (h : oneLine s ≠ []) : words s ≠ [] := by
  intro hnil
  rw [oneLine, hnil] at h
  exact h rfl

theorem words_solid {v : Bytes} (hv : Solid v) : words v = [v] := by
  rw [words, Utf8.glyphs_ascii hv.ascii, wordsOf_solid hv]

theorem oneLine_solid {v : Bytes} (hv : Solid v) : oneLine v = v := by
  rw [oneLine, words_solid hv]
  simp [join, List.intercalate]

/-- The rest of the line does not depend on what is in front. -/
theorem oneLine_solid_append (s : Bytes) :
    ∃ tail, ∀ v, Solid v → oneLine (v ++ s) = v ++ tail := by
  have hwords : ∀ v, Solid v → words (v ++ s)
      = if (Utf8.glyphs s).head?.any fun g => !isSpace g.code then prependWord v (words s)
        else v :: words s := by
    intro v hv
    rw [words, Utf8.glyphs_word_append hv.ascii, wordsOf_solid_append hv]
    rfl
  by_cases hjoin : ((Utf8.glyphs s).head?.any fun g => !isSpace g.code) = true
  · refine ⟨oneLine s, fun v hv => ?_⟩
    rw [oneLine, hwords v hv, if_pos hjoin, oneLine]
    cases hs : words s with
    | nil => simp [prependWord, join, List.intercalate]
    | cons w ws => cases ws <;> simp [prependWord, join, List.intercalate]
  · refine ⟨if words s = [] then [] else 32 :: oneLine s, fun v hv => ?_⟩
    rw [oneLine, hwords v hv, if_neg hjoin]
    split
    · rename_i hs
      simp [hs, join, List.intercalate]
    · rename_i hs
      rw [join, List.intercalate_cons_of_ne_nil hs, List.append_assoc]
      rfl

/-- A text that ends where characters do still does with a character more in front. -/
theorem endsWith_ofGlyphs_cons {g : Glyph} {gs : List Glyph} {u : Bytes}
    (hu : u = [] ∨ u.getLast? = (Utf8.ofGlyphs gs).getLast?) :
    u = [] ∨ u.getLast? = (Utf8.ofGlyphs (g :: gs)).getLast? := by
  cases hy : u.getLast? with
  | none => exact Or.inl (List.getLast?_eq_none_iff.1 hy)
  | some y =>
    right
    have hgs := hu.resolve_left (by rintro rfl; cases hy)
    rw [Utf8.ofGlyphs, List.flatMap_cons, List.getLast?_append,
      show (gs.flatMap Glyph.raw).getLast? = some y from hgs.symm.trans hy]
    rfl

/-- A character that is no white space joins the word behind it. -/
theorem wordsOf_cons_solid {g : Glyph} (hg : isSpace g.code = false) {v : Bytes} (hv : Solid v) :
    wordsOf (g :: v.map fun b => ⟨b.toNat, [b]⟩) = [g.raw ++ v] := by
  obtain ⟨b, v, rfl⟩ := List.exists_cons_of_ne_nil hv.1
  have hb := (hv.2 b List.mem_cons_self).2
  have hrest := wordsOf_solid hv
  rw [List.map_cons] at hrest ⊢
  rw [wordsOf_cons_cons hg (f := ⟨b.toNat, [b]⟩) hb, hrest]
  rfl

/-- What characters make in front of others: whole words, and the start of one. -/
theorem wordsOf_append_solid {gs : List Glyph} (hgs : ∀ g ∈ gs, g.raw ≠ []) :
    ∃ (ws : List Bytes) (u : Bytes),
      (∀ v, Solid v → wordsOf (gs ++ v.map fun b => ⟨b.toNat, [b]⟩) = ws ++ [u ++ v]) ∧
      (u = [] ∨ u.getLast? = (Utf8.ofGlyphs gs).getLast?) ∧
      (ws = [] → u = [] → ∀ g ∈ gs, isSpace g.code = true) := by
  induction gs with
  | nil =>
    exact ⟨[], [], fun v hv => wordsOf_solid hv, Or.inl rfl,
      fun _ _ g hg => absurd hg List.not_mem_nil⟩
  | cons g gs ih =>
    obtain ⟨hraw, hgs⟩ := List.forall_mem_cons.1 hgs
    obtain ⟨ws, u, hwords, hu, hall⟩ := ih hgs
    cases hg : isSpace g.code with
    | true =>
      refine ⟨ws, u, fun v hv => ?_, endsWith_ofGlyphs_cons hu, fun hws hnil => ?_⟩
      · rw [List.cons_append, wordsOf_cons_space hg, hwords v hv]
      · exact List.forall_mem_cons.2 ⟨hg, hall hws hnil⟩
    | false =>
      cases gs with
      | nil =>
        exact ⟨[], g.raw, fun v hv => wordsOf_cons_solid hg hv, Or.inr (by simp [Utf8.ofGlyphs]),
          fun _ hnil => absurd hnil hraw⟩
      | cons next gs =>
        cases hnext : isSpace next.code with
        | true =>
          refine ⟨g.raw :: ws, u, fun v hv => ?_, endsWith_ofGlyphs_cons hu, fun hws =>
            absurd hws (List.cons_ne_nil _ _)⟩
          have hrest := hwords v hv
          rw [List.cons_append, wordsOf_cons_space hnext] at hrest
          rw [List.cons_append, List.cons_append, wordsOf_cons_cons_space hg hnext, hrest]
          rfl
        | false =>
          have hjoin : ∀ v, Solid v →
              wordsOf (g :: next :: gs ++ v.map fun b => ⟨b.toNat, [b]⟩)
                = prependWord g.raw (ws ++ [u ++ v]) := by
            intro v hv
            rw [List.cons_append, List.cons_append, wordsOf_cons_cons hg hnext, ← hwords v hv]
            rfl
          -- the character joins the first word, which is the last one if there is no other
          cases ws with
          | cons w ws =>
            exact ⟨(g.raw ++ w) :: ws, u, hjoin, endsWith_ofGlyphs_cons hu, fun hws =>
              absurd hws (List.cons_ne_nil _ _)⟩
          | nil =>
            have hne : u ≠ [] := by
              rintro rfl
              have hspace := hall rfl rfl next List.mem_cons_self
              exact Bool.noConfusion (hnext.symm.trans hspace)
            refine ⟨[], g.raw ++ u, fun v hv => by rw [hjoin v hv, List.append_assoc]; rfl,
              Or.inr ?_, fun _ hnil => absurd (List.append_eq_nil_iff.1 hnil).2 hne⟩
            obtain ⟨y, hy⟩ := Option.ne_none_iff_exists'.1 (mt List.getLast?_eq_none_iff.1 hne)
            have hall := (endsWith_ofGlyphs_cons (g := g) hu).resolve_left hne
            rw [← hall, List.getLast?_append, hy]
            rfl

/-- Behind a text that does not end in a word the line in front does not depend on what follows, and
does not end in a word either. -/
theorem oneLine_append_solid {s : Bytes} (hs : s.getLast?.any isWord = false) :
    ∃ head : Bytes, head.getLast?.any isWord = false ∧
      ∀ v, Solid v → oneLine (s ++ v) = head ++ v := by
  obtain ⟨ws, u, hwords, hu, -⟩ := wordsOf_append_solid (Utf8.raw_ne_nil_of_mem_glyphs (s := s))
  have hu : u.getLast?.any isWord = false := by
    rcases hu with rfl | hu
    · rfl
    · rwa [hu, Utf8.ofGlyphs_glyphs]
  have hsplit : ∀ v, Solid v → words (s ++ v) = ws ++ [u ++ v] := by
    intro v hv
    obtain ⟨b, v, rfl⟩ := List.exists_cons_of_ne_nil hv.1
    rw [words, Utf8.glyphs_append_ascii (hv.ascii b List.mem_cons_self), ← hwords _ hv,
      Utf8.glyphs_ascii hv.ascii]
  have hsingle : ∀ w : Bytes, join [32] [w] = w := fun w => by simp [join, List.intercalate]
  by_cases hws : ws = []
  · subst hws
    exact ⟨u, hu, fun v hv => by rw [oneLine, hsplit v hv, List.nil_append, hsingle]⟩
  · refine ⟨join [32] ws ++ [32] ++ u, ?_, fun v hv => ?_⟩
    · rw [List.getLast?_append]
      cases hlast : u.getLast? with
      | none => simp; decide
      | some y => rwa [hlast] at hu
    · rw [oneLine, hsplit v hv, join_append hws (List.cons_ne_nil _ _), hsingle]
      simp only [List.append_assoc]

/-- Two words with blanks between them, behind a text that does not end in a word. -/
theorem oneLine_blanks_between {s : Bytes} (hs : s.getLast?.any isWord = false) (r : Bytes) :
    ∃ head tail : Bytes, head.getLast?.any isWord = false ∧
      ∀ v bl w, Solid v → bl ≠ [] → (∀ b ∈ bl, b < 128 ∧ isSpace b.toNat = true) → Solid w →
        oneLine (s ++ v ++ bl ++ w ++ r) = head ++ (v ++ (32 :: (w ++ tail))) := by
  obtain ⟨head, hhead, hv⟩ := oneLine_append_solid hs
  obtain ⟨tail, hw⟩ := oneLine_solid_append r
  refine ⟨head, tail, hhead, fun v bl w hvword hne hbl hwword => ?_⟩
  have hdrop : ∀ {bl : Bytes}, (∀ b ∈ bl, b < 128 ∧ isSpace b.toNat = true) → ∀ s : Bytes,
      words (bl ++ s) = words s := by
    intro bl hbl s
    induction bl with
    | nil => rfl
    | cons b bl ih =>
      obtain ⟨hb, hbl⟩ := List.forall_mem_cons.1 hbl
      rw [List.cons_append, words_cons_space hb, ih hbl]
  obtain ⟨b, bl, rfl⟩ := List.exists_cons_of_ne_nil hne
  obtain ⟨hb, hbl⟩ := List.forall_mem_cons.1 hbl
  have hleft : words (s ++ v) ≠ [] :=
    words_ne_nil (by rw [hv v hvword]; exact List.append_ne_nil_of_right_ne_nil _ hvword.1)
  have hright : words (bl ++ (w ++ r)) ≠ [] := by
    rw [hdrop hbl]
    exact words_ne_nil (by rw [hw w hwword]; exact List.append_ne_nil_of_left_ne_nil hwword.1 _)
  calc oneLine (s ++ v ++ b :: bl ++ w ++ r)
      = oneLine (s ++ v) ++ (32 :: oneLine (bl ++ (w ++ r))) := by
        rw [← oneLine_append_blank hb hleft hright]
        simp only [List.append_assoc, List.cons_append]
    _ = head ++ (v ++ (32 :: (w ++ tail))) := by
        rw [hv v hvword, oneLine, hdrop hbl, ← oneLine, hw w hwword, List.append_assoc]

end Bytes

end SqlDialect
