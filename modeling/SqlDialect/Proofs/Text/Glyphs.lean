import SqlDialect.Text.Space

set_option autoImplicit false

/-! # Reading text as characters

Reading a text as characters loses nothing, and a byte below 128 is always a character of its own:
it is never taken for the continuation of another one. So trimming white space only cuts the text
at both ends. -/

namespace SqlDialect

namespace Utf8

/-- A character takes no more bytes than there are, and all but its first are 128 or more. -/
theorem lead_continuation (b : UInt8) (s : Bytes) :
    (lead b s).2 ≤ s.length ∧ ∀ c ∈ s.take (lead b s).2, 128 ≤ c := by
  -- the bounds of the second byte depend on the first, but never lie below 128
  have h₃ : (128 : UInt8) ≤ if b = 0xE0 then 0xA0 else 0x80 := by split <;> decide
  have h₄ : (128 : UInt8) ≤ if b = 0xF0 then 0x90 else 0x80 := by split <;> decide
  unfold lead
  generalize (if b = 0xE0 then (0xA0 : UInt8) else 0x80) = low₃ at h₃ ⊢
  generalize (if b = 0xF0 then (0x90 : UInt8) else 0x80) = low₄ at h₄ ⊢
  generalize (if b = 0xED then (0x9F : UInt8) else 0xBF) = high₃
  generalize (if b = 0xF4 then (0x8F : UInt8) else 0xBF) = high₄
  split
  · simp
  split
  · split
    · split
      · rename_i b₁ _ h
        simp only [isContinuation, Bool.and_eq_true, decide_eq_true_eq] at h
        simpa using h.1
      · simp
    · simp
  split
  · split
    · rename_i b₁ b₂ _
      dsimp only
      split
      · rename_i h
        simp only [isContinuation, Bool.and_eq_true, decide_eq_true_eq] at h
        simpa using ⟨UInt8.le_trans h₃ h.1.1, h.2.1⟩
      · simp
    · simp
  split
  · split
    · rename_i b₁ b₂ b₃ _
      dsimp only
      split
      · rename_i h
        simp only [isContinuation, Bool.and_eq_true, decide_eq_true_eq] at h
        simpa using ⟨UInt8.le_trans h₄ h.1.1.1, h.1.2.1, h.2.1⟩
      · simp
    · simp
  · simp

/-- A byte of 128 or more starts no character below 128: longer sequences than needed are none. -/
theorem le_lead_code {b : UInt8} (hb : 128 ≤ b) (s : Bytes) : 128 ≤ (lead b s).1 := by
  have hreplacement : 128 ≤ replacement := by decide
  -- these bounds of the second byte exclude overlong encodings, whose codes would be smaller
  have h₃ : b.toNat = 0xE0 → (0xA0 : UInt8) ≤ if b = 0xE0 then 0xA0 else 0x80 := by
    intro h
    rw [if_pos (UInt8.toNat_inj.1 h)]
    exact UInt8.le_refl _
  have h₄ : b.toNat = 0xF0 → (0x90 : UInt8) ≤ if b = 0xF0 then 0x90 else 0x80 := by
    intro h
    rw [if_pos (UInt8.toNat_inj.1 h)]
    exact UInt8.le_refl _
  unfold lead
  rw [if_neg (UInt8.not_lt.2 hb)]
  generalize (if b = 0xE0 then (0xA0 : UInt8) else 0x80) = low₃ at h₃ ⊢
  generalize (if b = 0xF0 then (0x90 : UInt8) else 0x80) = low₄ at h₄ ⊢
  have hhigh₃ : (if b = 0xED then (0x9F : UInt8) else 0xBF) ≤ 0xBF := by split <;> decide
  have hhigh₄ : (if b = 0xF4 then (0x8F : UInt8) else 0xBF) ≤ 0xBF := by split <;> decide
  generalize (if b = 0xED then (0x9F : UInt8) else 0xBF) = high₃ at hhigh₃ ⊢
  generalize (if b = 0xF4 then (0x8F : UInt8) else 0xBF) = high₄ at hhigh₄ ⊢
  simp only [Bool.and_eq_true, decide_eq_true_eq, UInt8.le_iff_toNat_le, UInt8.reduceToNat] at *
  split
  · split
    · split
      · dsimp only
        omega
      · exact hreplacement
    · exact hreplacement
  split
  · split
    · split
      · dsimp only [payload]
        omega
      · exact hreplacement
    · exact hreplacement
  split
  · split
    · split
      · dsimp only [payload]
        omega
      · exact hreplacement
    · exact hreplacement
  · exact hreplacement

/-- A byte below 128 is a character of its own. -/
theorem lead_ascii {b : UInt8} (hb : b < 128) (s : Bytes) : lead b s = (b.toNat, 0) := by
  unfold lead
  exact if_pos hb

theorem glyphsFrom_eq_drop (n : Nat) (s : Bytes) : glyphsFrom n s = glyphs (s.drop n) := by
  induction s generalizing n with
  | nil => cases n <;> rfl
  | cons b s ih =>
    cases n with
    | zero => rfl
    | succ n => rw [glyphsFrom, ih, List.drop_succ_cons]

theorem glyphs_cons (b : UInt8) (s : Bytes) :
    glyphs (b :: s)
      = ⟨(lead b s).1, b :: s.take (lead b s).2⟩ :: glyphs (s.drop (lead b s).2) := by
  rw [← glyphsFrom_eq_drop]
  rfl

theorem glyphs_cons_ascii {b : UInt8} (hb : b < 128) (s : Bytes) :
    glyphs (b :: s) = ⟨b.toNat, [b]⟩ :: glyphs s := by
  rw [glyphs_cons, lead_ascii hb]
  rfl

/-- The characters of an ASCII text are its bytes. -/
theorem glyphs_ascii {s : Bytes} (hs : ∀ b ∈ s, b < 128) :
    glyphs s = s.map fun b => ⟨b.toNat, [b]⟩ := by
  induction s with
  | nil => rfl
  | cons b s ih =>
    rw [List.forall_mem_cons] at hs
    rw [glyphs_cons_ascii hs.1, ih hs.2, List.map_cons]

/-- Nothing is lost in reading a text as characters. -/
theorem ofGlyphs_glyphs (s : Bytes) : ofGlyphs (glyphs s) = s := by
  induction h : s.length using Nat.strongRecOn generalizing s with
  | _ n ih =>
    cases s with
    | nil => rfl
    | cons b s =>
      have hlen : (s.drop (lead b s).2).length < n := by
        rw [← h, List.length_drop, List.length_cons]
        omega
      have hrest := ih _ hlen (s.drop (lead b s).2) rfl
      simp only [ofGlyphs] at hrest ⊢
      rw [glyphs_cons, List.flatMap_cons, hrest, List.cons_append, List.take_append_drop]

/-- An ASCII byte of a text is one of its characters. -/
theorem mem_glyphs_of_ascii {b : UInt8} (hb : b < 128) {s : Bytes} (hs : b ∈ s) :
    ⟨b.toNat, [b]⟩ ∈ glyphs s := by
  induction h : s.length using Nat.strongRecOn generalizing s with
  | _ n ih =>
    cases s with
    | nil => simp at hs
    | cons a s =>
      by_cases hab : b = a
      · subst hab
        rw [glyphs_cons_ascii hb]
        exact List.mem_cons_self
      · have hmem : b ∈ s := by simpa [hab] using hs
        have hdrop : b ∈ s.drop (lead a s).2 := by
          rw [← List.take_append_drop (lead a s).2 s, List.mem_append] at hmem
          rcases hmem with htake | hdrop
          · exact absurd ((lead_continuation a s).2 b htake) (UInt8.not_le.2 hb)
          · exact hdrop
        have hlen : (s.drop (lead a s).2).length < n := by
          rw [← h, List.length_drop, List.length_cons]
          omega
        rw [glyphs_cons]
        exact List.mem_cons_of_mem _ (ih _ hlen hdrop rfl)

/-- An ASCII byte of a character is the whole character. -/
theorem code_of_mem_raw {b : UInt8} (hb : b < 128) {s : Bytes} {g : Glyph} (hg : g ∈ glyphs s)
    (hmem : b ∈ g.raw) : g.code = b.toNat := by
  induction hlen : s.length using Nat.strongRecOn generalizing s with
  | _ n ih =>
    cases s with
    | nil => exact absurd hg List.not_mem_nil
    | cons x s =>
      rw [glyphs_cons] at hg
      rcases List.mem_cons.1 hg with rfl | hg
      · rcases List.mem_cons.1 hmem with rfl | hrest
        · rw [lead_ascii hb]
        · exact absurd ((lead_continuation x s).2 b hrest) (UInt8.not_le.2 hb)
      · have hlt : (s.drop (lead x s).2).length < n := by
          rw [← hlen, List.length_drop, List.length_cons]
          omega
        exact ih _ hlt hg rfl

/-- An ASCII byte of the form of a code point is the code point. -/
theorem eq_of_mem_encode {b : UInt8} (hb : b < 128) {code : Nat} (h : b ∈ encode code) :
    code = b.toNat := by
  have hb := UInt8.lt_iff_toNat_lt.1 hb
  have hbyte : ∀ {n : Nat}, 128 ≤ n → n < 256 → b ≠ n.toUInt8 := by
    rintro n hlow hhigh rfl
    rw [Nat.toUInt8, UInt8.toNat_ofNat'] at hb
    change n % 256 < 128 at hb
    omega
  unfold encode at h
  split at h
  · rename_i hcode
    rw [List.mem_singleton.1 h, Nat.toUInt8, UInt8.toNat_ofNat']
    omega
  · exfalso
    split at h
    · simp only [List.mem_cons, List.not_mem_nil, or_false] at h
      rcases h with h | h <;> exact hbyte (by omega) (by omega) h
    · split at h
      · simp only [List.mem_cons, List.not_mem_nil, or_false] at h
        rcases h with h | h | h <;> exact absurd (h ▸ hb) (by decide)
      · rename_i hvalid
        simp only [Bool.or_eq_true, Bool.and_eq_true, decide_eq_true_eq] at hvalid
        split at h
        · simp only [List.mem_cons, List.not_mem_nil, or_false] at h
          rcases h with h | h | h <;> exact hbyte (by omega) (by omega) h
        · simp only [List.mem_cons, List.not_mem_nil, or_false] at h
          rcases h with h | h | h | h <;> exact hbyte (by omega) (by omega) h

/-- A character with the code point of an ASCII byte is that byte. -/
theorem mem_of_mem_glyphs {b : UInt8} (hb : b < 128) {s : Bytes} {g : Glyph}
    (hg : g ∈ glyphs s) (hcode : g.code = b.toNat) : b ∈ s := by
  induction hlen : s.length using Nat.strongRecOn generalizing s with
  | _ n ih =>
    cases s with
    | nil => exact absurd hg List.not_mem_nil
    | cons x s =>
      rw [glyphs_cons] at hg
      rcases List.mem_cons.1 hg with rfl | hg
      · by_cases hx : x < 128
        · rw [lead_ascii hx] at hcode
          obtain rfl := UInt8.toNat_inj.1 hcode
          exact List.mem_cons_self
        · have hle := le_lead_code (UInt8.not_lt.1 hx) s
          have hb := UInt8.lt_iff_toNat_lt.1 hb
          change (lead x s).1 = b.toNat at hcode
          change b.toNat < 128 at hb
          omega
      · have hdrop : b ∈ s.drop (lead x s).2 :=
          ih (s.drop (lead x s).2).length (by simp at hlen ⊢; omega) hg rfl
        exact List.mem_cons_of_mem _ (List.mem_of_mem_drop hdrop)

end Utf8

namespace Bytes

/-- The characters of a text are white space, the trimmed text, and white space. -/
theorem trimSpace_glyphs (s : Bytes) :
    ∃ lead inner trail : List Glyph, Utf8.glyphs s = lead ++ inner ++ trail ∧
      trimSpace s = Utf8.ofGlyphs inner ∧ (∀ g ∈ lead, isSpace g.code = true) ∧
      ∀ g ∈ trail, isSpace g.code = true := by
  let blank : Glyph → Bool := fun g => isSpace g.code
  let rest := (Utf8.glyphs s).dropWhile blank
  refine ⟨(Utf8.glyphs s).takeWhile blank, (rest.reverse.dropWhile blank).reverse,
    (rest.reverse.takeWhile blank).reverse, ?_, rfl, ?_, ?_⟩
  · rw [List.append_assoc, ← List.reverse_append, List.takeWhile_append_dropWhile,
      List.reverse_reverse, List.takeWhile_append_dropWhile]
  · exact fun g hg => (List.all_eq_true.1 List.all_takeWhile) g hg
  · intro g hg
    exact (List.all_eq_true.1 List.all_takeWhile) g (List.mem_reverse.1 hg)

/-- Trimming cuts a text at both ends. -/
theorem trimSpace_infix (s : Bytes) : ∃ lead trail, s = lead ++ trimSpace s ++ trail := by
  obtain ⟨lead, inner, trail, hs, htrim, _⟩ := trimSpace_glyphs s
  refine ⟨Utf8.ofGlyphs lead, Utf8.ofGlyphs trail, ?_⟩
  rw [htrim, ← Utf8.ofGlyphs_glyphs s, hs]
  simp [Utf8.ofGlyphs]

theorem length_trimSpace_le (s : Bytes) : (trimSpace s).length ≤ s.length := by
  obtain ⟨lead, trail, hs⟩ := trimSpace_infix s
  have hlen := congrArg List.length hs
  simp only [List.length_append] at hlen
  omega

/-- White space in front does not matter. -/
theorem trimSpace_cons_ascii {b : UInt8} (hb : b < 128) (hspace : isSpace b.toNat = true)
    (s : Bytes) : trimSpace (b :: s) = trimSpace s := by
  rw [trimSpace, trimSpace, Utf8.glyphs_cons_ascii hb]
  generalize Utf8.glyphs s = gs
  rw [List.dropWhile_cons, if_pos hspace]

end Bytes

end SqlDialect
