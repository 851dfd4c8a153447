import SqlDialect.Proofs.Pattern.Ends

set_option autoImplicit false

/-! # Spellings of keywords

A keyword is matched in any letter case, and two of its letters have a form outside ASCII as well. A
stretch that a keyword has taken (`Spells`) is taken by it wherever the same bytes stand again
(`Spells.run`): a well-formed character does not depend on what follows it. -/

namespace SqlDialect

open Bytes

/-- A well-formed character is read the same whatever follows it. -/
theorem Utf8.lead_take {b : UInt8} {s : Bytes} (h : (lead b s).1 ≠ replacement) (r : Bytes) :
    lead b (s.take (lead b s).2 ++ r) = lead b s := by
  -- one case for each length of an encoding; the bytes that are read are those that are kept
  unfold lead at h ⊢
  generalize (if b = 0xE0 then (0xA0 : UInt8) else 0x80) = low₃ at h ⊢
  generalize (if b = 0xF0 then (0x90 : UInt8) else 0x80) = low₄ at h ⊢
  generalize (if b = 0xED then (0x9F : UInt8) else 0xBF) = high₃ at h ⊢
  generalize (if b = 0xF4 then (0x8F : UInt8) else 0xBF) = high₄ at h ⊢
  by_cases h₁ : b < 0x80
  · simp only [h₁, if_true]
  simp only [h₁, if_false] at h ⊢
  by_cases h₂ : (decide (0xC2 ≤ b) && decide (b ≤ 0xDF)) = true
  · simp only [h₂, if_true] at h ⊢
    cases s with
    | nil => exact absurd rfl h
    | cons x s =>
      by_cases hx : isContinuation x = true
      · simp [hx]
      · exact absurd (by simp [hx]) h
  simp only [h₂] at h ⊢
  by_cases h₃ : (decide (0xE0 ≤ b) && decide (b ≤ 0xEF)) = true
  · simp only [h₃, if_true] at h ⊢
    rcases s with _ | ⟨x, _ | ⟨y, s⟩⟩
    · exact absurd rfl h
    · exact absurd rfl h
    · by_cases hx : (decide (low₃ ≤ x) && decide (x ≤ high₃) && isContinuation y) = true
      · simp [hx]
      · exact absurd (by simp [hx]) h
  simp only [h₃] at h ⊢
  by_cases h₄ : (decide (0xF0 ≤ b) && decide (b ≤ 0xF4)) = true
  · simp only [h₄, if_true] at h ⊢
    rcases s with _ | ⟨x, _ | ⟨y, _ | ⟨z, s⟩⟩⟩
    · exact absurd rfl h
    · exact absurd rfl h
    · exact absurd rfl h
    · by_cases hx : (decide (low₄ ≤ x) && decide (x ≤ high₄) && isContinuation y &&
          isContinuation z) = true
      · simp [hx]
      · exact absurd (by simp [hx]) h
  · exact absurd (by simp [h₄]) h

namespace Pattern

/-- A character that was taken is read in the same way wherever its bytes stand. -/
theorem lead_of_leads_one {set : CharSet} (hset : set.contains Utf8.replacement = false)
    {c c' : Cursor} (h : Leads (.one set) c c') :
    ∃ b u code, c.Takes (b :: u) c' ∧ set.contains code = true ∧
      ∀ r, Utf8.lead b (u ++ r) = (code, u.length) := by
  cases h with
  | @one _ _ _ code hnext hcode =>
    obtain ⟨b, u, htakes, -, -⟩ := Cursor.takes_of_next? hnext
    have hlead : Utf8.lead b (u ++ c'.rest) = (code, u.length) := by
      have hc := htakes.rest
      rw [Cursor.next?, hc, List.cons_append] at hnext
      simp only [Option.some.injEq, Prod.mk.injEq] at hnext
      obtain ⟨hfst, hc'⟩ := hnext
      have hrest : (u ++ c'.rest).drop (Utf8.lead b (u ++ c'.rest)).2 = c'.rest :=
        congrArg Cursor.rest hc'
      have hle := (Utf8.lead_continuation b (u ++ c'.rest)).1
      have hlen := congrArg List.length hrest
      rw [List.length_drop, List.length_append] at hlen
      rw [List.length_append] at hle
      exact Prod.ext hfst (by dsimp only; omega)
    have hne : (Utf8.lead b (u ++ c'.rest)).1 ≠ Utf8.replacement := by
      rw [hlead]
      rintro rfl
      exact Bool.noConfusion (hset.symm.trans hcode)
    refine ⟨b, u, code, htakes, hcode, fun r => ?_⟩
    have hagain := Utf8.lead_take hne r
    rwa [hlead, List.take_left' rfl] at hagain

/-- A character that was taken once is taken wherever its bytes stand. -/
theorem run_one_of_leads {set : CharSet} (hset : set.contains Utf8.replacement = false)
    {c c' : Cursor} (h : Leads (.one set) c c') :
    ∃ b u, c.Takes (b :: u) c' ∧
      (b < 128 ∧ u = [] ∧ set.contains b.toNat = true ∨ 128 ≤ b ∧ ∀ x ∈ u, 128 ≤ x) ∧
      ∀ {α : Type} (k : Cursor → Option α) (d : Cursor) (r : Bytes), d.rest = b :: u ++ r →
        (one set).run d k = k (d.past (b :: u) r) := by
  obtain ⟨b, u, code, htakes, hcode, hlead⟩ := lead_of_leads_one hset h
  refine ⟨b, u, htakes, ?_, fun k d r hd => ?_⟩
  · by_cases hb : b < 128
    · have hself := hlead []
      rw [Utf8.lead_ascii hb, Prod.mk.injEq, eq_comm (a := 0), List.length_eq_zero_iff] at hself
      exact Or.inl ⟨hb, hself.2, hself.1 ▸ hcode⟩
    · have hu := (Utf8.lead_continuation b u).2
      rw [← List.append_nil u, hlead, List.append_nil, List.take_length] at hu
      exact Or.inr ⟨UInt8.not_lt.1 hb, hu⟩
  · simp [run, Cursor.next?, hd, hlead, hcode, Cursor.past, List.getLast?_cons, Nat.add_assoc]

/-- The text is a spelling of the characters: each stands there in one of its letter cases, or in a
form outside ASCII if it has one. -/
inductive Spells : List Char → Bytes → Prop where
  | nil : Spells [] []
  | ascii {ch : Char} {cs : List Char} {x : UInt8} {t : Bytes} (hx : x < 128)
      (hch : lowerByte x = lowerByte (charByte ch)) (h : Spells cs t) : Spells (ch :: cs) (x :: t)
  | wide {ch : Char} {cs : List Char} {b : UInt8} {u t : Bytes}
      (hch : ¬ AsciiSet (CharSet.anyCase ch)) (hu : ∀ x ∈ b :: u, 128 ≤ x) (h : Spells cs t) :
      Spells (ch :: cs) (b :: u ++ t)

theorem anyCase_replacement {ch : Char} (hch : ch.toNat < 128) :
    (CharSet.anyCase ch).contains Utf8.replacement = false := by
  have hall : ∀ n < 128, (CharSet.anyCase (Char.ofNat n)).contains Utf8.replacement = false := by
    decide +kernel
  have h := hall ch.toNat hch
  rwa [Char.ofNat_toNat] at h

/-- A keyword takes a spelling of itself, and takes the same spelling wherever it stands. -/
theorem leads_keyword_spells {s : String} (hs : ∀ ch ∈ s.toList, ch.toNat < 128) {c c' : Cursor}
    (h : Leads (keyword s) c c') :
    ∃ t, c.Takes t c' ∧ Spells s.toList t ∧
      ∀ {α : Type} (k : Cursor → Option α) (d : Cursor) (r : Bytes), d.rest = t ++ r →
        (keyword s).run d k = k (d.past t r) := by
  simp only [keyword_eq] at h ⊢
  generalize s.toList = cs at hs h
  induction cs generalizing c with
  | nil =>
    obtain rfl := leads_nothing.1 h
    refine ⟨[], .refl _, .nil, fun k d r hd => ?_⟩
    rw [List.nil_append] at hd
    subst hd
    rfl
  | cons ch cs ih =>
    obtain ⟨hch, hcs⟩ := List.forall_mem_cons.1 hs
    obtain ⟨c₁, hone, hseqs⟩ := leads_seqs_cons.1 h
    obtain ⟨b, u, htakes, hbu, hrun⟩ := run_one_of_leads (anyCase_replacement hch) hone
    obtain ⟨t, htakes', ht, hrun'⟩ := ih hcs hseqs
    refine ⟨b :: u ++ t, htakes.trans htakes', ?_, fun k d r hd => ?_⟩
    · rcases hbu with ⟨hb, rfl, hset⟩ | ⟨hb, hu⟩
      · rw [contains_anyCase hch hb, beq_iff_eq] at hset
        exact .ascii hb hset ht
      · refine .wide (fun hset => ?_) (List.forall_mem_cons.2 ⟨hb, hu⟩) ht
        obtain ⟨x, hx, -, hx₁, -⟩ := leads_one_ascii hset hone
        obtain ⟨rfl, -⟩ := List.cons.inj (htakes.unique hx₁)
        exact UInt8.not_lt.2 hb hx
    · rw [List.append_assoc] at hd
      have hnext := hrun (fun d' => (seqs (cs.map fun ch => one (CharSet.anyCase ch))).run d' k)
        d (t ++ r) hd
      have hrest := hrun' k (d.past (b :: u) (t ++ r)) r rfl
      rw [Cursor.past_past] at hrest
      exact hnext.trans hrest

/-- All forms of all letters of the keyword have the same capital. -/
def OneCapital (s : String) : Prop :=
  ∀ ch ∈ s.toList, ch.toNat < 128 ∧
    ∀ r ∈ (CharSet.anyCase ch).ranges, r.1 = r.2 ∧ upperCode r.1 = upperCode ch.toNat

instance (s : String) : Decidable (OneCapital s) :=
  inferInstanceAs (Decidable (∀ ch ∈ s.toList, _))

/-- However such a keyword is spelled, in capitals it is the same. -/
theorem toUpper_of_leads_keyword {s : String} (hs : OneCapital s) {c c' : Cursor}
    (h : Leads (keyword s) c c') :
    ∃ t, c.Takes t c' ∧ Bytes.toUpper t = Bytes.toUpper (ascii s) := by
  rw [keyword_eq] at h
  rw [ascii]
  rw [OneCapital] at hs
  generalize s.toList = cs at hs h
  induction cs generalizing c with
  | nil =>
    obtain rfl := leads_nothing.1 h
    exact ⟨[], .refl _, rfl⟩
  | cons ch cs ih =>
    obtain ⟨⟨hch, hcapital⟩, hcs⟩ := List.forall_mem_cons.1 hs
    obtain ⟨c₁, hone, hseqs⟩ := leads_seqs_cons.1 h
    obtain ⟨b, u, code, htakes, hcode, hlead⟩ := lead_of_leads_one (anyCase_replacement hch) hone
    obtain ⟨t, htakes', ht⟩ := ih hcs hseqs
    -- the character that was taken is one of the listed forms of the letter
    have hupper : upperCode code = upperCode ch.toNat := by
      have hplain : (CharSet.anyCase ch).negated = false := rfl
      rw [CharSet.contains, hplain, bne_iff_ne, ne_eq, Bool.not_eq_false] at hcode
      obtain ⟨r, hr, hle⟩ := List.any_eq_true.1 hcode
      obtain ⟨heq, hr⟩ := hcapital r hr
      simp only [Bool.and_eq_true, decide_eq_true_eq] at hle
      rw [← hr, show code = r.1 by omega]
    refine ⟨b :: u ++ t, htakes.trans htakes', ?_⟩
    have hbyte : (charByte ch).toNat = ch.toNat := by
      rw [charByte, Nat.toUInt8, UInt8.toNat_ofNat']
      omega
    have hsmall : charByte ch < 128 := by
      rw [UInt8.lt_iff_toNat_lt, hbyte]
      exact hch
    have hhead : Bytes.toUpper (charByte ch :: cs.map charByte)
        = Utf8.encode (upperCode ch.toNat) ++ Bytes.toUpper (cs.map charByte) := by
      rw [Bytes.toUpper, Utf8.glyphs_cons_ascii hsmall, List.flatMap_cons, hbyte]
      rfl
    show _ = Bytes.toUpper (charByte ch :: cs.map charByte)
    rw [hhead, List.cons_append, Bytes.toUpper, Utf8.glyphs_cons, hlead, List.flatMap_cons, hupper,
      List.drop_left' rfl]
    exact congrArg (_ ++ ·) ht

namespace Spells

variable {cs : List Char} {t : Bytes}

theorem mem (h : Spells cs t) {x : UInt8} (hx : x ∈ t) (hascii : x < 128) :
    ∃ ch ∈ cs, lowerByte x = lowerByte (charByte ch) := by
  induction h with
  | nil => exact absurd hx List.not_mem_nil
  | @ascii ch cs y t hy hch h ih =>
    rcases List.mem_cons.1 hx with rfl | hx
    · exact ⟨ch, List.mem_cons_self, hch⟩
    · obtain ⟨ch', hmem, heq⟩ := ih hx
      exact ⟨ch', List.mem_cons_of_mem ch hmem, heq⟩
  | @wide ch cs b u t hch hu h ih =>
    rcases List.mem_append.1 hx with hx | hx
    · exact absurd hascii (UInt8.not_lt.2 (hu x hx))
    · obtain ⟨ch', hmem, heq⟩ := ih hx
      exact ⟨ch', List.mem_cons_of_mem ch hmem, heq⟩

/-- A spelling of word characters holds word bytes and bytes of 128 or more. -/
theorem isWord_of_mem (h : Spells cs t) (hcs : ∀ ch ∈ cs, isWord (charByte ch) = true) {x : UInt8}
    (hx : x ∈ t) (hascii : x < 128) : isWord x = true := by
  obtain ⟨ch, hch, heq⟩ := h.mem hx hascii
  rw [← isWord_lowerByte, heq, isWord_lowerByte]
  exact hcs ch hch

theorem unblank (h : Spells cs t) (hcs : ∀ ch ∈ cs, isWord (charByte ch) = true) :
    ∀ x ∈ t, CharSet.blank.contains x.toNat = false := by
  intro x hx
  rw [Bool.eq_false_iff]
  intro hblank
  have hword := h.isWord_of_mem hcs hx (ascii_of_blank hblank).1
  exact Bool.noConfusion ((ascii_of_blank hblank).2.2.symm.trans hword)

/-- The first byte of a spelling is its first letter, or of 128 or more. -/
theorem head (h : Spells cs t) {x : UInt8} (hx : t.head? = some x) (hascii : x < 128) :
    ∃ ch, cs.head? = some ch ∧ lowerByte x = lowerByte (charByte ch) := by
  cases h with
  | nil => cases hx
  | @ascii ch cs y t hy hch h =>
    obtain rfl := Option.some.inj hx
    exact ⟨ch, rfl, hch⟩
  | @wide ch cs b u t hch hu h =>
    obtain rfl := Option.some.inj hx
    exact absurd hascii (UInt8.not_lt.2 (hu _ List.mem_cons_self))

theorem ne_nil (h : Spells cs t) (hcs : cs ≠ []) : t ≠ [] := by
  cases h with
  | nil => exact absurd rfl hcs
  | ascii | wide => exact List.cons_ne_nil _ _

/-- The last byte of a spelling is its last letter, if that has ASCII forms only. -/
theorem last (h : Spells cs t) (ch : Char) (hlast : cs.getLast? = some ch)
    (hch : AsciiSet (CharSet.anyCase ch)) :
    ∃ x, t.getLast? = some x ∧ lowerByte x = lowerByte (charByte ch) := by
  induction h with
  | nil => cases hlast
  | @ascii ch₁ cs x t hx hch₁ h ih =>
    cases cs with
    | nil =>
      obtain rfl := Option.some.inj hlast
      cases h
      exact ⟨x, rfl, hch₁⟩
    | cons ch₂ cs =>
      obtain ⟨y, hy, heq⟩ := ih (by rwa [List.getLast?_cons_cons] at hlast)
      exact ⟨y, by rw [List.getLast?_cons, hy]; rfl, heq⟩
  | @wide ch₁ cs b u t hch₁ hu h ih =>
    cases cs with
    | nil =>
      obtain rfl := Option.some.inj hlast
      exact absurd hch hch₁
    | cons ch₂ cs =>
      obtain ⟨y, hy, heq⟩ := ih (by rwa [List.getLast?_cons_cons] at hlast)
      exact ⟨y, by rw [List.getLast?_append, hy]; rfl, heq⟩

/-- What spells two texts is a spelling of the first and one of the second. -/
theorem exists_append (cs₁ cs₂ : List Char) (h : Spells (cs₁ ++ cs₂) t) :
    ∃ t₁ t₂, t = t₁ ++ t₂ ∧ Spells cs₁ t₁ ∧ Spells cs₂ t₂ := by
  induction cs₁ generalizing t with
  | nil => exact ⟨[], t, rfl, .nil, h⟩
  | cons ch cs₁ ih =>
    cases h with
    | ascii hx hch h =>
      obtain ⟨t₁, t₂, rfl, h₁, h₂⟩ := ih h
      exact ⟨_ :: t₁, t₂, rfl, .ascii hx hch h₁, h₂⟩
    | wide hch hu h =>
      obtain ⟨t₁, t₂, rfl, h₁, h₂⟩ := ih h
      exact ⟨_ ++ t₁, t₂, (List.append_assoc _ _ _).symm, .wide hch hu h₁, h₂⟩

/-- Behind all forms of the first letter stands the second, if that has ASCII forms only. -/
theorem second {ch₁ ch₂ : Char} (h : Spells (ch₁ :: ch₂ :: cs) t)
    (hch : AsciiSet (CharSet.anyCase ch₂))
    (hne : lowerByte (charByte ch₂) ≠ lowerByte (charByte ch₁)) (r : Bytes) :
    ∃ x u, (t ++ r).dropWhile (fun b => decide (128 ≤ b) || lowerByte b == lowerByte (charByte ch₁))
      = x :: u ∧ lowerByte x = lowerByte (charByte ch₂) := by
  have hnext : ∀ {t : Bytes}, Spells (ch₂ :: cs) t → ∃ x u,
      (t ++ r).dropWhile (fun b => decide (128 ≤ b) || lowerByte b == lowerByte (charByte ch₁))
        = x :: u ∧ lowerByte x = lowerByte (charByte ch₂) := by
    intro t h
    cases h with
    | @ascii _ _ x t hx hch₂ h =>
      refine ⟨x, t ++ r, ?_, hch₂⟩
      have hnot : (decide (128 ≤ x) || lowerByte x == lowerByte (charByte ch₁)) = false := by
        rw [hch₂, Bool.or_eq_false_iff, decide_eq_false_iff_not, beq_eq_false_iff_ne]
        exact ⟨UInt8.not_le.2 hx, hne⟩
      rw [List.cons_append, List.dropWhile_cons, if_neg (by rw [hnot]; exact Bool.false_ne_true)]
    | wide hch₂ => exact absurd hch hch₂
  cases h with
  | @ascii _ _ x t hx hch₁ h =>
    obtain ⟨y, u, hdrop, hy⟩ := hnext h
    refine ⟨y, u, ?_, hy⟩
    rw [List.cons_append, List.dropWhile_cons, if_pos (by simp [hch₁]), hdrop]
  | @wide _ _ b u t hch₁ hu h =>
    obtain ⟨y, v, hdrop, hy⟩ := hnext h
    refine ⟨y, v, ?_, hy⟩
    rw [List.append_assoc, List.dropWhile_append_of_pos (fun x hx => by simp [hu x hx]), hdrop]

end Spells

end Pattern

end SqlDialect
