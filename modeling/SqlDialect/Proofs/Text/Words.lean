import SqlDialect.Catalog.Basic
import SqlDialect.Proofs.Text.Bytes
import SqlDialect.Proofs.Text.Glyphs
import SqlDialect.Text.Case

set_option autoImplicit false

/-! # Words

A word is a text of ASCII letters, digits and underscores. On words letter case is a matter of
single bytes: lower case is `lowerByte` byte by byte, and two words are equal up to case if and only
if their lower-case forms are equal. -/

namespace SqlDialect

namespace Bytes

/-- What holds of the 256 bytes holds of every byte. -/
theorem forall_byte {P : UInt8 → Prop} (h : ∀ n < 256, P (UInt8.ofNat n)) (b : UInt8) : P b := by
  have hb := h b.toNat b.toNat_lt
  rwa [UInt8.ofNat_toNat] at hb

/-- What holds of the four blanks holds of every blank. -/
theorem forall_isBlank {P : UInt8 → Prop} (h : ∀ b ∈ ([32, 9, 13, 10] : Bytes), P b) {b : UInt8}
    (hb : isBlank b = true) : P b :=
  h b (by simpa [isBlank, or_assoc] using hb)

/-- What holds of the ten digits holds of every digit. -/
theorem forall_isDigit {P : UInt8 → Prop} (h : ∀ n < 10, P (UInt8.ofNat (48 + n))) {b : UInt8}
    (hb : isDigit b = true) : P b := by
  rw [isDigit, Bool.and_eq_true, decide_eq_true_eq, decide_eq_true_eq, UInt8.le_iff_toNat_le,
    UInt8.le_iff_toNat_le] at hb
  have hlow : 48 ≤ b.toNat := hb.1
  have hhigh : b.toNat ≤ 57 := hb.2
  have hdigit := h (b.toNat - 48) (by omega)
  rwa [show 48 + (b.toNat - 48) = b.toNat by omega, UInt8.ofNat_toNat] at hdigit

/-- The lower-case form of an ASCII letter; every other byte stays. -/
def lowerByte (b : UInt8) : UInt8 :=
  if isUpper b then b + 32 else b

/-- What holds of some bytes and of their capitals holds of each byte with one of them as its
lower-case form. -/
theorem forall_lowerByte {P : UInt8 → Prop} {l : Bytes} (h : ∀ c ∈ l, P c ∧ P (c - 32)) {b : UInt8}
    (hb : lowerByte b ∈ l) : P b := by
  have hforms := h _ hb
  unfold lowerByte at hforms
  split at hforms
  · simpa using hforms.2
  · exact hforms.1

/-- A text of at least one word byte. -/
def IsWord (s : Bytes) : Prop :=
  s ≠ [] ∧ ∀ b ∈ s, isWord b = true

instance (s : Bytes) : Decidable (IsWord s) :=
  inferInstanceAs (Decidable (_ ∧ _))

/-- How word bytes, blanks and letter case go together, looked up for each of the 256 bytes. -/
theorem classes_of_byte : ∀ b : UInt8,
    (isWord b = true → b < 128 ∧ isSpace b.toNat = false) ∧
      (isDigit (lowerByte b) = isDigit b ∧ lowerByte (lowerByte b) = lowerByte b) ∧
      isWord (lowerByte b) = isWord b ∧
      (b < 128 → lowerByte b < 128 ∧ foldCode b.toNat = (lowerByte b).toNat ∧
        Utf8.encode (lowerCode b.toNat) = [lowerByte b] ∧
        Utf8.encode (upperCode (lowerByte b).toNat) = Utf8.encode (upperCode b.toNat)) :=
  forall_byte (by decide +kernel)

theorem ascii_of_isWord {b : UInt8} (hb : isWord b = true) : b < 128 :=
  ((classes_of_byte b).1 hb).1

theorem isWord_of_isBlank {b : UInt8} (h : isBlank b = true) : isWord b = false :=
  forall_isBlank (P := fun b => isWord b = false) (by decide) h

theorem not_isBlank_of_isWord {b : UInt8} (h : isWord b = true) : isBlank b = false := by
  rw [Bool.eq_false_iff]
  intro hblank
  exact Bool.noConfusion ((isWord_of_isBlank hblank).symm.trans h)

/-- What is trimmed off the end of a statement are no word bytes. -/
theorem isWord_of_trimmed {b : UInt8} (h : (isBlank b || b == 59) = true) : isWord b = false := by
  rw [Bool.or_eq_true, beq_iff_eq] at h
  rcases h with h | rfl
  · exact isWord_of_isBlank h
  · rfl

theorem ne_of_isWord {b c : UInt8} (hb : isWord b = true) (hc : isWord c = false) : b ≠ c := by
  rintro rfl
  exact Bool.noConfusion (hc.symm.trans hb)

theorem isWord_of_isDigit {b : UInt8} (h : isDigit b = true) : isWord b = true := by
  rw [isWord, h, Bool.or_true, Bool.true_or]

theorem isDigit_of_not_isWord {b : UInt8} (h : isWord b = false) : isDigit b = false := by
  rw [Bool.eq_false_iff]
  intro hdigit
  exact Bool.noConfusion (h.symm.trans (isWord_of_isDigit hdigit))

theorem ascii_of_isDigit {b : UInt8} (h : isDigit b = true) : b < 128 :=
  ascii_of_isWord (isWord_of_isDigit h)

theorem not_isSpace_of_isWord {b : UInt8} (hb : isWord b = true) : isSpace b.toNat = false :=
  ((classes_of_byte b).1 hb).2

/-- White space consists of bytes that are no word bytes. -/
theorem not_isWord_of_isSpace {s : Bytes} {g : Glyph} (hg : g ∈ Utf8.glyphs s)
    (hspace : isSpace g.code = true) : ∀ b ∈ g.raw, isWord b = false := by
  intro b hb
  rw [Bool.eq_false_iff]
  intro hword
  rw [Utf8.code_of_mem_raw (ascii_of_isWord hword) hg hb] at hspace
  exact Bool.noConfusion ((not_isSpace_of_isWord hword).symm.trans hspace)

theorem isDigit_lowerByte (b : UInt8) : isDigit (lowerByte b) = isDigit b :=
  (classes_of_byte b).2.1.1

theorem lowerByte_lowerByte (b : UInt8) : lowerByte (lowerByte b) = lowerByte b :=
  (classes_of_byte b).2.1.2

theorem lowerByte_of_isDigit {b : UInt8} (h : isDigit b = true) : lowerByte b = b :=
  forall_isDigit (P := fun b => lowerByte b = b) (by decide) h

theorem isWord_lowerByte (b : UInt8) : isWord (lowerByte b) = isWord b :=
  (classes_of_byte b).2.2.1

theorem encode_lowerCode {b : UInt8} (hb : b < 128) :
    Utf8.encode (lowerCode b.toNat) = [lowerByte b] :=
  ((classes_of_byte b).2.2.2 hb).2.2.1

theorem foldCode_ascii {b : UInt8} (hb : b < 128) : foldCode b.toNat = (lowerByte b).toNat :=
  ((classes_of_byte b).2.2.2 hb).2.1

theorem toLower_ascii {s : Bytes} (hs : ∀ b ∈ s, b < 128) : toLower s = s.map lowerByte := by
  rw [toLower, Utf8.glyphs_ascii hs]
  induction s with
  | nil => rfl
  | cons b s ih =>
    rw [List.forall_mem_cons] at hs
    rw [List.map_cons, List.flatMap_cons, ih hs.2, encode_lowerCode hs.1]
    rfl

/-- No code point but itself is lowered to one in front of the letters. -/
theorem eq_of_lowerCode {code n : Nat} (hn : n < 65) (h : lowerCode code = n) : code = n := by
  unfold lowerCode at h
  split at h
  · split at h
    · rename_i hletter
      simp only [Bool.and_eq_true, decide_eq_true_eq] at hletter
      omega
    · exact h
  · rename_i hcode
    unfold CaseRun.mapCode at h
    split at h
    · rename_i r hr
      have hruns : ∀ r ∈ lowerRuns, (65 : Int) ≤ r.first + r.shift := by decide +kernel
      have hfirst := hruns r (List.mem_of_find?_eq_some hr)
      have hcovers := List.find?_some hr
      simp only [CaseRun.covers, Bool.and_eq_true, decide_eq_true_eq] at hcovers
      omega
    · omega

/-- Lower case adds no byte in front of the letters. -/
theorem mem_of_mem_toLower {b : UInt8} (hb : b < 65) {s : Bytes} (h : b ∈ toLower s) : b ∈ s := by
  obtain ⟨g, hg, hmem⟩ := List.mem_flatMap.1 h
  have hascii : b < 128 := UInt8.lt_trans hb (by decide)
  have hcode := Utf8.eq_of_mem_encode hascii hmem
  exact Utf8.mem_of_mem_glyphs hascii hg (eq_of_lowerCode (UInt8.lt_iff_toNat_lt.1 hb) hcode)

theorem toUpper_map_lowerByte {s : Bytes} (hs : ∀ b ∈ s, b < 128) :
    toUpper (s.map lowerByte) = toUpper s := by
  induction s with
  | nil => rfl
  | cons b s ih =>
    obtain ⟨hb, hs⟩ := List.forall_mem_cons.1 hs
    obtain ⟨hlower, -, -, hupper⟩ := (classes_of_byte b).2.2.2 hb
    rw [toUpper, toUpper] at ih ⊢
    rw [List.map_cons, Utf8.glyphs_cons_ascii hlower, Utf8.glyphs_cons_ascii hb,
      List.flatMap_cons, List.flatMap_cons, hupper, ih hs]

theorem equalFold_ascii {s t : Bytes} (hs : ∀ b ∈ s, b < 128) (ht : ∀ b ∈ t, b < 128) :
    equalFold s t = (s.map lowerByte == t.map lowerByte) := by
  have hfold : ∀ u : Bytes, (∀ b ∈ u, b < 128) →
      (Utf8.glyphs u).map (fun g => foldCode g.code) = (u.map lowerByte).map UInt8.toNat := by
    intro u hu
    rw [Utf8.glyphs_ascii hu, List.map_map, List.map_map, List.map_inj_left]
    exact fun b hb => foldCode_ascii (hu b hb)
  rw [equalFold, hfold s hs, hfold t ht, Bool.eq_iff_iff, beq_iff_eq, beq_iff_eq,
    List.map_inj_right]
  exact fun _ _ => UInt8.toNat_inj.1

/-- A text that is a word up to letter case. -/
theorem isWord_of_lower {w o : Bytes} (hw : IsWord w) (h : o.map lowerByte = w) : IsWord o := by
  subst h
  refine ⟨fun hnil => hw.1 (by rw [hnil]; rfl), fun x hx => ?_⟩
  rw [← isWord_lowerByte]
  exact hw.2 _ (List.mem_map_of_mem hx)

namespace IsWord

variable {s : Bytes}

theorem ascii (h : IsWord s) : ∀ b ∈ s, b < 128 :=
  fun b hb => ascii_of_isWord (h.2 b hb)

theorem toLower (h : IsWord s) : Bytes.toLower s = s.map lowerByte :=
  toLower_ascii h.ascii

theorem map_lowerByte (h : IsWord s) : IsWord (s.map lowerByte) := by
  refine ⟨by simpa using h.1, ?_⟩
  intro b hb
  obtain ⟨a, ha, rfl⟩ := List.mem_map.1 hb
  rw [isWord_lowerByte]
  exact h.2 a ha

theorem notMem {b : UInt8} (h : IsWord s) (hb : isWord b = false) : b ∉ s := by
  intro hmem
  rw [h.2 b hmem] at hb
  exact Bool.noConfusion hb

theorem head?_beq {q : UInt8} (h : IsWord s) (hq : isWord q = false) :
    (s.head? == some q) = false := by
  rw [beq_eq_false_iff_ne]
  exact fun heq => h.notMem hq (List.mem_of_head? heq)

/-- A text that is a word up to letter case is a word. -/
theorem of_map_lowerByte {t : Bytes} (h : IsWord s) (ht : t.map lowerByte = s.map lowerByte) :
    IsWord t :=
  isWord_of_lower h.map_lowerByte ht

end IsWord

/-! ## Where a word starts and ends -/

theorem isWord_head {w : Bytes} (hw : IsWord w) (b : Bytes) :
    (w ++ b).head?.any isWord = true := by
  obtain ⟨x, w, rfl⟩ := List.exists_cons_of_ne_nil hw.1
  exact hw.2 x List.mem_cons_self

theorem isWord_last {w : Bytes} (hw : IsWord w) (a : Bytes) :
    (a ++ w).getLast?.any isWord = true := by
  rw [List.getLast?_append, List.getLast?_eq_some_getLast hw.1]
  exact hw.2 _ (List.getLast_mem hw.1)

/-- The word bytes at the start of a text, if they end there. -/
theorem takeWhile_isWord_append {w b : Bytes} (hw : ∀ x ∈ w, isWord x = true)
    (hb : b.head?.any isWord = false) : (w ++ b).takeWhile isWord = w := by
  rw [List.takeWhile_append_of_pos hw]
  cases b with
  | nil => rw [List.takeWhile_nil, List.append_nil]
  | cons x b =>
    rw [List.head?_cons, Option.any_some] at hb
    rw [List.takeWhile_cons, hb, if_neg Bool.false_ne_true, List.append_nil]

/-- A word that starts a text and ends there is the only one. -/
theorem isWord_append_inj {w w' b b' : Bytes} (hw : IsWord w) (hb : b.head?.any isWord = false)
    (hw' : IsWord w') (hb' : b'.head?.any isWord = false) (h : w ++ b = w' ++ b') :
    w = w' ∧ b = b' := by
  have hword : w = w' := by
    rw [← takeWhile_isWord_append hw.2 hb, h, takeWhile_isWord_append hw'.2 hb']
  subst hword
  exact ⟨rfl, List.append_cancel_left h⟩

theorem head?_dropWhile_isWord (s : Bytes) : (s.dropWhile isWord).head?.any isWord = false := by
  rw [Option.any_eq_false]
  exact head?_dropWhile s

/-- What holds of the empty text, and in front of a text of which it holds also with another byte
that is no word byte, and with another word that ends there, holds of every text. -/
@[elab_as_elim]
theorem induction_words {P : Bytes → Prop} (nil : P [])
    (byte : ∀ x s, isWord x = false → P s → P (x :: s))
    (word : ∀ w s, IsWord w → s.head?.any isWord = false → P s → P (w ++ s)) (s : Bytes) : P s := by
  induction hlen : s.length using Nat.strongRecOn generalizing s with
  | _ n ih =>
    cases s with
    | nil => exact nil
    | cons x s =>
      cases hx : isWord x with
      | false => exact byte x s hx (ih s.length (by simp [← hlen]) s rfl)
      | true =>
        have hword : IsWord ((x :: s).takeWhile isWord) :=
          ⟨by simp [hx],
            fun y hy => List.all_eq_true.1 List.all_takeWhile y hy⟩
        have hcut := List.takeWhile_append_dropWhile (p := isWord) (l := x :: s)
        have hpos : 0 < ((x :: s).takeWhile isWord).length := List.length_pos_iff.2 hword.1
        have hlen' := congrArg List.length hcut
        rw [List.length_append] at hlen'
        have hrest := ih ((x :: s).dropWhile isWord).length (by omega) _ rfl
        have hall := word _ _ hword (head?_dropWhile_isWord (x :: s)) hrest
        rwa [hcut] at hall

/-! ## Blanks around words -/

theorem dropWhile_padded {α : Type} {p : α → Bool} {lead core : List α}
    (hlead : ∀ x ∈ lead, p x = true) (hcore : ∀ x ∈ core.head?, p x = false) (hne : core ≠ [])
    (trail : List α) : (lead ++ (core ++ trail)).dropWhile p = core ++ trail := by
  rw [List.dropWhile_append_of_pos hlead]
  obtain ⟨x, core, rfl⟩ := List.exists_cons_of_ne_nil hne
  rw [List.cons_append, List.dropWhile_cons, hcore x rfl]
  rfl

/-- White space around a text that has none is trimmed off. -/
theorem trimSpace_padded {lead core trail : Bytes}
    (hlead : ∀ b ∈ lead, b < 128 ∧ isSpace b.toNat = true)
    (hcore : ∀ b ∈ core, b < 128 ∧ isSpace b.toNat = false) (hne : core ≠ [])
    (htrail : ∀ b ∈ trail, b < 128 ∧ isSpace b.toNat = true) :
    trimSpace (lead ++ (core ++ trail)) = core := by
  -- all bytes are ASCII, so each is a character of its own
  let glyph : UInt8 → Glyph := fun b => ⟨b.toNat, [b]⟩
  have hascii : ∀ b ∈ lead ++ (core ++ trail), b < 128 := by
    intro b hb
    simp only [List.mem_append] at hb
    rcases hb with hb | hb | hb
    · exact (hlead b hb).1
    · exact (hcore b hb).1
    · exact (htrail b hb).1
  have hspace : ∀ {u : Bytes}, (∀ b ∈ u, b < 128 ∧ isSpace b.toNat = true) →
      ∀ g ∈ u.map glyph, isSpace g.code = true := by
    intro u hu g hg
    obtain ⟨b, hb, rfl⟩ := List.mem_map.1 hg
    exact (hu b hb).2
  have hplain : ∀ g ∈ core.map glyph, isSpace g.code = false := by
    intro g hg
    obtain ⟨b, hb, rfl⟩ := List.mem_map.1 hg
    exact (hcore b hb).2
  have hne' : core.map glyph ≠ [] := by simpa using hne
  have hfront : ((lead ++ (core ++ trail)).map glyph).dropWhile (fun g => isSpace g.code)
      = core.map glyph ++ trail.map glyph := by
    rw [List.map_append, List.map_append]
    exact dropWhile_padded (hspace hlead) (fun g hg => hplain g (List.mem_of_head? hg)) hne' _
  have hback : ((core.map glyph ++ trail.map glyph).reverse).dropWhile (fun g => isSpace g.code)
      = (core.map glyph).reverse := by
    have hlead : ∀ g ∈ (trail.map glyph).reverse, isSpace g.code = true :=
      fun g hg => hspace htrail g (List.mem_reverse.1 hg)
    have hmiddle : ∀ g ∈ (core.map glyph).reverse.head?, isSpace g.code = false :=
      fun g hg => hplain g (List.mem_reverse.1 (List.mem_of_head? hg))
    have h := dropWhile_padded hlead hmiddle (by simpa using hne) []
    rw [List.append_nil] at h
    rw [List.reverse_append]
    exact h
  rw [trimSpace, Utf8.glyphs_ascii hascii]
  rw [hfront, hback, List.reverse_reverse, Utf8.ofGlyphs, List.flatMap_map]
  exact List.flatMap_singleton' core

theorem words_cons_space {b : UInt8} (hb : b < 128 ∧ isSpace b.toNat = true) (s : Bytes) :
    words (b :: s) = words s := by
  rw [words, Utf8.glyphs_cons_ascii hb.1, wordsOf.eq_def]
  exact if_pos hb.2

/-- A word in front of white space is the first word. -/
theorem words_word_append {w : Bytes} (hw : IsWord w) {x : UInt8}
    (hx : x < 128 ∧ isSpace x.toNat = true) (s : Bytes) :
    words (w ++ x :: s) = w :: words (x :: s) := by
  obtain ⟨hne, hword⟩ := hw
  induction w with
  | nil => exact absurd rfl hne
  | cons b w ih =>
    obtain ⟨hb, hw⟩ := List.forall_mem_cons.1 hword
    have hspace : ¬ isSpace b.toNat = true := by
      rw [not_isSpace_of_isWord hb]
      exact Bool.false_ne_true
    rw [List.cons_append, words, Utf8.glyphs_cons_ascii (ascii_of_isWord hb), wordsOf.eq_def]
    refine (if_neg hspace).trans ?_
    cases w with
    | nil =>
      rw [List.nil_append, words, Utf8.glyphs_cons_ascii hx.1]
      exact if_pos hx.2
    | cons c w =>
      obtain ⟨hc, -⟩ := List.forall_mem_cons.1 hw
      have hrest : wordsOf (⟨c.toNat, [c]⟩ :: Utf8.glyphs (w ++ x :: s))
          = (c :: w) :: words (x :: s) := by
        rw [← ih (List.cons_ne_nil _ _) hw, List.cons_append, words,
          Utf8.glyphs_cons_ascii (ascii_of_isWord hc)]
      have hplain : ¬ isSpace c.toNat = true := by
        rw [not_isSpace_of_isWord hc]
        exact Bool.false_ne_true
      rw [List.cons_append, Utf8.glyphs_cons_ascii (ascii_of_isWord hc)]
      simp only [hplain, hrest]
      rfl

/-! ## Separators -/

/-- What starts a text with a separator in it and holds none itself starts what is in front of the
separator. -/
theorem prefix_of_separator {x : UInt8} {token rest a s : Bytes} (hx : x ∉ token)
    (h : a ++ x :: s = token ++ rest) : ∃ a', a = token ++ a' ∧ rest = a' ++ x :: s := by
  rcases List.append_eq_append_iff.1 h with ⟨c, rfl, hc⟩ | ⟨c, rfl, hrest⟩
  · cases c with
    | nil => exact ⟨[], by simp, by simpa using hc.symm⟩
    | cons y c =>
      obtain ⟨rfl, -⟩ := List.cons.inj hc
      exact absurd (List.mem_append_right a List.mem_cons_self) hx
  · exact ⟨c, rfl, hrest⟩

/-! ## Words in the catalog -/

theorem cutLast?_eq_none {sep : UInt8} {s : Bytes} (h : sep ∉ s) : cutLast? sep s = none := by
  induction s with
  | nil => rfl
  | cons b s ih =>
    rw [List.mem_cons, not_or] at h
    rw [cutLast?, ih h.2]
    simp [Ne.symm h.1]

end Bytes

open Bytes

/-- The catalog knows a word by its lower-case form. -/
theorem KeyCatalog.unquoteName_of_isWord {s : Bytes} (h : IsWord s) :
    KeyCatalog.unquoteName s = s.map lowerByte := by
  have htrim : trimSpace s = s := by
    have hnil : ∀ b ∈ ([] : Bytes), b < 128 ∧ isSpace b.toNat = true :=
      fun b hb => absurd hb List.not_mem_nil
    have hpad := trimSpace_padded hnil
      (fun b hb => ⟨h.ascii b hb, not_isSpace_of_isWord (h.2 b hb)⟩) h.1 hnil
    simpa using hpad
  rw [unquoteName, htrim]
  simp [h.head?_beq (q := 34) rfl, h.head?_beq (q := 96) rfl, h.toLower]

theorem KeyCatalog.tableName_of_isWord {s : Bytes} (h : IsWord s) :
    KeyCatalog.tableName s = s.map lowerByte := by
  rw [tableName, cutLast?_eq_none (h.notMem rfl)]
  exact unquoteName_of_isWord h

end SqlDialect
