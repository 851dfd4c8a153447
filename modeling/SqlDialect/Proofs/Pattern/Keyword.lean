import SqlDialect.Proofs.Pattern.Semantics
import SqlDialect.Proofs.Text.Words

set_option autoImplicit false

/-! # Keywords and blanks in patterns

Most patterns open with a keyword at a word edge. Inside ASCII text such a pattern can only match
where a word starts, and the keyword takes a first part of that word; so a text of other words is
passed over. In the other direction, keywords and blanks that stand in a text are matched as they
stand. -/

namespace SqlDialect

open Bytes

/-- The text starts with no word byte: it is empty or starts with another ASCII byte. -/
def EndsWord (b : Bytes) : Prop :=
  ∀ x, b.head? = some x → x < 128 ∧ isWord x = false

/-- The blanks of patterns: tab, newline, form feed, carriage return and space. -/
def AllBlank (s : Bytes) : Prop :=
  ∀ b ∈ s, CharSet.blank.contains b.toNat = true

instance (s : Bytes) : Decidable (AllBlank s) :=
  inferInstanceAs (Decidable (∀ b ∈ s, _))

/-- What holds of the five blanks of patterns holds of each of them. -/
theorem forall_blank {P : UInt8 → Prop} (h : ∀ b ∈ ([9, 10, 12, 13, 32] : Bytes), P b) {b : UInt8}
    (hb : CharSet.blank.contains b.toNat = true) : P b := by
  have hlisted : ∀ b : UInt8, CharSet.blank.contains b.toNat = true →
      b ∈ ([9, 10, 12, 13, 32] : Bytes) := forall_byte (by decide +kernel)
  exact h b (hlisted b hb)

theorem ascii_of_blank {b : UInt8} (hb : CharSet.blank.contains b.toNat = true) :
    b < 128 ∧ isSpace b.toNat = true ∧ isWord b = false :=
  forall_blank (P := fun b => b < 128 ∧ isSpace b.toNat = true ∧ isWord b = false) (by decide) hb

theorem not_blank_of_isWord {b : UInt8} (hb : isWord b = true) :
    CharSet.blank.contains b.toNat = false := by
  rw [Bool.eq_false_iff]
  intro hblank
  rw [(ascii_of_blank hblank).2.2] at hb
  exact Bool.noConfusion hb

theorem blank_of_isBlank {b : UInt8} (hb : isBlank b = true) :
    CharSet.blank.contains b.toNat = true :=
  forall_isBlank (P := fun b => CharSet.blank.contains b.toNat = true) (by decide) hb

theorem contains_digit (x : UInt8) : CharSet.digit.contains x.toNat = isDigit x := by
  simp [CharSet.contains, CharSet.digit, isDigit, UInt8.le_iff_toNat_le]

/-- The blanks in front of a text that does not start with a blank are all that blanks can take. -/
theorem blank_append_eq {t t' r u : Bytes} {x : UInt8} (ht' : AllBlank t')
    (hx : CharSet.blank.contains x.toNat = false) (h : t ++ x :: r = t' ++ u) :
    ∃ t'', t = t' ++ t'' ∧ u = t'' ++ x :: r := by
  rcases List.append_eq_append_iff.1 h with ⟨c, rfl, hc⟩ | ⟨c, rfl, hu⟩
  · cases c with
    | nil => exact ⟨[], by simp, by simpa using hc.symm⟩
    | cons y c =>
      obtain ⟨rfl, -⟩ := List.cons.inj hc
      exact absurd (ht' x (by simp)) (by rw [hx]; exact Bool.false_ne_true)
  · exact ⟨c, rfl, hu⟩

/-- There is one way to part the blanks in front from what follows. -/
theorem blank_append_inj {t t' r r' : Bytes} {x x' : UInt8} (ht : AllBlank t) (ht' : AllBlank t')
    (hx : CharSet.blank.contains x.toNat = false) (hx' : CharSet.blank.contains x'.toNat = false)
    (h : t ++ x :: r = t' ++ x' :: r') : x = x' ∧ r = r' := by
  obtain ⟨u, rfl, hu⟩ := blank_append_eq ht' hx h
  cases u with
  | nil =>
    obtain ⟨rfl, rfl⟩ := List.cons.inj hu
    exact ⟨rfl, rfl⟩
  | cons y u =>
    obtain ⟨rfl, -⟩ := List.cons.inj hu
    exact absurd (ht x' (by simp)) (by rw [hx']; exact Bool.false_ne_true)

/-- The byte of an ASCII character. -/
def charByte (ch : Char) : UInt8 :=
  ch.toNat.toUInt8

/-- Below 128 the set lists the byte `l` and, if that is a letter, its capital. -/
structure ListsForms (set : CharSet) (l : UInt8) : Prop where
  plain : set.negated = false
  forms : ∀ r ∈ set.ranges, r.1 = r.2 ∧ (r.1 < 128 → lowerByte (UInt8.ofNat r.1) = l)
  small : (l.toNat, l.toNat) ∈ set.ranges
  capital : isLower l = true → (l.toNat - 32, l.toNat - 32) ∈ set.ranges

instance (set : CharSet) (l : UInt8) : Decidable (ListsForms set l) :=
  decidable_of_iff (_ ∧ _ ∧ _ ∧ _)
    ⟨fun ⟨h₁, h₂, h₃, h₄⟩ => ⟨h₁, h₂, h₃, h₄⟩, fun ⟨h₁, h₂, h₃, h₄⟩ => ⟨h₁, h₂, h₃, h₄⟩⟩

theorem ListsForms.contains {set : CharSet} {l : UInt8} (h : ListsForms set l) {b : UInt8}
    (hb : b < 128) : set.contains b.toNat = (lowerByte b == l) := by
  rw [CharSet.contains, h.plain, Bool.bne_false, Bool.eq_iff_iff, List.any_eq_true, beq_iff_eq]
  constructor
  · rintro ⟨r, hr, hle⟩
    rw [Bool.and_eq_true, decide_eq_true_eq, decide_eq_true_eq] at hle
    obtain ⟨heq, hlower⟩ := h.forms r hr
    have hcode : r.1 = b.toNat := by omega
    rw [hcode, UInt8.ofNat_toNat] at hlower
    exact hlower (UInt8.lt_iff_toNat_lt.1 hb)
  · rintro rfl
    have hcases : ∀ b : UInt8, b.toNat = (lowerByte b).toNat ∨
        isLower (lowerByte b) = true ∧ b.toNat = (lowerByte b).toNat - 32 :=
      forall_byte (by decide +kernel)
    rcases hcases b with heq | ⟨hletter, heq⟩
    · exact ⟨_, h.small, by simp [heq]⟩
    · exact ⟨_, h.capital hletter, by simp [heq]⟩

/-- Below 128 the forms of a character are those of its letter. -/
theorem contains_anyCase {ch : Char} (hch : ch.toNat < 128) {b : UInt8} (hb : b < 128) :
    (CharSet.anyCase ch).contains b.toNat = (lowerByte b == lowerByte (charByte ch)) := by
  have hall : ∀ n < 128,
      ListsForms (CharSet.anyCase (Char.ofNat n)) (lowerByte (charByte (Char.ofNat n))) := by
    decide +kernel
  have hforms := hall ch.toNat hch
  rw [Char.ofNat_toNat] at hforms
  exact hforms.contains hb

namespace Pattern

/-! ## Where keywords match -/

/-- The characters one after the other, in any letter case. -/
theorem keyword_eq (s : String) :
    keyword s = seqs (s.toList.map fun ch => one (CharSet.anyCase ch)) :=
  rfl

/-- Whether all characters of the keyword are word bytes. -/
def IsKeyword (s : String) : Prop :=
  s.toList ≠ [] ∧ ∀ ch ∈ s.toList, ch.toNat < 128 ∧ isWord (charByte ch) = true

instance (s : String) : Decidable (IsKeyword s) :=
  inferInstanceAs (Decidable (_ ∧ _))

theorem leads_anyCase_ascii {ch : Char} (hch : ch.toNat < 128) {c c' : Cursor} {x : UInt8}
    {s : Bytes} (hx : x < 128) (hrest : c.rest = x :: s)
    (h : Leads (.one (CharSet.anyCase ch)) c c') :
    c.Takes [x] c' ∧ lowerByte x = lowerByte (charByte ch) := by
  cases h with
  | one hnext hset =>
    obtain ⟨b, t, htakes, -, hb⟩ := Cursor.takes_of_next? hnext
    have hbt := htakes.rest
    rw [hrest, List.cons_append, List.cons.injEq] at hbt
    obtain ⟨rfl, -⟩ := hbt
    rcases hb with ⟨-, rfl, rfl⟩ | ⟨hle, -, -⟩
    · rw [contains_anyCase hch hx, beq_iff_eq] at hset
      exact ⟨htakes, hset⟩
    · exact absurd hx (UInt8.not_lt.2 hle)

/-- In front of a word a keyword takes a first part of the word. -/
theorem leads_chars_word {cs : List Char}
    (hcs : ∀ ch ∈ cs, ch.toNat < 128 ∧ isWord (charByte ch) = true) {c c' : Cursor}
    {w b : Bytes} (hw : ∀ x ∈ w, isWord x = true) (hb : EndsWord b) (hrest : c.rest = w ++ b)
    (h : Leads (seqs (cs.map fun ch => one (CharSet.anyCase ch))) c c') :
    ∃ w₁ w₂, w = w₁ ++ w₂ ∧ w₁.map lowerByte = cs.map (fun ch => lowerByte (charByte ch)) ∧
      c.Takes w₁ c' := by
  induction cs generalizing c w with
  | nil =>
    obtain rfl := leads_nothing.1 h
    exact ⟨[], w, rfl, rfl, .refl _⟩
  | cons ch cs ih =>
    obtain ⟨hch, hcs⟩ := List.forall_mem_cons.1 hcs
    obtain ⟨c₁, hone, hseqs⟩ := leads_seqs_cons.1 h
    cases w with
    | nil =>
      exfalso
      rw [List.nil_append] at hrest
      cases b with
      | nil =>
        cases hone with
        | one hnext _ => simp [Cursor.next?, hrest] at hnext
      | cons x b =>
        obtain ⟨hx, hword⟩ := hb x rfl
        have hlower := (leads_anyCase_ascii hch.1 hx hrest hone).2
        rw [← isWord_lowerByte, hlower, isWord_lowerByte, hch.2] at hword
        exact Bool.noConfusion hword
    | cons x w =>
      obtain ⟨hx, hw⟩ := List.forall_mem_cons.1 hw
      obtain ⟨htakes, hlower⟩ := leads_anyCase_ascii hch.1 (ascii_of_isWord hx) hrest hone
      have hrest₁ : c₁.rest = w ++ b := by
        have hall := htakes.rest
        rw [hrest, List.cons_append, List.cons_append, List.cons.injEq] at hall
        exact hall.2.symm
      obtain ⟨w₁, w₂, rfl, hw₁, htakes₁⟩ := ih hcs hw hrest₁ hseqs
      exact ⟨x :: w₁, w₂, rfl, by simp [hlower, hw₁], htakes.trans htakes₁⟩

theorem leads_keyword_word {s : String} (hs : IsKeyword s) {c c' : Cursor} {w b : Bytes}
    (hw : ∀ x ∈ w, isWord x = true) (hb : EndsWord b) (hrest : c.rest = w ++ b)
    (h : Leads (keyword s) c c') :
    ∃ w₁ w₂, w = w₁ ++ w₂ ∧ w₁.map lowerByte = (ascii s).map lowerByte ∧ c.Takes w₁ c' := by
  obtain ⟨w₁, w₂, hw, hw₁, htakes⟩ := leads_chars_word hs.2 hw hb hrest h
  refine ⟨w₁, w₂, hw, ?_, htakes⟩
  rw [hw₁, ascii, List.map_map]
  rfl

theorem map_lowerByte_ne_nil {s : String} (hs : IsKeyword s) {w : Bytes}
    (hw : w.map lowerByte = (ascii s).map lowerByte) : w ≠ [] := by
  rintro rfl
  have hnil := List.map_eq_nil_iff.1 hw.symm
  rw [ascii, List.map_eq_nil_iff] at hnil
  exact hs.1 hnil

/-- A keyword starts with a word byte. -/
theorem not_leads_keyword {s : String} (hs : IsKeyword s) {c c' : Cursor}
    (hrest : EndsWord c.rest) : ¬ Leads (keyword s) c c' := by
  intro h
  obtain ⟨w₁, w₂, hw, hw₁, -⟩ := leads_keyword_word hs (w := []) (by simp) hrest rfl h
  exact map_lowerByte_ne_nil hs hw₁ (List.append_eq_nil_iff.1 hw.symm).1

/-- A keyword takes word bytes and bytes of 128 or more. -/
theorem leads_keyword_bytes {s : String} (hs : IsKeyword s) {c c' : Cursor}
    (h : Leads (keyword s) c c') :
    ∃ t, c.Takes t c' ∧ t ≠ [] ∧ ∀ x ∈ t, x < 128 → isWord x = true := by
  have hchars : ∀ (cs : List Char), (∀ ch ∈ cs, ch.toNat < 128 ∧ isWord (charByte ch) = true) →
      ∀ c, Leads (seqs (cs.map fun ch => one (CharSet.anyCase ch))) c c' →
        ∃ t, c.Takes t c' ∧ cs.length ≤ t.length ∧ ∀ x ∈ t, x < 128 → isWord x = true := by
    intro cs
    induction cs with
    | nil =>
      intro _ c h
      obtain rfl := leads_nothing.1 h
      exact ⟨[], .refl _, Nat.le_refl _, by simp⟩
    | cons ch cs ih =>
      intro hcs c h
      obtain ⟨hch, hcs⟩ := List.forall_mem_cons.1 hcs
      obtain ⟨c₁, hone, hseqs⟩ := leads_seqs_cons.1 h
      obtain ⟨t, htakes, hlen, ht⟩ := ih hcs c₁ hseqs
      cases hone with
      | one hnext hset =>
        obtain ⟨b, u, htakes', -, hb⟩ := Cursor.takes_of_next? hnext
        refine ⟨b :: u ++ t, htakes'.trans htakes, by simp; omega, ?_⟩
        intro x hx hascii
        rw [List.mem_append] at hx
        rcases hx with hx | hx
        · rcases hb with ⟨hb, rfl, rfl⟩ | ⟨hb, hu, -⟩
          · obtain rfl := List.mem_singleton.1 hx
            rw [contains_anyCase hch.1 hb, beq_iff_eq] at hset
            rw [← isWord_lowerByte, hset, isWord_lowerByte]
            exact hch.2
          · rcases List.mem_cons.1 hx with rfl | hx
            · exact absurd hascii (UInt8.not_lt.2 hb)
            · exact absurd hascii (UInt8.not_lt.2 (hu x hx))
        · exact ht x hx hascii
  obtain ⟨t, htakes, hlen, ht⟩ := hchars s.toList hs.2 c h
  refine ⟨t, htakes, ?_, ht⟩
  rintro rfl
  exact hs.1 (List.length_eq_zero_iff.1 (Nat.le_zero.1 hlen))

/-- The set holds ASCII characters only. -/
def AsciiSet (set : CharSet) : Prop :=
  set.negated = false ∧ ∀ r ∈ set.ranges, r.2 < 128

instance (set : CharSet) : Decidable (AsciiSet set) :=
  inferInstanceAs (Decidable (_ ∧ _))

theorem leads_one_ascii {set : CharSet} (hset : AsciiSet set) {c c' : Cursor}
    (h : Leads (.one set) c c') :
    ∃ b, b < 128 ∧ set.contains b.toNat = true ∧ c.Takes [b] c' ∧ c'.groups = c.groups := by
  have hsmall : ∀ code, set.contains code = true → code < 128 := by
    intro code hcode
    rw [CharSet.contains, hset.1, bne_iff_ne, ne_eq, Bool.not_eq_false] at hcode
    obtain ⟨r, hr, hle⟩ := List.any_eq_true.1 hcode
    have hlt := hset.2 r hr
    simp only [Bool.and_eq_true, decide_eq_true_eq] at hle
    omega
  cases h with
  | one hnext hcode =>
    obtain ⟨b, u, htakes, hgroups, hb⟩ := Cursor.takes_of_next? hnext
    rcases hb with ⟨hb, rfl, rfl⟩ | ⟨-, -, hlarge⟩
    · exact ⟨b, hb, hcode, htakes, hgroups⟩
    · exact absurd (hsmall _ hcode) (Nat.not_lt.2 hlarge)

/-- All forms of the first letter of the keyword are ASCII. -/
def AsciiHead (s : String) : Prop :=
  ∃ ch ∈ s.toList.head?, AsciiSet (CharSet.anyCase ch)

instance (s : String) : Decidable (AsciiHead s) :=
  inferInstanceAs (Decidable (∃ ch ∈ s.toList.head?, _))

theorem leads_keyword_head {s : String} (hs : AsciiHead s) {c c' : Cursor}
    (h : Leads (keyword s) c c') : ∃ x u, c.rest = x :: u ∧ x < 128 := by
  obtain ⟨ch, hhead, hch⟩ := hs
  obtain ⟨cs, hcs⟩ := List.head?_eq_some_iff.1 hhead
  rw [keyword_eq, hcs, List.map_cons] at h
  obtain ⟨c₁, hone, -⟩ := leads_seqs_cons.1 h
  obtain ⟨b, hb, -, htakes, -⟩ := leads_one_ascii hch hone
  exact ⟨b, c₁.rest, htakes.rest, hb⟩

/-! ## Blanks and fixed texts -/

theorem leads_many_ascii {set : CharSet} (hset : AsciiSet set) {c c' : Cursor}
    (h : Leads (.many (.one set)) c c') :
    ∃ t : Bytes, (∀ b ∈ t, set.contains b.toNat = true) ∧ c.Takes t c' := by
  generalize hp : many (one set) = p at h
  induction h with
  | manyNone => exact ⟨[], fun b hb => absurd hb List.not_mem_nil, .refl _⟩
  | manyMore hone _ _ ih =>
    cases hp
    obtain ⟨b, -, hb, htakes, -⟩ := leads_one_ascii hset hone
    obtain ⟨t, ht, htakes'⟩ := ih rfl
    exact ⟨[b] ++ t, List.forall_mem_cons.2 ⟨hb, ht⟩, htakes.trans htakes'⟩
  | _ => cases hp

theorem leads_many1_ascii {set : CharSet} (hset : AsciiSet set) {c c' : Cursor}
    (h : Leads (.many1 (.one set)) c c') :
    ∃ t : Bytes, t ≠ [] ∧ (∀ b ∈ t, set.contains b.toNat = true) ∧ c.Takes t c' := by
  obtain ⟨c₁, hone, hmany⟩ := leads_seq.1 h
  obtain ⟨b, -, hb, htakes, -⟩ := leads_one_ascii hset hone
  obtain ⟨t, ht, htakes'⟩ := leads_many_ascii hset hmany
  exact ⟨[b] ++ t, List.cons_ne_nil _ _, List.forall_mem_cons.2 ⟨hb, ht⟩, htakes.trans htakes'⟩

theorem leads_blanks {c c' : Cursor} (h : Leads blanks c c') :
    ∃ t, AllBlank t ∧ c.Takes t c' :=
  leads_many_ascii (by decide) h

theorem leads_blanks1 {c c' : Cursor} (h : Leads blanks1 c c') :
    ∃ t, t ≠ [] ∧ AllBlank t ∧ c.Takes t c' :=
  leads_many1_ascii (by decide) h

theorem leads_exactly {ch : Char} (hch : ch.toNat < 128) {c c' : Cursor}
    (h : Leads (.one (CharSet.exactly ch)) c c') : c.Takes [charByte ch] c' := by
  have hset : AsciiSet (CharSet.exactly ch) := ⟨rfl, List.forall_mem_singleton.2 hch⟩
  obtain ⟨b, -, hb, htakes, -⟩ := leads_one_ascii hset h
  have hcode : ch.toNat = b.toNat := by
    have hrange : ch.toNat ≤ b.toNat ∧ b.toNat ≤ ch.toNat := by
      simpa [CharSet.contains, CharSet.exactly] using hb
    omega
  have hbyte : charByte ch = b := by
    rw [charByte, hcode]
    simp
  rwa [hbyte]

theorem leads_text {s : String} (hs : ∀ ch ∈ s.toList, ch.toNat < 128) {c c' : Cursor}
    (h : Leads (text s) c c') : c.Takes (ascii s) c' := by
  rw [text] at h
  rw [ascii]
  generalize s.toList = cs at hs h
  induction cs generalizing c with
  | nil =>
    obtain rfl := leads_nothing.1 h
    exact .refl _
  | cons ch cs ih =>
    obtain ⟨hch, hcs⟩ := List.forall_mem_cons.1 hs
    obtain ⟨c₁, hone, hseqs⟩ := leads_seqs_cons.1 h
    exact (leads_exactly hch hone).trans (ih hcs hseqs)

/-! ## Patterns that open with a word -/

/-- Each match of the pattern starts at a word edge with one of the keywords, and goes on as the
pattern beside it. -/
def Opens (p : Pattern) (openings : List (String × Pattern)) : Prop :=
  ∀ c c' : Cursor, Leads p c c' → c.atWordEdge = true ∧
    ∃ o ∈ openings, ∃ c₁ c₂, Leads (keyword o.1) c c₁ ∧ Leads o.2 c₁ c₂

theorem opens_keyword (s : String) (ps : List Pattern) :
    (seqs (wordEdge :: keyword s :: ps)).Opens [(s, seqs ps)] := by
  intro c c' h
  obtain ⟨c₁, hedge, h₁⟩ := leads_seqs_cons.1 h
  obtain ⟨rfl, hedge⟩ := leads_wordEdge.1 hedge
  obtain ⟨c₂, hkey, h₂⟩ := leads_seqs_cons.1 h₁
  exact ⟨hedge, _, List.mem_singleton.2 rfl, c₂, c', hkey, h₂⟩

theorem leads_keywords {ss : List String} (hss : ss ≠ []) {c c' : Cursor}
    (h : Leads (keywords ss) c c') : ∃ s ∈ ss, Leads (keyword s) c c' := by
  rw [keywords] at h
  induction ss with
  | nil => exact absurd rfl hss
  | cons s ss ih =>
    cases ss with
    | nil => exact ⟨s, List.mem_cons_self, h⟩
    | cons next ss =>
      rcases leads_alt.1 h with hkey | hkeys
      · exact ⟨s, List.mem_cons_self, hkey⟩
      · obtain ⟨s', hs', hkey⟩ := ih (List.cons_ne_nil _ _) hkeys
        exact ⟨s', List.mem_cons_of_mem _ hs', hkey⟩

theorem opens_keywords {ss : List String} (hss : ss ≠ []) (ps : List Pattern) :
    (seqs (wordEdge :: keywords ss :: ps)).Opens (ss.map fun s => (s, seqs ps)) := by
  intro c c' h
  obtain ⟨c₁, hedge, h₁⟩ := leads_seqs_cons.1 h
  obtain ⟨rfl, hedge⟩ := leads_wordEdge.1 hedge
  obtain ⟨c₂, hkeys, h₂⟩ := leads_seqs_cons.1 h₁
  obtain ⟨s, hs, hkey⟩ := leads_keywords hss hkeys
  exact ⟨hedge, _, List.mem_map_of_mem hs, c₂, c', hkey, h₂⟩

/-- The pattern matches nowhere inside a word. -/
def OutsideWords (q : Pattern) : Prop :=
  ∀ c c' : Cursor, c.prev.any isWord = true → c.rest.head?.any isWord = true → ¬ Leads q c c'

theorem outsideWords_wordEdge (q : Pattern) : OutsideWords (.seq .wordEdge q) := by
  intro c c' hprev hnext h
  obtain ⟨c₁, hedge, -⟩ := leads_seq.1 h
  have hedge := (leads_wordEdge.1 hedge).2
  rw [Cursor.atWordEdge, hprev, hnext] at hedge
  exact Bool.noConfusion hedge

theorem outsideWords_blanks1 (q : Pattern) : OutsideWords (.seq .blanks1 q) := by
  intro c c' _ hnext h
  obtain ⟨c₁, hblanks, -⟩ := leads_seq.1 h
  obtain ⟨t, hne, ht, htakes⟩ := leads_blanks1 hblanks
  obtain ⟨b, t, rfl⟩ := List.exists_cons_of_ne_nil hne
  rw [htakes.rest, List.cons_append, List.head?_cons, Option.any_some,
    (ascii_of_blank (ht b List.mem_cons_self)).2.2] at hnext
  exact Bool.noConfusion hnext

/-- A call: blanks and an opening parenthesis. -/
theorem outsideWords_call (q : Pattern) : OutsideWords (.seq .blanks (.seq (.text "(") q)) := by
  intro c c' _ hnext h
  obtain ⟨c₁, hblanks, hcall⟩ := leads_seq.1 h
  obtain ⟨c₂, hparen, -⟩ := leads_seq.1 hcall
  obtain ⟨t, ht, htakes⟩ := leads_blanks hblanks
  have hopen : c₁.rest = 40 :: c₂.rest := (leads_text (by decide) hparen).rest
  rw [htakes.rest, hopen] at hnext
  cases t with
  | nil => exact Bool.noConfusion hnext
  | cons b t =>
    rw [List.cons_append, List.head?_cons, Option.any_some,
      (ascii_of_blank (ht b List.mem_cons_self)).2.2] at hnext
    exact Bool.noConfusion hnext

/-- A pattern that opens with a word does not match where no word byte stands. -/
theorem Opens.noMatchIn_separator {p : Pattern} {openings : List (String × Pattern)}
    (hp : p.Opens openings) (hkeys : ∀ o ∈ openings, IsKeyword o.1) {a : Bytes}
    (ha : ∀ x ∈ a, x < 128 ∧ isWord x = false) (prev : Option UInt8) (b : Bytes) :
    p.NoMatchIn prev a b := by
  intro a₁ x a₂ h
  rw [Option.eq_none_iff_forall_ne_some]
  intro m hm
  obtain ⟨c', hleads, -⟩ := leads_of_matchHere? hm
  obtain ⟨-, o, ho, c₁, c₂, hkey, -⟩ := hp _ _ hleads
  refine not_leads_keyword (hkeys o ho) ?_ hkey
  intro y hy
  obtain rfl : x = y := Option.some.inj hy
  exact ha x (by rw [h]; simp)

/-- A pattern that opens with other words does not match in a word; where it opens with this word,
what it goes on with must not follow. -/
theorem Opens.noMatchIn_word {p : Pattern} {openings : List (String × Pattern)}
    (hp : p.Opens openings) (hkeys : ∀ o ∈ openings, IsKeyword o.1 ∧ OutsideWords o.2)
    {w b : Bytes} (hw : IsWord w) (hb : EndsWord b) (prev : Option UInt8)
    (hother : ∀ o ∈ openings, w.map lowerByte = (ascii o.1).map lowerByte →
      ∀ c c' : Cursor, c.rest = b → ¬ Leads o.2 c c') :
    p.NoMatchIn prev w b := by
  intro a₁ x a₂ h
  rw [Option.eq_none_iff_forall_ne_some]
  intro m hm
  obtain ⟨c', hleads, -⟩ := leads_of_matchHere? hm
  obtain ⟨hedge, o, ho, c₁, c₂, hkey, hnext⟩ := hp _ _ hleads
  have hx : isWord x = true := hw.2 x (by rw [h]; simp)
  cases hlast : a₁.getLast? with
  | some y =>
    -- inside the word there is no edge
    have hy : isWord y = true := hw.2 y (by rw [h]; simp [List.mem_of_getLast? hlast])
    simp [Cursor.atWordEdge, hlast, hx, hy] at hedge
  | none =>
    obtain rfl := List.getLast?_eq_none_iff.1 hlast
    rw [List.nil_append] at h
    obtain ⟨hkeyword, houtside⟩ := hkeys o ho
    obtain ⟨w₁, w₂, hw₁₂, hw₁, htakes⟩ :=
      leads_keyword_word hkeyword (w := w) (b := b) hw.2 hb (by rw [h]; rfl) hkey
    have hrest : c₁.rest = w₂ ++ b := by
      have hall := htakes.rest
      rw [← List.cons_append, ← h, hw₁₂, List.append_assoc] at hall
      exact (List.append_cancel_left hall).symm
    have hne := map_lowerByte_ne_nil hkeyword hw₁
    cases w₂ with
    | nil =>
      rw [List.append_nil] at hw₁₂
      exact hother o ho (hw₁₂ ▸ hw₁) c₁ c₂ hrest hnext
    | cons y w₂ =>
      refine houtside _ _ ?_ ?_ hnext
      · have hz := List.getLast?_eq_some_getLast hne
        rw [htakes.prev, hz, Option.some_or, Option.any_some]
        exact hw.2 _ (by rw [hw₁₂]; simp [List.mem_of_getLast? hz])
      · rw [hrest, List.cons_append, List.head?_cons, Option.any_some]
        exact hw.2 y (by rw [hw₁₂]; simp)

/-! ## Matching what stands there -/

/-- The place behind the text `t`, with `s` in front of it. -/
def Cursor.past (c : Cursor) (t s : Bytes) : Cursor :=
  { c with prev := t.getLast?.or c.prev, rest := s, taken := c.taken + t.length }

theorem Cursor.past_past (c : Cursor) (t u s s' : Bytes) :
    (c.past t s).past u s' = c.past (t ++ u) s' := by
  simp [past, List.getLast?_append, Option.or_assoc, Nat.add_assoc]

theorem Cursor.past_nil {c : Cursor} {s : Bytes} (hrest : c.rest = s) : c.past [] s = c := by
  simp [past, ← hrest]

theorem Cursor.takes_past {c : Cursor} {t s : Bytes} (hrest : c.rest = t ++ s) :
    c.Takes t (c.past t s) :=
  ⟨hrest, rfl, rfl⟩

section

variable {α : Type} {k : Cursor → Option α} {c : Cursor}

theorem run_seqs_cons (p : Pattern) (ps : List Pattern) :
    (seqs (p :: ps)).run c k = p.run c fun c' => (seqs ps).run c' k :=
  rfl

theorem run_seqs_nil : (seqs []).run c k = k c :=
  rfl

theorem run_group (n : Nat) (p : Pattern) :
    (group n p).run c k = p.run c fun c' => k (c'.record n c) :=
  rfl

theorem run_one {set : CharSet} {x : UInt8} {s : Bytes} (hrest : c.rest = x :: s) (hx : x < 128) :
    (one set).run c k = if set.contains x.toNat then k (c.past [x] s) else none := by
  simp [run, Cursor.next?, hrest, Utf8.lead_ascii hx, Cursor.past]

/-- A keyword takes its own letters in any case. -/
theorem run_keyword {word : String} (hword : IsKeyword word) {t s : Bytes}
    (hrest : c.rest = t ++ s) (ht : t.map lowerByte = (ascii word).map lowerByte) :
    (keyword word).run c k = k (c.past t s) := by
  have hchars := hword.2
  rw [keyword_eq]
  rw [ascii, List.map_map] at ht
  generalize word.toList = cs at hchars ht
  induction cs generalizing c t with
  | nil =>
    obtain rfl := List.map_eq_nil_iff.1 ht
    rw [List.nil_append] at hrest
    simp [seqs, run, Cursor.past, ← hrest]
  | cons ch cs ih =>
    obtain ⟨hch, hcs⟩ := List.forall_mem_cons.1 hchars
    cases t with
    | nil => simp at ht
    | cons x t =>
      rw [List.map_cons, List.map_cons, List.cons.injEq] at ht
      have hx : x < 128 := by
        apply ascii_of_isWord
        rw [← isWord_lowerByte, ht.1, Function.comp_apply, isWord_lowerByte]
        exact hch.2
      have hset : (CharSet.anyCase ch).contains x.toNat = true := by
        rw [contains_anyCase hch.1 hx, beq_iff_eq]
        exact ht.1
      have htail := ih (c := c.past [x] (t ++ s)) rfl hcs ht.2
      rw [Cursor.past_past] at htail
      rw [List.map_cons, seqs, List.foldr_cons, run, run_one hrest hx, if_pos hset]
      exact htail

/-- A fixed text takes itself. -/
theorem run_text {s : String} (hs : ∀ ch ∈ s.toList, ch.toNat < 128) {r : Bytes}
    (hrest : c.rest = ascii s ++ r) : (text s).run c k = k (c.past (ascii s) r) := by
  rw [ascii] at hrest ⊢
  rw [text]
  generalize s.toList = cs at hs hrest
  induction cs generalizing c with
  | nil =>
    have hr : c.rest = r := hrest
    simp [seqs, run, Cursor.past, ← hr]
  | cons ch cs ih =>
    obtain ⟨hch, hcs⟩ := List.forall_mem_cons.1 hs
    have hcode : (charByte ch).toNat = ch.toNat := by
      rw [charByte, Nat.toUInt8, UInt8.toNat_ofNat']
      omega
    have hbyte : charByte ch < 128 := by
      rw [UInt8.lt_iff_toNat_lt, hcode]
      exact hch
    have hset : (CharSet.exactly ch).contains (charByte ch).toNat = true := by
      rw [hcode]
      simp [CharSet.contains, CharSet.exactly]
    have htail := ih (c := c.past [charByte ch] (cs.map (fun ch => ch.toNat.toUInt8) ++ r)) hcs rfl
    rw [Cursor.past_past] at htail
    rw [List.map_cons, seqs, List.foldr_cons, run, run_one (x := charByte ch) hrest hbyte, if_pos hset]
    exact htail

/-- A repetition takes a text byte by byte if its body does, as far as the body goes on and if the rest
of the match agrees. -/
theorem run_many {p : Pattern} {t s : Bytes} (hrest : c.rest = t ++ s)
    (hstep : ∀ x ∈ t, ∀ (d : Cursor) (u : Bytes) (k : Cursor → Option α) (r : α),
      d.rest = x :: u → k (d.past [x] u) = some r → p.run d k = some r)
    (hstop : ∀ (d : Cursor) (k : Cursor → Option α), d.rest = s → p.run d k = none) {r : α}
    (hk : k (c.past t s) = some r) : (many p).run c k = some r := by
  rw [run, hrest]
  induction t generalizing c with
  | nil =>
    rw [List.nil_append] at hrest ⊢
    rw [Cursor.past_nil hrest] at hk
    cases s with
    | nil => exact hk
    | cons x s =>
      rw [repeatGreedy, hstop c _ hrest]
      exact hk
  | cons x t ih =>
    obtain ⟨hx, ht⟩ := List.forall_mem_cons.1 hstep
    have htail := ih (c := c.past [x] (t ++ s)) rfl ht (by rw [Cursor.past_past]; exact hk)
    rw [List.cons_append] at hrest ⊢
    have hbody := hx c (t ++ s)
      (fun c' => if c.taken < c'.taken then repeatGreedy (fun c' k' => p.run c' k') k (t ++ s) c'
        else none) r hrest (by rw [if_pos (by simp [Cursor.past]), htail])
    rw [repeatGreedy, hbody]

/-- A repetition takes all characters of its set, if the rest of the match agrees. -/
theorem run_many_one {set : CharSet} {t s : Bytes} (hrest : c.rest = t ++ s)
    (ht : ∀ x ∈ t, x < 128 ∧ set.contains x.toNat = true)
    (hs : ∀ x, s.head? = some x → x < 128 ∧ set.contains x.toNat = false) {r : α}
    (hk : k (c.past t s) = some r) : (many (one set)).run c k = some r := by
  refine run_many hrest (fun x hx d u k' r' hd hk' => ?_) (fun d k' hd => ?_) hk
  · obtain ⟨hascii, hset⟩ := ht x hx
    rw [run_one hd hascii, if_pos hset, hk']
  · cases s with
    | nil => simp [run, Cursor.next?, hd]
    | cons x s =>
      obtain ⟨hascii, hset⟩ := hs x rfl
      rw [run_one hd hascii, hset]
      rfl

theorem run_many1_one {set : CharSet} {t s : Bytes} (hrest : c.rest = t ++ s) (hne : t ≠ [])
    (ht : ∀ x ∈ t, x < 128 ∧ set.contains x.toNat = true)
    (hs : ∀ x, s.head? = some x → x < 128 ∧ set.contains x.toNat = false) {r : α}
    (hk : k (c.past t s) = some r) : (many1 (one set)).run c k = some r := by
  obtain ⟨x, t, rfl⟩ := List.exists_cons_of_ne_nil hne
  obtain ⟨⟨hx, hset⟩, ht⟩ := List.forall_mem_cons.1 ht
  rw [many1, run, run_one hrest hx, if_pos hset]
  exact run_many_one rfl ht hs (by rw [Cursor.past_past]; exact hk)

/-- The text does not start with a blank. -/
def StartsSolid (s : Bytes) : Prop :=
  ∀ x, s.head? = some x → x < 128 ∧ CharSet.blank.contains x.toNat = false

theorem startsSolid_of_isWord {w : Bytes} (hw : IsWord w) (s : Bytes) : StartsSolid (w ++ s) := by
  obtain ⟨x, w, rfl⟩ := List.exists_cons_of_ne_nil hw.1
  intro y hy
  obtain rfl : x = y := Option.some.inj hy
  have hx := hw.2 x List.mem_cons_self
  exact ⟨ascii_of_isWord hx, not_blank_of_isWord hx⟩

theorem run_blanks {t s : Bytes} (hrest : c.rest = t ++ s) (ht : AllBlank t) (hs : StartsSolid s)
    {r : α} (hk : k (c.past t s) = some r) : blanks.run c k = some r :=
  run_many_one hrest (fun x hx => ⟨(ascii_of_blank (ht x hx)).1, ht x hx⟩) hs hk

theorem run_blanks1 {t s : Bytes} (hrest : c.rest = t ++ s) (hne : t ≠ []) (ht : AllBlank t)
    (hs : StartsSolid s) {r : α} (hk : k (c.past t s) = some r) : blanks1.run c k = some r :=
  run_many1_one hrest hne (fun x hx => ⟨(ascii_of_blank (ht x hx)).1, ht x hx⟩) hs hk

theorem run_alt_of_some {p q : Pattern} {r : α} (h : p.run c k = some r) :
    (alt p q).run c k = some r := by
  rw [run, h]

theorem run_alt_of_none {p q : Pattern} (h : p.run c k = none) : (alt p q).run c k = q.run c k := by
  rw [run, h]

theorem run_opt_of_some {p : Pattern} {r : α} (h : p.run c k = some r) :
    (opt p).run c k = some r :=
  run_alt_of_some h

theorem run_opt_of_none {p : Pattern} (h : p.run c k = none) : (opt p).run c k = k c :=
  run_alt_of_none h

/-- A pattern that leads nowhere does not match. -/
theorem run_eq_none {p : Pattern} (h : ∀ c', ¬ Leads p c c') : p.run c k = none := by
  rw [Option.eq_none_iff_forall_ne_some]
  intro r hr
  obtain ⟨c', hleads, -⟩ := sound_run p _ _ _ hr
  exact h c' hleads

end

end Pattern

end SqlDialect
