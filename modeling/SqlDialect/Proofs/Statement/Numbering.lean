import Mathlib.Data.List.Forall2
import SqlDialect.Proofs.Literal.RoundTrip
import SqlDialect.Proofs.Text.OneLine
import SqlDialect.Statement.Kind

set_option autoImplicit false

/-! # The kind does not depend on the numbers of literals

A literal in front of a statement shifts the numbers of all literals behind it, so the same words
come with other placeholders. Two such texts differ in numbers only (`Renumbered`). Skipping comments
cuts both at the same places, both have the same characters up to numbers, and so their words are
the same or hold digits on both sides. No keyword that announces a kind holds a digit. -/

namespace SqlDialect

open Bytes

/-! ## Numbering from any number on -/

/-- The statement with placeholders for its literals, numbered from `n` on. -/
def shieldFrom (n : Nat) (sql : Bytes) : Bytes :=
  (Shielding.ofText sql).head ++ Shielding.numbered n (Shielding.ofText sql).tail

theorem shield_fst (sql : Bytes) : (shield sql).1 = shieldFrom 0 sql :=
  rfl

theorem shieldFrom_nil (n : Nat) : shieldFrom n [] = [] := by
  rw [shieldFrom, Shielding.ofText]
  rfl

theorem shieldFrom_quote {q : UInt8} (hq : q = singleQuote ∨ q = doubleQuote) (n : Nat) (s : Bytes) :
    shieldFrom n (q :: s) = placeholder n ++ shieldFrom (n + 1) (closeQuote q s).2 := by
  rw [shieldFrom, Shielding.ofText, if_pos hq]
  simp [shieldFrom, Shielding.literal, Shielding.numbered]

theorem shieldFrom_backtick (n : Nat) (s : Bytes) :
    shieldFrom n (backtick :: s)
      = backtick :: (throughByte backtick s).1 ++ shieldFrom n (throughByte backtick s).2 := by
  rw [shieldFrom, Shielding.ofText, if_neg (by decide), if_pos rfl]
  simp [shieldFrom, Shielding.keep]

theorem shieldFrom_plain {b : UInt8} (hb : ¬ (b = singleQuote ∨ b = doubleQuote))
    (hb' : b ≠ backtick) (n : Nat) (s : Bytes) : shieldFrom n (b :: s) = b :: shieldFrom n s := by
  rw [shieldFrom, Shielding.ofText, if_neg hb, if_neg hb']
  simp [shieldFrom, Shielding.keep]

/-! ## Texts that differ in numbers -/

/-- A run of decimal digits. -/
def IsNumber (d : Bytes) : Prop :=
  d ≠ [] ∧ ∀ b ∈ d, isDigit b = true

theorem isNumber_decimal (n : Nat) : IsNumber (decimal n) :=
  ⟨decimal_ne_nil n, fun _ hb => isDigit_of_mem_decimal hb⟩

/-- The texts are the same but for some numbers, which stand at the same places. -/
inductive Renumbered : Bytes → Bytes → Prop where
  | nil : Renumbered [] []
  | cons (b : UInt8) {s t : Bytes} (h : Renumbered s t) : Renumbered (b :: s) (b :: t)
  | number {d e s t : Bytes} (hd : IsNumber d) (he : IsNumber e) (h : Renumbered s t) :
      Renumbered (d ++ s) (e ++ t)

theorem Renumbered.append_left {s t : Bytes} (h : Renumbered s t) (a : Bytes) :
    Renumbered (a ++ s) (a ++ t) := by
  induction a with
  | nil => exact h
  | cons b a ih => exact .cons b ih

/-- Numbering from another number on changes numbers only. -/
theorem renumbered_shieldFrom (n m : Nat) (sql : Bytes) :
    Renumbered (shieldFrom n sql) (shieldFrom m sql) := by
  fun_induction Shielding.ofText sql generalizing n m with
  | case1 =>
    rw [shieldFrom_nil, shieldFrom_nil]
    exact .nil
  | case2 b s hb ih =>
    rw [shieldFrom_quote hb, shieldFrom_quote hb, placeholder, placeholder]
    simp only [List.append_assoc]
    exact (Renumbered.number (isNumber_decimal n) (isNumber_decimal m)
      ((ih (n + 1) (m + 1)).append_left markerEnd)).append_left marker
  | case3 s hb ih =>
    rw [shieldFrom_backtick, shieldFrom_backtick]
    exact (ih n m).append_left _
  | case4 b s hb hb' ih =>
    rw [shieldFrom_plain hb hb', shieldFrom_plain hb hb']
    exact .cons b (ih n m)

/-! ## Skipping comments -/

theorem dropLine_append {a : Bytes} (ha : 10 ∉ a) (s : Bytes) : dropLine (a ++ s) = dropLine s := by
  induction a with
  | nil => rfl
  | cons b a ih =>
    rw [List.mem_cons, not_or] at ha
    rw [List.cons_append, dropLine, if_neg (Ne.symm ha.1), ih ha.2]

/-- A text that starts with another byte than the one looked for is passed over. -/
theorem cut?_cons_append {x : UInt8} {a : Bytes} (ha : x ∉ a) (sep s : Bytes) :
    cut? (x :: sep) (a ++ s) = (cut? (x :: sep) s).map fun p => (a ++ p.1, p.2) := by
  induction a with
  | nil => simp
  | cons b a ih =>
    rw [List.mem_cons, not_or] at ha
    rw [List.cons_append, cut?, dropLead?, if_neg ha.1, ih ha.2, Option.map_map]
    rfl

namespace Renumbered

variable {s t : Bytes}

theorem dropLead? (h : Renumbered s t) (lead : Bytes) (hlead : ∀ b ∈ lead, isDigit b = false) :
    Option.Rel Renumbered (Bytes.dropLead? lead s) (Bytes.dropLead? lead t) := by
  induction h generalizing lead with
  | nil =>
    cases lead with
    | nil => exact .some .nil
    | cons x lead => exact .none
  | cons b h ih =>
    cases lead with
    | nil => exact .some (.cons b h)
    | cons x lead =>
      rw [Bytes.dropLead?, Bytes.dropLead?]
      split
      · exact ih lead (List.forall_mem_cons.1 hlead).2
      · exact .none
  | @number d e s t hd he h ih =>
    cases lead with
    | nil => exact .some (.number hd he h)
    | cons x lead =>
      have hnone : ∀ {d s : Bytes}, IsNumber d → Bytes.dropLead? (x :: lead) (d ++ s) = none := by
        intro d s hd
        obtain ⟨b, d, rfl⟩ := List.exists_cons_of_ne_nil hd.1
        rw [List.cons_append, Bytes.dropLead?, if_neg]
        rintro rfl
        exact Bool.noConfusion ((hd.2 x List.mem_cons_self).symm.trans (hlead x List.mem_cons_self))
      rw [hnone hd, hnone he]
      exact .none

theorem dropLine (h : Renumbered s t) :
    Renumbered (SqlDialect.dropLine s) (SqlDialect.dropLine t) := by
  have hnewline : ∀ {d : Bytes}, IsNumber d → 10 ∉ d :=
    fun hd hmem => absurd (hd.2 10 hmem) (by decide)
  induction h with
  | nil => exact .nil
  | cons b h ih =>
    rw [SqlDialect.dropLine, SqlDialect.dropLine]
    split
    · exact h
    · exact ih
  | number hd he h ih =>
    rw [dropLine_append (hnewline hd), dropLine_append (hnewline he)]
    exact ih

theorem cut? (h : Renumbered s t) (x : UInt8) (sep : Bytes)
    (hsep : ∀ b ∈ x :: sep, isDigit b = false) :
    Option.Rel Renumbered ((Bytes.cut? (x :: sep) s).map Prod.snd)
      ((Bytes.cut? (x :: sep) t).map Prod.snd) := by
  have hnot : ∀ {d : Bytes}, IsNumber d → x ∉ d := fun hd hmem =>
    Bool.noConfusion ((hd.2 x hmem).symm.trans (hsep x List.mem_cons_self))
  induction h with
  | nil => exact .none
  | @cons b s t h ih =>
    have hlead := (Renumbered.cons b h).dropLead? (x :: sep) hsep
    rw [Bytes.cut?, Bytes.cut?]
    cases hs : Bytes.dropLead? (x :: sep) (b :: s) with
    | none =>
      rw [hs] at hlead
      cases ht : Bytes.dropLead? (x :: sep) (b :: t) with
      | none => simpa [Option.map_map, Function.comp_def] using ih
      | some r => rw [ht] at hlead; cases hlead
    | some r =>
      rw [hs] at hlead
      cases ht : Bytes.dropLead? (x :: sep) (b :: t) with
      | none => rw [ht] at hlead; cases hlead
      | some r' =>
        rw [ht] at hlead
        exact hlead
  | number hd he h ih =>
    rw [cut?_cons_append (hnot hd), cut?_cons_append (hnot he)]
    simpa [Option.map_map, Function.comp_def] using ih

theorem trimLeft (h : Renumbered s t) : Renumbered (Bytes.trimLeft s) (Bytes.trimLeft t) := by
  have hsolid : ∀ {d s : Bytes}, IsNumber d → Bytes.trimLeft (d ++ s) = d ++ s := by
    intro d s hd
    obtain ⟨b, d, rfl⟩ := List.exists_cons_of_ne_nil hd.1
    rw [Bytes.trimLeft, List.cons_append, List.dropWhile_cons,
      not_isBlank_of_isWord (isWord_of_isDigit (hd.2 b List.mem_cons_self))]
    rfl
  induction h with
  | nil => exact .nil
  | cons b h ih =>
    rw [Bytes.trimLeft, Bytes.trimLeft, List.dropWhile_cons, List.dropWhile_cons]
    split
    · exact ih
    · exact .cons b h
  | number hd he h ih =>
    rw [hsolid hd, hsolid he]
    exact .number hd he h

theorem dropComment? (h : Renumbered s t) :
    Option.Rel Renumbered (SqlDialect.dropComment? s) (SqlDialect.dropComment? t) := by
  have hopen := h.dropLead? (ascii "/*") (by decide)
  have hdash := h.dropLead? (ascii "--") (by decide)
  have hhash := h.dropLead? (ascii "#") (by decide)
  have hsome : ∀ {o o' : Option Bytes}, Option.Rel Renumbered o o' → o.isSome = o'.isSome := by
    intro o o' h
    cases h <;> rfl
  have hgetD : ∀ {o o' : Option Bytes}, Option.Rel Renumbered o o' →
      Renumbered (o.getD []) (o'.getD []) := by
    intro o o' h
    cases h with
    | none => exact .nil
    | some h => exact h
  rw [SqlDialect.dropComment?, SqlDialect.dropComment?, Bytes.startsWith, Bytes.startsWith,
    Bytes.startsWith, Bytes.startsWith, hsome hdash, hsome hhash]
  generalize Bytes.dropLead? (ascii "/*") s = o at hopen
  generalize Bytes.dropLead? (ascii "/*") t = o' at hopen
  cases hopen with
  | none =>
    dsimp only
    split
    · exact .some h.dropLine
    · exact .none
  | some hinner =>
    have hcut := hinner.cut? 42 (ascii "/") (by decide)
    exact .some (hgetD hcut)

/-- Skipping comments cuts texts that differ in numbers at the same place. -/
theorem skipLeadingComments (h : Renumbered s t) :
    Renumbered (SqlDialect.skipLeadingComments s) (SqlDialect.skipLeadingComments t) := by
  induction hlen : s.length using Nat.strongRecOn generalizing s t with
  | _ n ih =>
    have hcomment := h.trimLeft.dropComment?
    rw [SqlDialect.skipLeadingComments.eq_def s, SqlDialect.skipLeadingComments.eq_def t]
    split
    · rename_i rest hrest
      rw [hrest] at hcomment
      have hlt : rest.length < n := by
        have hshort := length_of_dropComment? hrest
        have hle : (Bytes.trimLeft s).length ≤ s.length := (List.dropWhile_suffix _).length_le
        omega
      split
      · rename_i rest' hrest'
        rw [hrest'] at hcomment
        cases hcomment with
        | some hrests => exact ih _ hlt hrests rfl
      · rename_i hnone
        rw [hnone] at hcomment
        cases hcomment
    · rename_i hnone
      rw [hnone] at hcomment
      split
      · rename_i rest' hrest'
        rw [hrest'] at hcomment
        cases hcomment
      · exact h.trimLeft

end Renumbered

/-! ## Characters -/

/-- The bytes of 128 or more at the start of a text, which alone can continue a character. -/
def highRun (s : Bytes) : Bytes :=
  s.takeWhile fun b => decide (128 ≤ b)

/-- A character ends with the bytes of 128 or more behind its first. -/
theorem lead_highRun (b : UInt8) (s : Bytes) : Utf8.lead b (highRun s) = Utf8.lead b s := by
  have h₃ : (128 : UInt8) ≤ if b = 0xE0 then 0xA0 else 0x80 := by split <;> decide
  have h₄ : (128 : UInt8) ≤ if b = 0xF0 then 0x90 else 0x80 := by split <;> decide
  have hlow : ∀ {low x : UInt8}, 128 ≤ low → x < 128 → ¬ low ≤ x := fun hlow hx hle =>
    absurd (UInt8.le_trans hlow hle) (UInt8.not_le.2 hx)
  unfold Utf8.lead
  generalize (if b = 0xE0 then (0xA0 : UInt8) else 0x80) = low₃ at h₃ ⊢
  generalize (if b = 0xF0 then (0x90 : UInt8) else 0x80) = low₄ at h₄ ⊢
  rcases s with _ | ⟨x, _ | ⟨y, _ | ⟨z, s⟩⟩⟩
  · rfl
  · by_cases hx : x < 128
    · simp [highRun, hx, Utf8.isContinuation_of_lt]
    · simp [highRun, UInt8.not_lt.1 hx]
  · by_cases hx : x < 128
    · simp [highRun, UInt8.not_le.2 hx, Utf8.isContinuation_of_lt hx, hlow h₃ hx]
    · by_cases hy : y < 128
      · simp [highRun, UInt8.not_lt.1 hx, UInt8.not_le.2 hy, Utf8.isContinuation_of_lt hy]
      · simp [highRun, UInt8.not_lt.1 hx, UInt8.not_lt.1 hy]
  · by_cases hx : x < 128
    · simp [highRun, UInt8.not_le.2 hx, Utf8.isContinuation_of_lt hx, hlow h₃ hx, hlow h₄ hx]
    · by_cases hy : y < 128
      · simp [highRun, UInt8.not_lt.1 hx, UInt8.not_le.2 hy, Utf8.isContinuation_of_lt hy]
      · by_cases hz : z < 128
        · simp [highRun, UInt8.not_lt.1 hx, UInt8.not_lt.1 hy, UInt8.not_le.2 hz,
            Utf8.isContinuation_of_lt hz]
        · simp [highRun, UInt8.not_lt.1 hx, UInt8.not_lt.1 hy, UInt8.not_lt.1 hz]

/-- An ASCII byte as a character. -/
def asciiGlyph (b : UInt8) : Glyph :=
  ⟨b.toNat, [b]⟩

/-- The lists of characters are the same but for some numbers. -/
inductive GlyphsRenumbered : List Glyph → List Glyph → Prop where
  | nil : GlyphsRenumbered [] []
  | cons (g : Glyph) {gs hs : List Glyph} (h : GlyphsRenumbered gs hs) :
      GlyphsRenumbered (g :: gs) (g :: hs)
  | number {d e : Bytes} {gs hs : List Glyph} (hd : IsNumber d) (he : IsNumber e)
      (h : GlyphsRenumbered gs hs) :
      GlyphsRenumbered (d.map asciiGlyph ++ gs) (e.map asciiGlyph ++ hs)

theorem highRun_number {d : Bytes} (hd : IsNumber d) (s : Bytes) : highRun (d ++ s) = [] := by
  obtain ⟨b, d, rfl⟩ := List.exists_cons_of_ne_nil hd.1
  have hb := ascii_of_isDigit (hd.2 b List.mem_cons_self)
  simp [highRun, hb]

theorem Renumbered.highRun {s t : Bytes} (h : Renumbered s t) : highRun s = highRun t := by
  induction h with
  | nil => rfl
  | cons b h ih =>
    rw [SqlDialect.highRun, SqlDialect.highRun] at ih ⊢
    rw [List.takeWhile_cons, List.takeWhile_cons, ih]
  | number hd he h ih => rw [highRun_number hd, highRun_number he]

theorem take_highRun {n : Nat} {s : Bytes} (hn : n ≤ (highRun s).length) :
    s.take n = (highRun s).take n := by
  have hs : highRun s ++ s.dropWhile (fun b => decide (128 ≤ b)) = s :=
    List.takeWhile_append_dropWhile
  rw [← List.take_append_of_le_length hn, hs]

theorem glyphsFrom_number {d : Bytes} (hd : ∀ b ∈ d, isDigit b = true) (s : Bytes) :
    Utf8.glyphsFrom 0 (d ++ s) = d.map asciiGlyph ++ Utf8.glyphsFrom 0 s := by
  induction d with
  | nil => rfl
  | cons b d ih =>
    obtain ⟨hb, hd⟩ := List.forall_mem_cons.1 hd
    rw [List.cons_append, Utf8.glyphsFrom, Utf8.lead_ascii (ascii_of_isDigit hb)]
    dsimp only
    rw [ih hd]
    rfl

/-- Texts that differ in numbers have characters that differ in numbers: no digit is part of a
longer character. -/
theorem Renumbered.glyphsFrom {s t : Bytes} (h : Renumbered s t) {skip : Nat}
    (hskip : skip ≤ (SqlDialect.highRun s).length) :
    GlyphsRenumbered (Utf8.glyphsFrom skip s) (Utf8.glyphsFrom skip t) := by
  induction h generalizing skip with
  | nil => cases skip <;> exact .nil
  | @cons b s t h ih =>
    cases skip with
    | succ n =>
      refine ih ?_
      rw [SqlDialect.highRun, List.takeWhile_cons] at hskip
      split at hskip
      · exact Nat.le_of_succ_le_succ hskip
      · exact absurd hskip (Nat.not_succ_le_zero n)
    | zero =>
      have hle : (Utf8.lead b s).2 ≤ (SqlDialect.highRun s).length := by
        rw [← lead_highRun]
        exact (Utf8.lead_continuation b _).1
      have hlead : Utf8.lead b t = Utf8.lead b s := by
        rw [← lead_highRun b t, ← h.highRun, lead_highRun]
      have htake : t.take (Utf8.lead b s).2 = s.take (Utf8.lead b s).2 := by
        rw [take_highRun hle, h.highRun]
        exact take_highRun (h.highRun ▸ hle)
      rw [Utf8.glyphsFrom, Utf8.glyphsFrom, hlead]
      dsimp only
      rw [htake]
      exact .cons _ (ih hle)
  | @number d e s t hd he h ih =>
    rw [highRun_number hd] at hskip
    obtain rfl := Nat.le_zero.1 hskip
    rw [glyphsFrom_number hd.2, glyphsFrom_number he.2]
    exact .number hd he (ih (Nat.zero_le _))

theorem Renumbered.glyphs {s t : Bytes} (h : Renumbered s t) :
    GlyphsRenumbered (Utf8.glyphs s) (Utf8.glyphs t) :=
  h.glyphsFrom (Nat.zero_le _)

/-! ## Words -/

/-- The words are the same, or there is a digit in each. -/
def SameOrNumbered (w v : Bytes) : Prop :=
  w = v ∨ (∃ b ∈ w, isDigit b = true) ∧ ∃ b ∈ v, isDigit b = true

theorem SameOrNumbered.append {w v w' v' : Bytes} (h : SameOrNumbered w v)
    (h' : SameOrNumbered w' v') : SameOrNumbered (w ++ w') (v ++ v') := by
  rcases h with rfl | ⟨⟨b, hb, hbd⟩, c, hc, hcd⟩
  · rcases h' with rfl | ⟨⟨b, hb, hbd⟩, c, hc, hcd⟩
    · exact Or.inl rfl
    · exact Or.inr ⟨⟨b, List.mem_append_right w hb, hbd⟩, c, List.mem_append_right w hc, hcd⟩
  · exact Or.inr ⟨⟨b, List.mem_append_left w' hb, hbd⟩, c, List.mem_append_left v' hc, hcd⟩

theorem sameOrNumbered_of_isNumber {d e : Bytes} (hd : IsNumber d) (he : IsNumber e) :
    SameOrNumbered d e := by
  obtain ⟨b, hb⟩ := List.exists_mem_of_ne_nil d hd.1
  obtain ⟨c, hc⟩ := List.exists_mem_of_ne_nil e he.1
  exact Or.inr ⟨⟨b, hb, hd.2 b hb⟩, c, hc, he.2 c hc⟩

/-- Whether the characters start with one that is no white space. -/
def startsInWord (gs : List Glyph) : Bool :=
  gs.head?.any fun g => !isSpace g.code

/-- Puts a text in front of words, as a part of the first if it touches it. -/
def addToWords (text : Bytes) (touching : Bool) : List Bytes → List Bytes
  | [] => [text]
  | word :: words => if touching then (text ++ word) :: words else text :: word :: words

theorem wordsOf_cons {g : Glyph} (hg : isSpace g.code = false) (gs : List Glyph) :
    wordsOf (g :: gs) = addToWords g.raw (startsInWord gs) (wordsOf gs) := by
  have hg : ¬ isSpace g.code = true := by rw [hg]; exact Bool.false_ne_true
  rw [wordsOf.eq_def]
  refine (if_neg hg).trans ?_
  cases gs with
  | nil => rfl
  | cons next gs =>
    by_cases hnext : isSpace next.code = true
    · simp only [hnext, startsInWord, List.head?_cons, Option.any_some, Bool.not_true, if_true]
      cases wordsOf (next :: gs) <;> rfl
    · simp only [hnext, startsInWord, List.head?_cons, Option.any_some]
      cases wordsOf (next :: gs) <;> rfl

theorem wordsOf_number {d : Bytes} (hd : IsNumber d) (gs : List Glyph) :
    wordsOf (d.map asciiGlyph ++ gs) = addToWords d (startsInWord gs) (wordsOf gs) := by
  have hspace : ∀ {b : UInt8}, isDigit b = true → isSpace (asciiGlyph b).code = false := by
    intro b hb
    apply not_isSpace_of_isWord
    rw [isWord, hb]
    simp
  obtain ⟨hne, hdigit⟩ := hd
  induction d with
  | nil => exact absurd rfl hne
  | cons b d ih =>
    obtain ⟨hb, hd⟩ := List.forall_mem_cons.1 hdigit
    rw [List.map_cons, List.cons_append, wordsOf_cons (hspace hb)]
    cases d with
    | nil => rfl
    | cons c d =>
      have hc := hspace (hd c List.mem_cons_self)
      have htouching : startsInWord ((c :: d).map asciiGlyph ++ gs) = true := by
        simp [startsInWord, hc]
      rw [ih (List.cons_ne_nil c d) hd, htouching]
      cases wordsOf gs with
      | nil => rfl
      | cons word words => cases startsInWord gs <;> rfl

theorem forall₂_addToWords {text text' : Bytes} (htext : SameOrNumbered text text')
    (touching : Bool) {ws vs : List Bytes} (h : List.Forall₂ SameOrNumbered ws vs) :
    List.Forall₂ SameOrNumbered (addToWords text touching ws) (addToWords text' touching vs) := by
  cases h with
  | nil => exact .cons htext .nil
  | cons hword hwords =>
    rw [addToWords, addToWords]
    split
    · exact .cons (htext.append hword) hwords
    · exact .cons htext (.cons hword hwords)

theorem GlyphsRenumbered.startsInWord {gs hs : List Glyph} (h : GlyphsRenumbered gs hs) :
    startsInWord gs = startsInWord hs := by
  have hnumber : ∀ {d : Bytes} {gs : List Glyph}, IsNumber d →
      SqlDialect.startsInWord (d.map asciiGlyph ++ gs) = true := by
    intro d gs hd
    obtain ⟨b, d, rfl⟩ := List.exists_cons_of_ne_nil hd.1
    have hb : isWord b = true := by
      rw [isWord, hd.2 b List.mem_cons_self]
      simp
    simp [SqlDialect.startsInWord, asciiGlyph, not_isSpace_of_isWord hb]
  cases h with
  | nil => rfl
  | cons g h => rfl
  | number hd he h => rw [hnumber hd, hnumber he]

/-- Characters that differ in numbers make words that are the same or numbered. -/
theorem GlyphsRenumbered.wordsOf {gs hs : List Glyph} (h : GlyphsRenumbered gs hs) :
    List.Forall₂ SameOrNumbered (wordsOf gs) (wordsOf hs) := by
  induction h with
  | nil => exact .nil
  | cons g h ih =>
    by_cases hg : isSpace g.code = true
    · have hskip : ∀ gs, Bytes.wordsOf (g :: gs) = Bytes.wordsOf gs := by
        intro gs
        rw [Bytes.wordsOf.eq_def]
        exact if_pos hg
      rw [hskip, hskip]
      exact ih
    · rw [Bool.not_eq_true] at hg
      rw [wordsOf_cons hg, wordsOf_cons hg, h.startsInWord]
      exact forall₂_addToWords (Or.inl rfl) _ ih
  | number hd he h ih =>
    rw [wordsOf_number hd, wordsOf_number he, h.startsInWord]
    exact forall₂_addToWords (sameOrNumbered_of_isNumber hd he) _ ih

/-! ## Kinds -/

/-- Digits stay when the letter case changes. -/
theorem SameOrNumbered.toUpper {w v : Bytes} (h : SameOrNumbered w v) :
    SameOrNumbered (toUpper w) (toUpper v) := by
  have hkept : ∀ {w : Bytes}, (∃ b ∈ w, isDigit b = true) → ∃ b ∈ Bytes.toUpper w, isDigit b = true := by
    rintro w ⟨b, hb, hdigit⟩
    refine ⟨b, List.mem_flatMap.2 ⟨_, Utf8.mem_glyphs_of_ascii (ascii_of_isDigit hdigit) hb, ?_⟩, hdigit⟩
    exact forall_isDigit (P := fun b => b ∈ Utf8.encode (upperCode b.toNat)) (by decide) hdigit
  rcases h with rfl | ⟨hw, hv⟩
  · exact Or.inl rfl
  · exact Or.inr ⟨hkept hw, hkept hv⟩

/-- A keyword without digits is told from a numbered word. -/
theorem SameOrNumbered.eq_iff {w v : Bytes} (h : SameOrNumbered w v) (keyword : Bytes)
    (hkey : ∀ b ∈ keyword, isDigit b = false) : w = keyword ↔ v = keyword := by
  have hne : ∀ {w : Bytes}, (∃ b ∈ w, isDigit b = true) → w ≠ keyword := by
    rintro w ⟨b, hb, hdigit⟩ rfl
    exact Bool.noConfusion (hdigit.symm.trans (hkey b hb))
  rcases h with rfl | ⟨hw, hv⟩
  · exact Iff.rfl
  · exact iff_of_false (hne hw) (hne hv)

/-- Numbered words announce no kind. -/
theorem Kind.ofWords_congr {ws vs : List Bytes} (h : List.Forall₂ SameOrNumbered ws vs) :
    Kind.ofWords ws = Kind.ofWords vs := by
  cases h with
  | nil => rfl
  | @cons w v ws vs hword hrest =>
    have hkey : ∀ s : String, (∀ b ∈ ascii s, isDigit b = false) → (w = ascii s ↔ v = ascii s) :=
      fun s hs => hword.eq_iff (ascii s) hs
    have hhead : ∀ s : String, (∀ b ∈ ascii s, isDigit b = false) →
        (ws.head? = some (ascii s) ↔ vs.head? = some (ascii s)) := by
      intro s hs
      cases hrest with
      | nil => exact Iff.rfl
      | cons h _ => simpa using h.eq_iff (ascii s) hs
    have htwo : ws.take 2 = [ascii "TEMPORARY", ascii "TABLE"] ↔
        vs.take 2 = [ascii "TEMPORARY", ascii "TABLE"] := by
      cases hrest with
      | nil => exact Iff.rfl
      | cons h hrest =>
        cases hrest with
        | nil => simp
        | cons h' _ => simp [h.eq_iff (ascii "TEMPORARY") (by decide),
            h'.eq_iff (ascii "TABLE") (by decide)]
    simp only [Kind.ofWords, hkey "SELECT" (by decide), hkey "(SELECT" (by decide),
      hkey "INSERT" (by decide), hkey "REPLACE" (by decide), hkey "UPDATE" (by decide),
      hkey "DELETE" (by decide), hkey "CREATE" (by decide), hkey "ALTER" (by decide),
      hhead "TABLE" (by decide), htwo]

/-- Texts that differ in numbers are of the same kind. -/
theorem Renumbered.ofShielded {s t : Bytes} (h : Renumbered s t) :
    Kind.ofShielded s = Kind.ofShielded t := by
  have hwords : List.Forall₂ SameOrNumbered (words (SqlDialect.skipLeadingComments s))
      (words (SqlDialect.skipLeadingComments t)) :=
    h.skipLeadingComments.glyphs.wordsOf
  have hfirst := List.forall₂_take 3 hwords
  refine Kind.ofWords_congr ?_
  rw [List.forall₂_map_left_iff, List.forall₂_map_right_iff]
  exact hfirst.imp fun _ _ => SameOrNumbered.toUpper

end SqlDialect
