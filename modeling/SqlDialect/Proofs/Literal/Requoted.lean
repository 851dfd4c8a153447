import SqlDialect.Proofs.Conversion.Literals
import SqlDialect.Proofs.Identifier.Reading

set_option autoImplicit false

/-! # The value of a literal that changes its quotes

A literal between double quotes that stands behind a matching operator is put between single quotes.
The result is always one single-quoted literal for PostgreSQL, in which a doubled quote stands for
one and a backslash for itself.

Its value should be the body with escaped and doubled double quotes decoded from left to right
(`unescaped`). The body is decoded by two replacements over the whole text, one for `\"` and one for
`""`, so that what the first has written can be taken for a doubled quote by the second, and the
second half of an escaped backslash for an escape by the first. `QuotesApart` says where neither
happens, and the value is the decoded body exactly there. -/

namespace SqlDialect

open Bytes

/-! ## Closed literals -/

/-- What can stand between two quotes `q`: escaped bytes, doubled quotes and all other bytes. -/
inductive Enclosed (q : UInt8) : Bytes → Prop where
  | nil : Enclosed q []
  | escaped (c : UInt8) {s : Bytes} (h : Enclosed q s) : Enclosed q (backslash :: c :: s)
  | doubled {s : Bytes} (h : Enclosed q s) : Enclosed q (q :: q :: s)
  | plain {b : UInt8} {s : Bytes} (hquote : b ≠ q) (hslash : b ≠ backslash) (h : Enclosed q s) :
      Enclosed q (b :: s)

/-- The literal is closed: behind its opening quote the scan ends where the literal does, whatever
follows it but another such quote. -/
def Literal.Closed (l : Literal) : Prop :=
  ∃ inner, l.text = l.quote :: inner ∧
    ∀ rest, rest.head? ≠ some l.quote → closeQuote l.quote (inner ++ rest) = (inner, rest)

section

variable {q : UInt8}

theorem closeQuote_cons_plain {b : UInt8} (hquote : b ≠ q) (hslash : b ≠ backslash) {s : Bytes}
    (hs : s ≠ []) : closeQuote q (b :: s) = (closeQuote q s).map (b :: ·) id := by
  obtain ⟨c, s, rfl⟩ := List.exists_cons_of_ne_nil hs
  simp only [closeQuote, if_neg hquote, if_neg hslash]

/-- The scan stops behind the quote that closes a text. -/
theorem closeQuote_enclosed (hq : q ≠ backslash) {body rest : Bytes} (h : Enclosed q body)
    (hrest : rest.head? ≠ some q) : closeQuote q (body ++ q :: rest) = (body ++ [q], rest) := by
  induction h with
  | nil =>
    cases rest with
    | nil => rfl
    | cons c rest =>
      have hc : c ≠ q := by
        rintro rfl
        exact hrest rfl
      simp [closeQuote, hq, hc]
  | escaped c _ ih => simp [closeQuote, ih, Prod.map]
  | doubled _ ih => simp [closeQuote, hq, ih, Prod.map]
  | plain hquote hslash _ ih =>
    rw [List.cons_append, closeQuote_cons_plain hquote hslash (by simp), ih]
    rfl

/-- Where something is left of the text, the scan has found a closing quote. -/
theorem exists_enclosed_of_closeQuote {s inner rest : Bytes} {x : UInt8}
    (h : closeQuote q s = (inner, x :: rest)) : ∃ body, inner = body ++ [q] ∧ Enclosed q body := by
  fun_induction closeQuote q s generalizing inner with
  | case1 => simp at h
  | case2 => simp at h
  | case3 c s ih =>
    simp only [Prod.map, id_eq, Prod.mk.injEq] at h
    obtain ⟨body, hbody, hin⟩ := ih (Prod.ext rfl h.2)
    rw [← h.1]
    exact ⟨backslash :: c :: body, congrArg (backslash :: c :: ·) hbody, .escaped c hin⟩
  | case4 s _ ih =>
    simp only [Prod.map, id_eq, Prod.mk.injEq] at h
    obtain ⟨body, hbody, hin⟩ := ih (Prod.ext rfl h.2)
    rw [← h.1]
    exact ⟨q :: q :: body, congrArg (q :: q :: ·) hbody, .doubled hin⟩
  | case5 c s _ hc =>
    simp only [Prod.mk.injEq] at h
    exact ⟨[], h.1.symm, .nil⟩
  | case6 b c s hslash hquote ih =>
    simp only [Prod.map, id_eq, Prod.mk.injEq] at h
    obtain ⟨body, hbody, hin⟩ := ih (Prod.ext rfl h.2)
    rw [← h.1]
    exact ⟨b :: body, congrArg (b :: ·) hbody, .plain hquote hslash hin⟩

end

/-- A literal is closed if and only if it is made of two quotes and what can stand between them. -/
theorem Literal.closed_iff {l : Literal} (hq : l.quote ≠ backslash) :
    l.Closed ↔ ∃ body, l.text = l.quote :: (body ++ [l.quote]) ∧ Enclosed l.quote body := by
  constructor
  · rintro ⟨inner, htext, hscan⟩
    -- a byte other than the quote shows that the scan stops by itself
    obtain ⟨x, hx⟩ : ∃ x : UInt8, x ≠ l.quote := by
      by_cases h : l.quote = 0
      · exact ⟨1, by rw [h]; decide⟩
      · exact ⟨0, fun h0 => h h0.symm⟩
    obtain ⟨body, hbody, hin⟩ :=
      exists_enclosed_of_closeQuote (hscan [x] (by simpa using hx))
    exact ⟨body, by rw [htext, hbody], hin⟩
  · rintro ⟨body, htext, hin⟩
    refine ⟨_, htext, fun rest hrest => ?_⟩
    rw [List.append_assoc, List.singleton_append]
    exact closeQuote_enclosed hq hin hrest

theorem Literal.body_of_text {l : Literal} {body : Bytes}
    (h : l.text = l.quote :: (body ++ [l.quote])) : l.body = body := by
  have hlast : (l.quote :: (body ++ [l.quote])).getLast? = some l.quote := by
    rw [← List.cons_append, List.getLast?_concat]
  rw [Literal.body, h, hlast]
  simp

/-! ## Reading a single-quoted literal -/

/-- The value of the text up to the single quote that closes it, where a doubled quote stands for one
and every other byte for itself, and what follows the quote; none if nothing closes the text. -/
def readValue : Bytes → Option (Bytes × Bytes)
  | [] => none
  | [b] => if b = singleQuote then some ([], []) else none
  | b :: c :: s =>
    if b = singleQuote then
      if c = singleQuote then (readValue s).map (Prod.map (singleQuote :: ·) id)
      else some ([], c :: s)
    else (readValue (c :: s)).map (Prod.map (b :: ·) id)

/-- The value of the single-quoted literal that starts the text, and what follows it. -/
def readLiteral? : Bytes → Option (Bytes × Bytes)
  | [] => none
  | b :: s => if b = singleQuote then readValue s else none

theorem readValue_eq (s : Bytes) : readValue s = readQuoted? singleQuote s := by
  fun_induction readValue s <;> simp [readQuoted?, *]

/-- A text whose single quotes are doubled is read as it was. -/
theorem readValue_doubled (v : Bytes) {rest : Bytes} (hrest : rest.head? ≠ some singleQuote) :
    readValue (replaceAll [singleQuote] [singleQuote, singleQuote] v ++ singleQuote :: rest)
      = some (v, rest) := by
  rw [readValue_eq]
  exact readQuoted?_replaceAll v hrest

/-! ## Decoding a double-quoted body -/

/-- The body with each escaped and each doubled double quote as one, from left to right. Every other
byte stays, and so does a backslash with the byte that it escapes. -/
def unescaped : Bytes → Bytes
  | b :: c :: s =>
    if b = backslash then
      if c = doubleQuote then doubleQuote :: unescaped s else b :: c :: unescaped s
    else if b = doubleQuote ∧ c = doubleQuote then doubleQuote :: unescaped s
    else b :: unescaped (c :: s)
  | s => s

/-- What the part of a body in front of a place ends in, as far as the replacements could take it
together with a double quote behind the place. -/
inductive Behind where
  /-- An escaped backslash. -/
  | slashes
  /-- An escaped double quote, and possibly doubled ones behind it. -/
  | escape
  /-- Anything else. -/
  | other
deriving DecidableEq

/-- No escaped backslash stands directly in front of a doubled quote, and no two escaped quotes stand
next to each other or with nothing but doubled quotes between them. -/
def quotesApart : Behind → Bytes → Bool
  | p, b :: c :: s =>
    if b = backslash then
      if c = doubleQuote then p != .escape && quotesApart .escape s
      else quotesApart (if c = backslash then .slashes else .other) s
    else if b = doubleQuote ∧ c = doubleQuote then p != .slashes && quotesApart p s
    else quotesApart .other (c :: s)
  | _, _ => true

/-- Each double quote of the body is decoded by itself. -/
def QuotesApart (body : Bytes) : Prop :=
  quotesApart .other body = true

instance (body : Bytes) : Decidable (QuotesApart body) :=
  inferInstanceAs (Decidable (_ = true))

theorem unescaped_cons {b : UInt8} (hslash : b ≠ backslash) (hquote : b ≠ doubleQuote) (s : Bytes) :
    unescaped (b :: s) = b :: unescaped s := by
  cases s with
  | nil => simp [unescaped]
  | cons c s => simp [unescaped, hslash, hquote]

theorem quotesApart_cons {b : UInt8} (hslash : b ≠ backslash) (hquote : b ≠ doubleQuote) (p : Behind)
    (s : Bytes) : quotesApart p (b :: s) = quotesApart .other s := by
  cases s with
  | nil => simp [quotesApart]
  | cons c s => simp [quotesApart, hslash, hquote]

/-! ### The two replacements -/

/-- The text with its escaped double quotes replaced. -/
def withoutEscapes (s : Bytes) : Bytes :=
  replaceAll [backslash, doubleQuote] [doubleQuote] s

/-- The text with its doubled double quotes replaced. -/
def withoutDoubled (s : Bytes) : Bytes :=
  replaceAll [doubleQuote, doubleQuote] [doubleQuote] s

@[simp]
theorem withoutEscapes_nil : withoutEscapes [] = [] :=
  rfl

@[simp]
theorem withoutEscapes_escape (s : Bytes) :
    withoutEscapes (backslash :: doubleQuote :: s) = doubleQuote :: withoutEscapes s := by
  simp [withoutEscapes, replaceAll, replaceFrom, startsWith, dropLead?]

theorem withoutEscapes_cons_of_ne {b : UInt8} (hb : b ≠ backslash) (s : Bytes) :
    withoutEscapes (b :: s) = b :: withoutEscapes s := by
  simp [withoutEscapes, replaceAll, replaceFrom, startsWith, dropLead?, Ne.symm hb]

theorem withoutEscapes_slash {s : Bytes} (hs : s.head? ≠ some doubleQuote) :
    withoutEscapes (backslash :: s) = backslash :: withoutEscapes s := by
  cases s with
  | nil => rfl
  | cons c s =>
    have hc : doubleQuote ≠ c := by
      rintro rfl
      exact hs rfl
    simp [withoutEscapes, replaceAll, replaceFrom, startsWith, dropLead?, hc]

@[simp]
theorem withoutDoubled_doubled (s : Bytes) :
    withoutDoubled (doubleQuote :: doubleQuote :: s) = doubleQuote :: withoutDoubled s := by
  simp [withoutDoubled, replaceAll, replaceFrom, startsWith, dropLead?]

theorem withoutDoubled_cons_of_ne {b : UInt8} (hb : b ≠ doubleQuote) (s : Bytes) :
    withoutDoubled (b :: s) = b :: withoutDoubled s := by
  simp [withoutDoubled, replaceAll, replaceFrom, startsWith, dropLead?, Ne.symm hb]

theorem withoutDoubled_quote {s : Bytes} (hs : s.head? ≠ some doubleQuote) :
    withoutDoubled (doubleQuote :: s) = doubleQuote :: withoutDoubled s := by
  cases s with
  | nil => rfl
  | cons c s =>
    have hc : doubleQuote ≠ c := by
      rintro rfl
      exact hs rfl
    simp [withoutDoubled, replaceAll, replaceFrom, startsWith, dropLead?, hc]

/-- What the two replacements make of a body. -/
def decodedTwice (s : Bytes) : Bytes :=
  withoutDoubled (withoutEscapes s)

/-- What the two replacements make of a body behind an escaped quote. -/
def decodedBehindEscape (s : Bytes) : Bytes :=
  withoutDoubled (doubleQuote :: withoutEscapes s)

/-- Behind anything that is written as no quote, an escaped quote stays alone. -/
theorem decodedBehindEscape_eq {s : Bytes} (hs : (withoutEscapes s).head? ≠ some doubleQuote) :
    decodedBehindEscape s = doubleQuote :: decodedTwice s :=
  withoutDoubled_quote hs

theorem Enclosed.doubled_of_head {s : Bytes} (h : Enclosed doubleQuote s)
    (hhead : s.head? = some doubleQuote) :
    ∃ s', s = doubleQuote :: doubleQuote :: s' ∧ Enclosed doubleQuote s' := by
  cases h with
  | nil => simp at hhead
  | escaped c => exact absurd hhead (by simp [backslash, doubleQuote])
  | doubled h => exact ⟨_, rfl, h⟩
  | plain hquote => exact absurd (Option.some.inj hhead) hquote

theorem quotesApart_of_head {s : Bytes} (hs : s.head? ≠ some doubleQuote) :
    quotesApart .slashes s = quotesApart .other s := by
  match s with
  | [] => rfl
  | [b] => rfl
  | b :: c :: s =>
    have hb : b ≠ doubleQuote := by
      rintro rfl
      exact hs rfl
    have hother : (Behind.slashes != Behind.escape) = (Behind.other != Behind.escape) := rfl
    simp only [quotesApart, hb, false_and, if_false, hother]

/-- The two replacements decode a body exactly where its quotes stand apart, and never make it longer
than its decoded form; and so they do behind an escaped quote. -/
structure DecodesApart (s : Bytes) : Prop where
  eq_iff : decodedTwice s = unescaped s ↔ quotesApart .other s = true
  behind_eq_iff :
    decodedBehindEscape s = doubleQuote :: unescaped s ↔ quotesApart .escape s = true
  length_le : (decodedTwice s).length ≤ (unescaped s).length
  length_behind_le : (decodedBehindEscape s).length ≤ (unescaped s).length + 1

namespace DecodesApart

variable {s : Bytes}

/-- Behind an escape only another quote makes a difference. -/
theorem of_head (hhead : (withoutEscapes s).head? ≠ some doubleQuote)
    (hsame : quotesApart .escape s = quotesApart .other s)
    (hiff : decodedTwice s = unescaped s ↔ quotesApart .other s = true)
    (hlen : (decodedTwice s).length ≤ (unescaped s).length) : DecodesApart s := by
  refine ⟨hiff, ?_, hlen, ?_⟩
  · rw [decodedBehindEscape_eq hhead, hsame]
    simpa using hiff
  · rw [decodedBehindEscape_eq hhead]
    simpa using hlen

/-- Bytes that both ways of decoding keep change nothing. -/
theorem kept (h : DecodesApart s) {s' t : Bytes} (htwice : decodedTwice s' = t ++ decodedTwice s)
    (hunescaped : unescaped s' = t ++ unescaped s)
    (hhead : (withoutEscapes s').head? ≠ some doubleQuote)
    (happart : ∀ p, p ≠ .slashes → quotesApart p s' = quotesApart .other s) : DecodesApart s' := by
  refine of_head hhead ?_ ?_ ?_
  · rw [happart _ (by decide), happart _ (by decide)]
  · rw [htwice, hunescaped, happart _ (by decide), List.append_cancel_left_eq]
    exact h.eq_iff
  · rw [htwice, hunescaped, List.length_append, List.length_append]
    exact Nat.add_le_add_left h.length_le _

theorem nil : DecodesApart [] :=
  of_head (by simp) rfl ⟨fun _ => rfl, fun _ => rfl⟩ (Nat.le_refl _)

theorem plain {b : UInt8} (hquote : b ≠ doubleQuote) (hslash : b ≠ backslash)
    (h : DecodesApart s) : DecodesApart (b :: s) := by
  have hfirst := withoutEscapes_cons_of_ne hslash s
  refine h.kept (t := [b]) ?_ (unescaped_cons hslash hquote s) ?_ fun p _ =>
    quotesApart_cons hslash hquote p s
  · rw [decodedTwice, hfirst, withoutDoubled_cons_of_ne hquote]
    rfl
  · simpa [hfirst] using hquote

/-- A doubled quote is decoded by the second replacement, also behind an escaped quote. -/
theorem doubled (h : DecodesApart s) : DecodesApart (doubleQuote :: doubleQuote :: s) := by
  have hfirst : withoutEscapes (doubleQuote :: doubleQuote :: s)
      = doubleQuote :: doubleQuote :: withoutEscapes s := by
    rw [withoutEscapes_cons_of_ne (by decide), withoutEscapes_cons_of_ne (by decide)]
  have htwice : decodedTwice (doubleQuote :: doubleQuote :: s) = doubleQuote :: decodedTwice s := by
    rw [decodedTwice, hfirst, withoutDoubled_doubled, decodedTwice]
  have hbehind : decodedBehindEscape (doubleQuote :: doubleQuote :: s)
      = doubleQuote :: decodedBehindEscape s := by
    rw [decodedBehindEscape, hfirst, withoutDoubled_doubled, decodedBehindEscape]
  have hunescaped : unescaped (doubleQuote :: doubleQuote :: s) = doubleQuote :: unescaped s := by
    simp [unescaped, doubleQuote, backslash]
  have happart : ∀ p, p ≠ .slashes →
      quotesApart p (doubleQuote :: doubleQuote :: s) = quotesApart p s := by
    intro p hp
    have hne : (p != .slashes) = true := by simpa using hp
    simp [quotesApart, hne, doubleQuote, backslash]
  refine ⟨?_, ?_, ?_, ?_⟩
  · simpa [htwice, hunescaped, happart .other (by decide)] using h.eq_iff
  · simpa [hbehind, hunescaped, happart .escape (by decide)] using h.behind_eq_iff
  · simpa [htwice, hunescaped] using h.length_le
  · simpa [hbehind, hunescaped] using h.length_behind_le

/-- Of two escaped quotes the first replacement makes a doubled one, which the second takes for
one. -/
theorem escape (h : DecodesApart s) : DecodesApart (backslash :: doubleQuote :: s) := by
  have htwice : decodedTwice (backslash :: doubleQuote :: s) = decodedBehindEscape s := by
    rw [decodedTwice, withoutEscapes_escape, decodedBehindEscape]
  have hbehind : decodedBehindEscape (backslash :: doubleQuote :: s)
      = doubleQuote :: decodedTwice s := by
    rw [decodedBehindEscape, withoutEscapes_escape, withoutDoubled_doubled, decodedTwice]
  have hunescaped : unescaped (backslash :: doubleQuote :: s) = doubleQuote :: unescaped s := by
    simp [unescaped]
  have hlost : decodedTwice s ≠ doubleQuote :: unescaped s := by
    intro heq
    have hlen := h.length_le
    rw [heq, List.length_cons] at hlen
    omega
  refine ⟨?_, ?_, ?_, ?_⟩
  · simpa [htwice, hunescaped, quotesApart] using h.behind_eq_iff
  · simpa [hbehind, hunescaped, quotesApart] using hlost
  · simpa [htwice, hunescaped] using h.length_behind_le
  · have hlen := h.length_le
    rw [hbehind, hunescaped, List.length_cons, List.length_cons]
    omega

theorem pair {c : UInt8} (hquote : c ≠ doubleQuote) (hslash : c ≠ backslash)
    (h : DecodesApart s) : DecodesApart (backslash :: c :: s) := by
  have hfirst : withoutEscapes (backslash :: c :: s) = backslash :: c :: withoutEscapes s := by
    rw [withoutEscapes_slash (by simpa using hquote), withoutEscapes_cons_of_ne hslash]
  refine h.kept (t := [backslash, c]) ?_ ?_ ?_ fun p _ => ?_
  · rw [decodedTwice, hfirst, withoutDoubled_cons_of_ne (by decide),
      withoutDoubled_cons_of_ne hquote]
    rfl
  · simp [unescaped, hquote]
  · rw [hfirst]
    simp [backslash, doubleQuote]
  · simp [quotesApart, hquote, hslash]

/-- In front of a doubled quote the second half of an escaped backslash is taken for an escape. -/
theorem slashes (h : DecodesApart s) (hin : Enclosed doubleQuote s) :
    DecodesApart (backslash :: backslash :: s) := by
  have hunescaped : unescaped (backslash :: backslash :: s)
      = backslash :: backslash :: unescaped s := by
    simp [unescaped, backslash, doubleQuote]
  have happart : ∀ p, quotesApart p (backslash :: backslash :: s) = quotesApart .slashes s := by
    intro p
    simp [quotesApart, backslash, doubleQuote]
  have hfirst : withoutEscapes (backslash :: backslash :: s)
      = backslash :: withoutEscapes (backslash :: s) :=
    withoutEscapes_slash (by simp [backslash, doubleQuote])
  by_cases hhead : s.head? = some doubleQuote
  · obtain ⟨s, rfl, -⟩ := hin.doubled_of_head hhead
    have hescape : withoutEscapes (backslash :: doubleQuote :: doubleQuote :: s)
        = withoutEscapes (doubleQuote :: doubleQuote :: s) := by
      rw [withoutEscapes_escape, withoutEscapes_cons_of_ne (by decide),
        withoutEscapes_cons_of_ne (by decide), withoutEscapes_cons_of_ne (by decide)]
    have htwice : decodedTwice (backslash :: backslash :: doubleQuote :: doubleQuote :: s)
        = backslash :: decodedTwice (doubleQuote :: doubleQuote :: s) := by
      rw [decodedTwice, hfirst, hescape, withoutDoubled_cons_of_ne (by decide), decodedTwice]
    have hlen := h.length_le
    refine of_head ?_ (by rw [happart, happart]) ?_ ?_
    · rw [hfirst]
      simp [backslash, doubleQuote]
    · have hnot : quotesApart .slashes (doubleQuote :: doubleQuote :: s) = false := by
        simp [quotesApart, backslash, doubleQuote]
      rw [happart, hnot, htwice, hunescaped]
      simp only [Bool.false_eq_true, iff_false]
      intro heq
      rw [(List.cons.inj heq).2, List.length_cons] at hlen
      omega
    · rw [htwice, hunescaped, List.length_cons, List.length_cons, List.length_cons]
      omega
  · have hsecond := withoutEscapes_slash hhead
    refine h.kept (t := [backslash, backslash]) ?_ hunescaped ?_ fun p _ => ?_
    · rw [decodedTwice, hfirst, hsecond, withoutDoubled_cons_of_ne (by decide),
        withoutDoubled_cons_of_ne (by decide)]
      rfl
    · rw [hfirst]
      simp [backslash, doubleQuote]
    · rw [happart, quotesApart_of_head hhead]

end DecodesApart

theorem decodesApart_of_enclosed {s : Bytes} (h : Enclosed doubleQuote s) : DecodesApart s := by
  induction h with
  | nil => exact .nil
  | escaped c hin ih =>
    by_cases hquote : c = doubleQuote
    · subst hquote
      exact ih.escape
    · by_cases hslash : c = backslash
      · subst hslash
        exact ih.slashes hin
      · exact ih.pair hquote hslash
  | doubled _ ih => exact ih.doubled
  | plain hquote hslash _ ih => exact ih.plain hquote hslash

/-! ## Behind a matching operator -/

theorem readLiteral?_toSingleQuoted (l : Literal) {rest : Bytes}
    (hrest : rest.head? ≠ some singleQuote) :
    readLiteral? (l.toSingleQuoted.text ++ rest) = some (decodedTwice l.body, rest) := by
  have hread := readValue_doubled (decodedTwice l.body) hrest
  simp only [Literal.toSingleQuoted, readLiteral?, List.cons_append, List.append_assoc, if_true]
  exact hread

theorem LiteralTable.lookup?_singleQuote {t : LiteralTable} {token : Bytes} {l : Literal}
    (hl : t.lookup? token = some l) (hquote : l.quote = doubleQuote) :
    (t.singleQuote token).lookup? token = some l.toSingleQuoted := by
  obtain ⟨n, hn, hget⟩ := Option.bind_eq_some_iff.1 hl
  rw [LiteralTable.singleQuote_eq_mapIdx, LiteralTable.lookup?, hn, Option.bind_some,
    List.getElem?_mapIdx, hget]
  simp [Literal.unDoubled, hquote]

/-- **A literal that changes its quotes.** Whatever closed double-quoted literal stands behind
a token, the table has one single-quoted literal there afterwards, whatever follows it in the text,
and its value is the old body with each escaped and each doubled double quote as one if and only if
the body's quotes stand apart. No other literal changes. -/
theorem LiteralTable.singleQuote_value (t : LiteralTable) (token : Bytes) (l : Literal)
    (hl : t.lookup? token = some l) (hquote : l.quote = doubleQuote) (hclosed : l.Closed) :
    ∃ text value, (t.singleQuote token).lookup? token = some ⟨SqlDialect.singleQuote, text⟩ ∧
      (∀ rest, rest.head? ≠ some SqlDialect.singleQuote →
        readLiteral? (text ++ rest) = some (value, rest)) ∧
      (value = unescaped l.body ↔ QuotesApart l.body) ∧
      ∀ other, placeholderIndex? other ≠ placeholderIndex? token →
        (t.singleQuote token).lookup? other = t.lookup? other := by
  refine ⟨l.toSingleQuoted.text, decodedTwice l.body, lookup?_singleQuote hl hquote,
    fun rest => readLiteral?_toSingleQuoted l, ?_, fun other hother => ?_⟩
  · obtain ⟨body, htext, hin⟩ := (Literal.closed_iff (by rw [hquote]; decide)).1 hclosed
    rw [hquote] at hin
    rw [Literal.body_of_text htext]
    exact (decodesApart_of_enclosed hin).eq_iff
  · cases hn : placeholderIndex? other with
    | none => simp [LiteralTable.lookup?, hn]
    | some n =>
      rw [hn] at hother
      simp [LiteralTable.singleQuote_eq_mapIdx, LiteralTable.lookup?, hn, List.getElem?_mapIdx,
        Ne.symm hother]

/-- Escaped quotes and doubled quotes beside each other, with a single quote and an escaped backslash
in between. -/
theorem LiteralTable.singleQuote_value_mixed :
    ∃ l : Literal, l.text = ascii "\"\\\"\"\"it's\\\\\\\"\"" ∧
      LiteralTable.lookup? [l] (placeholder 0) = some l ∧ l.quote = doubleQuote ∧ l.Closed ∧
      ∃ text value, (LiteralTable.singleQuote [l] (placeholder 0)).lookup? (placeholder 0)
          = some ⟨SqlDialect.singleQuote, text⟩ ∧
        (∀ rest, rest.head? ≠ some SqlDialect.singleQuote →
          readLiteral? (text ++ rest) = some (value, rest)) ∧
        (value = unescaped l.body ↔ QuotesApart l.body) ∧
        ∀ other, placeholderIndex? other ≠ placeholderIndex? (placeholder 0) →
          (LiteralTable.singleQuote [l] (placeholder 0)).lookup? other
            = LiteralTable.lookup? [l] other := by
  have hclosed : Literal.Closed ⟨doubleQuote, ascii "\"\\\"\"\"it's\\\\\\\"\""⟩ := by
    refine (Literal.closed_iff (by decide)).2 ⟨ascii "\\\"\"\"it's\\\\\\\"", by decide, ?_⟩
    refine .escaped _ (.doubled (.plain (by decide) (by decide) (.plain (by decide) (by decide) ?_)))
    exact .plain (by decide) (by decide) (.plain (by decide) (by decide) (.escaped _ (.escaped _ .nil)))
  exact ⟨⟨doubleQuote, ascii "\"\\\"\"\"it's\\\\\\\"\""⟩, rfl, by decide, rfl, hclosed,
    LiteralTable.singleQuote_value [_] (placeholder 0) _ (by decide) rfl hclosed⟩

/-- Two escaped quotes next to each other become one: `"x\"\"y"` is written as `'x"y'`, whose value
lacks a quote. -/
theorem singleQuote_loses_quote :
    ∃ l : Literal, l.text = ascii "\"x\\\"\\\"y\"" ∧ l.quote = doubleQuote ∧ l.Closed ∧
      ((LiteralTable.singleQuote [l] (placeholder 0)).lookup? (placeholder 0)).map Literal.text
        = some (ascii "'x\"y'") ∧
      readLiteral? (ascii "'x\"y'") = some (ascii "x\"y", []) ∧
      unescaped l.body = ascii "x\"\"y" := by
  refine ⟨⟨doubleQuote, ascii "\"x\\\"\\\"y\""⟩, rfl, rfl, ?_, by decide, by decide, by decide⟩
  refine (Literal.closed_iff (by decide)).2 ⟨ascii "x\\\"\\\"y", by decide, ?_⟩
  exact .plain (by decide) (by decide) (.escaped _ (.escaped _ (.plain (by decide) (by decide) .nil)))

end SqlDialect
