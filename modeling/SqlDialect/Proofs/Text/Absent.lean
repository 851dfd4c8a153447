import Mathlib.Data.List.Infix
import SqlDialect.Proofs.Literal.Stray
import SqlDialect.Proofs.Pattern.Phrase

set_option autoImplicit false

/-! # Words that stand nowhere in a text

The rules write fixed words into a text and move its parts. Whether a certain word then stands in the
result by itself depends on the joints: a word may be cut out of a longer one, or be put together from
two parts. `Sought` says what is looked for: a word, possibly behind a second one, where placeholders
of literals end a word as well. `Absent` says that it stands nowhere. A text in which it is absent may
be cut at the edges of words (`Absent.left`, `Absent.right`), and a fixed text may be put between two
such texts if no part of what is looked for starts or ends in it (`Neutral`, `Absent.insert`). -/

namespace SqlDialect

open Bytes

/-- A word that is looked for, alone or behind another word. -/
structure Sought where
  /-- The word in lower case. -/
  word : Bytes
  /-- The word in lower case that has to stand in front of it, with blanks between, if there is one. -/
  lead : Option Bytes := none
  /-- Whether the placeholder of a literal ends a word. -/
  tokens : Bool := false
  isWord_word : IsWord word
  isWord_lead : ∀ l ∈ lead, IsWord l

/-! ## Edges -/

/-- The text reads as the placeholder of a literal. -/
def IsToken (t : Bytes) : Prop :=
  ∃ ds : Bytes, ds ≠ [] ∧ (∀ b ∈ ds, isDigit b = true) ∧ t = marker ++ ds ++ markerEnd

/-- A word may start behind this text: it ends in no word byte or, if these count, in a placeholder. -/
def EdgeLeft (tokens : Bool) (a : Bytes) : Prop :=
  a.getLast?.any isWord = false ∨ tokens = true ∧ ∃ t, IsToken t ∧ t <:+ a

/-- A word may end in front of this text. -/
def EdgeRight (tokens : Bool) (b : Bytes) : Prop :=
  b.head?.any isWord = false ∨ tokens = true ∧ ∃ t, IsToken t ∧ t <+: b

/-- No placeholder starts in `u` and ends in `v`. -/
def Whole (tokens : Bool) (u v : Bytes) : Prop :=
  tokens = true → ∀ t₁ t₂, IsToken (t₁ ++ t₂) → t₁ ≠ [] → t₂ ≠ [] → t₁ <:+ u → ¬ t₂ <+: v

/-- A byte of a placeholder. -/
def TokenByte (x : UInt8) : Prop :=
  x ∈ marker ++ markerEnd ∨ isDigit x = true

instance (x : UInt8) : Decidable (TokenByte x) :=
  inferInstanceAs (Decidable (_ ∨ _))

theorem isWord_of_tokenByte {x : UInt8} (h : TokenByte x) : isWord x = true := by
  have hfixed : ∀ x ∈ marker ++ markerEnd, isWord x = true := by decide
  exact h.elim (hfixed x) isWord_of_isDigit

namespace IsToken

variable {t : Bytes} (h : IsToken t)

include h

theorem tokenByte {x : UInt8} (hx : x ∈ t) : TokenByte x := by
  obtain ⟨ds, -, hds, rfl⟩ := h
  rw [List.mem_append, List.mem_append] at hx
  rcases hx with (hx | hx) | hx
  · exact Or.inl (List.mem_append_left _ hx)
  · exact Or.inr (hds x hx)
  · exact Or.inl (List.mem_append_right _ hx)

theorem head? : t.head? = some 95 := by
  obtain ⟨ds, -, -, rfl⟩ := h
  rfl

theorem marked : marker <:+: t := by
  obtain ⟨ds, -, -, rfl⟩ := h
  exact ⟨[], ds ++ markerEnd, by rw [List.nil_append, List.append_assoc]⟩

end IsToken

section

variable {n : Bool} {u v a b : Bytes}

theorem edgeLeft_nil : EdgeLeft n [] :=
  Or.inl rfl

theorem edgeRight_nil : EdgeRight n [] :=
  Or.inl rfl

theorem EdgeLeft.append (h : EdgeLeft n a) (hu : a = [] → EdgeLeft n u) : EdgeLeft n (u ++ a) := by
  by_cases ha : a = []
  · subst ha
    simpa using hu rfl
  · rcases h with hlast | ⟨hn, t, ht, hsuffix⟩
    · refine Or.inl ?_
      rwa [Pattern.getLast?_append_of_ne_nil _ ha]
    · exact Or.inr ⟨hn, t, ht, hsuffix.trans (List.suffix_append u a)⟩

theorem EdgeRight.append (h : EdgeRight n b) (hv : b = [] → EdgeRight n v) :
    EdgeRight n (b ++ v) := by
  by_cases hb : b = []
  · subst hb
    simpa using hv rfl
  · rcases h with hhead | ⟨hn, t, ht, hprefix⟩
    · refine Or.inl ?_
      rwa [head?_append_left hb]
    · exact Or.inr ⟨hn, t, ht, hprefix.trans (List.prefix_append b v)⟩

theorem EdgeLeft.of_append (h : EdgeLeft n (u ++ a)) (hwhole : Whole n u v) (ha : a <+: v) :
    EdgeLeft n a := by
  by_cases hnil : a = []
  · subst hnil
    exact edgeLeft_nil
  rcases h with hlast | ⟨hn, t, ht, c, hc⟩
  · refine Or.inl ?_
    rwa [Pattern.getLast?_append_of_ne_nil _ hnil] at hlast
  · rcases List.append_eq_append_iff.1 hc with ⟨d, rfl, rfl⟩ | ⟨d, rfl, rfl⟩
    · by_cases hdnil : d = []
      · subst hdnil
        exact Or.inr ⟨hn, a, ht, List.suffix_refl a⟩
      · exact absurd ha (hwhole hn d a ht hdnil hnil ⟨c, rfl⟩)
    · exact Or.inr ⟨hn, t, ht, d, rfl⟩

theorem EdgeRight.of_append (h : EdgeRight n (b ++ v)) (hwhole : Whole n u v) (hb : b <:+ u) :
    EdgeRight n b := by
  by_cases hnil : b = []
  · subst hnil
    exact edgeRight_nil
  rcases h with hhead | ⟨hn, t, ht, c, hc⟩
  · refine Or.inl ?_
    rwa [head?_append_left hnil] at hhead
  · rcases List.append_eq_append_iff.1 hc with ⟨d, rfl, -⟩ | ⟨d, rfl, rfl⟩
    · exact Or.inr ⟨hn, t, ht, List.prefix_append t d⟩
    · by_cases hdnil : d = []
      · subst hdnil
        exact Or.inr ⟨hn, b, by simpa using ht, List.prefix_refl b⟩
      · exact absurd ⟨c, rfl⟩ (hwhole hn b d ht hnil hdnil hb)

theorem whole_of_head (u : Bytes) (h : ∀ x ∈ v.head?, ¬ TokenByte x) : Whole n u v := by
  intro _ t₁ t₂ htoken _ hne _ ⟨c, hc⟩
  obtain ⟨x, t, rfl⟩ := List.exists_cons_of_ne_nil hne
  refine h x ?_ (htoken.tokenByte (by simp))
  rw [← hc]
  rfl

theorem whole_of_last (h : u.getLast?.any isWord = false) (v : Bytes) : Whole n u v := by
  intro _ t₁ t₂ htoken hne _ ⟨c, hc⟩ _
  obtain ⟨x, hx⟩ := Option.ne_none_iff_exists'.1 (mt List.getLast?_eq_none_iff.1 hne)
  rw [← hc, Pattern.getLast?_append_of_ne_nil _ hne, hx] at h
  have hword := isWord_of_tokenByte
    (htoken.tokenByte (List.mem_append_left _ (List.mem_of_getLast? hx)))
  exact absurd (hword.symm.trans h) Bool.noConfusion

end

namespace Sought

variable (q : Sought)

/-! ## Where the word stands -/

/-- What the word has to stand behind ends this text. -/
def Led (a : Bytes) : Prop :=
  ∀ l ∈ q.lead, ∃ a' o t, a = a' ++ o ++ t ∧ o.map lowerByte = l ∧ AllBlank t ∧ t ≠ [] ∧
    EdgeLeft q.tokens a'

/-- In the text `a ++ o ++ b`, the part `o` is what is looked for. -/
structure Stands (a o b : Bytes) : Prop where
  reads : o.map lowerByte = q.word
  left : EdgeLeft q.tokens a
  right : EdgeRight q.tokens b
  led : q.Led a

/-- The word stands nowhere in the text. -/
def Absent (s : Bytes) : Prop :=
  ∀ a o b, s = a ++ o ++ b → ¬ q.Stands a o b

/-- At the joint of two texts nothing is put together: no placeholder, not the word and, if the word
has to stand behind another one, not the two of them. -/
structure Apart (u v : Bytes) : Prop where
  whole : Whole q.tokens u v
  word : ∀ t₁ t₂, t₁ ≠ [] → t₂ ≠ [] → (t₁ ++ t₂).map lowerByte = q.word → t₁ <:+ u → ¬ t₂ <+: v
  lead : ∀ l ∈ q.lead, ∀ o t p p' w, o.map lowerByte = l → AllBlank t → o ++ t = p ++ p' → p ≠ [] →
    w.map lowerByte = q.word → p <:+ u → ¬ p' ++ w <+: v

variable {q} {u v s a o b : Bytes}

theorem Stands.isWord (h : q.Stands a o b) : IsWord o :=
  isWord_of_lower q.isWord_word h.reads

theorem absent_nil : q.Absent [] := by
  intro a o b hs h
  have hlen := congrArg List.length hs
  have hpos := List.length_pos_iff.2 h.isWord.1
  simp only [List.length_nil, List.length_append] at hlen
  omega

/-- A text whose letters do not hold the word. -/
theorem absent_of_infixFree (h : ¬ q.word <:+: s.map lowerByte) : q.Absent s := by
  rintro a o b rfl hstands
  refine h ⟨a.map lowerByte, b.map lowerByte, ?_⟩
  rw [← hstands.reads, List.map_append, List.map_append]

/-! ## Cutting -/

theorem Led.append (h : q.Led a)
    (hedge : EdgeLeft q.tokens u ∨ (a ++ b).head?.any isWord = false) : q.Led (u ++ a) := by
  intro l hl
  obtain ⟨a', o, t, rfl, ho, ht, hne, hleft⟩ := h l hl
  refine ⟨u ++ a', o, t, by simp, ho, ht, hne, hleft.append fun hnil => ?_⟩
  subst hnil
  refine hedge.resolve_right fun hhead => ?_
  rw [List.nil_append, List.append_assoc, isWord_head (isWord_of_lower (q.isWord_lead l hl) ho)]
    at hhead
  exact Bool.noConfusion hhead

/-- The part in front of the edge of a word. -/
theorem Absent.left (h : q.Absent (u ++ v))
    (hedge : u.getLast?.any isWord = false ∨ EdgeRight q.tokens v) : q.Absent u := by
  rintro a o b rfl hstands
  refine h a o (b ++ v) (by simp) { hstands with right := hstands.right.append fun hb => ?_ }
  subst hb
  refine hedge.resolve_left fun hlast => ?_
  rw [List.append_nil, isWord_last hstands.isWord] at hlast
  exact Bool.noConfusion hlast

/-- The part behind the edge of a word. -/
theorem Absent.right (h : q.Absent (u ++ v))
    (hedge : EdgeLeft q.tokens u ∨ v.head?.any isWord = false) : q.Absent v := by
  rintro a o b rfl hstands
  refine h (u ++ a) o b (by simp) { hstands with left := hstands.left.append fun ha => ?_, led := ?_ }
  · subst ha
    refine hedge.resolve_right fun hhead => ?_
    rw [List.nil_append, isWord_head hstands.isWord] at hhead
    exact Bool.noConfusion hhead
  · exact hstands.led.append (b := o ++ b) (by rwa [List.append_assoc] at hedge)

/-! ## Joining -/

/-- What the word has to stand behind is in the second of two texts, unless it is put together at the
joint. -/
theorem Led.of_append (h : q.Led (u ++ a)) (hapart : q.Apart u v) (ho : o.map lowerByte = q.word)
    (hv : a ++ o <+: v) : q.Led a := by
  intro l hl
  obtain ⟨a', w, t, hsplit, hw, ht, hne, hedge⟩ := h l hl
  rw [List.append_assoc] at hsplit
  rcases List.append_eq_append_iff.1 hsplit with ⟨c, rfl, rfl⟩ | ⟨p, rfl, hp⟩
  · refine ⟨c, w, t, (List.append_assoc _ _ _).symm, hw, ht, hne, ?_⟩
    refine hedge.of_append hapart.whole ?_
    exact (List.prefix_append c (w ++ t ++ o)).trans (by simpa using hv)
  · by_cases hnil : p = []
    · subst hnil
      exact ⟨[], w, t, by simpa using hp.symm, hw, ht, hne, edgeLeft_nil⟩
    · exact absurd hv (hapart.lead l hl w t p a o hw ht hp hnil ho ⟨a', rfl⟩)

/-- Two texts that are apart are joined. -/
theorem Absent.append (hu : q.Absent u) (hv : q.Absent v) (hapart : q.Apart u v) :
    q.Absent (u ++ v) := by
  intro a o b h hstands
  rcases append_eq_append_append h with
    ⟨b', hb'⟩ | ⟨a', rfl, ha'⟩ | ⟨t₁, t₂, ht₁, ht₂, rfl, hut, hvt⟩
  · have hb : b = b' ++ v := by
      rw [hb', List.append_assoc (a ++ o)] at h
      exact (List.append_cancel_left h).symm
    refine hu a o b' hb' { hstands with right := ?_ }
    exact (hb ▸ hstands.right).of_append hapart.whole ⟨a ++ o, hb'.symm⟩
  · refine hv a' o b ha' { hstands with
      left := hstands.left.of_append hapart.whole ⟨o ++ b, by rw [ha', List.append_assoc]⟩
      led := hstands.led.of_append hapart hstands.reads ⟨b, ha'.symm⟩ }
  · exact hapart.word t₁ t₂ ht₁ ht₂ hstands.reads ⟨a, hut.symm⟩ ⟨b, hvt.symm⟩

/-- The word itself and the placeholders are not put together where one side is no part of a word. -/
theorem Apart.of_edge
    (hedge : u.getLast?.any isWord = false ∨ v.head?.any isWord = false)
    (hlead : ∀ l ∈ q.lead, ∀ o t p p' w, o.map lowerByte = l → AllBlank t → o ++ t = p ++ p' →
      p ≠ [] → w.map lowerByte = q.word → p <:+ u → ¬ p' ++ w <+: v) : q.Apart u v where
  whole := by
    rcases hedge with hlast | hhead
    · exact whole_of_last hlast v
    · refine whole_of_head u fun x hx htoken => ?_
      rw [hx, Option.any_some] at hhead
      rw [isWord_of_tokenByte htoken] at hhead
      exact Bool.noConfusion hhead
  word := by
    rintro t₁ t₂ ht₁ ht₂ hreads ⟨c, rfl⟩ ⟨d, rfl⟩
    have hword := isWord_of_lower q.isWord_word hreads
    rcases hedge with hlast | hhead
    · rw [isWord_last ⟨ht₁, fun x hx => hword.2 x (List.mem_append_left _ hx)⟩] at hlast
      exact Bool.noConfusion hlast
    · rw [isWord_head ⟨ht₂, fun x hx => hword.2 x (List.mem_append_right _ hx)⟩] at hhead
      exact Bool.noConfusion hhead
  lead := hlead

/-! ## Fixed texts -/

/-- Whether the byte is a blank of patterns. -/
def isPatternBlank (b : UInt8) : Bool :=
  CharSet.blank.contains b.toNat

/-- The text ends, up to blanks, in a byte of which `w` has none. -/
def SealedBy (w s : Bytes) : Prop :=
  ∃ y ∈ (dropTailWhile isPatternBlank s).getLast?, lowerByte y ∉ w

instance (w s : Bytes) : Decidable (SealedBy w s) :=
  inferInstanceAs (Decidable (∃ y ∈ _, _))

/-- The text starts, up to blanks, with a byte of which `w` has none, and differs from the word. -/
def OpensApart (w word s : Bytes) : Prop :=
  (∃ x ∈ (s.dropWhile isPatternBlank).head?, lowerByte x ∉ w) ∧
    ¬ word <+: (s.dropWhile isPatternBlank).map lowerByte ∧
    ¬ (s.dropWhile isPatternBlank).map lowerByte <+: word

instance (w word s : Bytes) : Decidable (OpensApart w word s) :=
  inferInstanceAs (Decidable (_ ∧ _))

/-- What is looked for neither stands in the text nor starts or ends in it, whatever is around it. -/
structure Neutral (q : Sought) (r : Bytes) : Prop where
  infixFree : ¬ q.word <:+: r.map lowerByte
  ne_nil : r ≠ []
  last : r.getLast?.any isWord = false ∨ 95 ∉ r
  tails : ∀ t ∈ r.tails, t ≠ [] → ¬ t.map lowerByte <+: q.word
  sealed : ∀ l ∈ q.lead, SealedBy l r
  opens : ∀ l ∈ q.lead, OpensApart l q.word r

instance (q : Sought) (r : Bytes) : Decidable (q.Neutral r) :=
  decidable_of_iff
    (¬ q.word <:+: r.map lowerByte ∧ r ≠ [] ∧
      (r.getLast?.any isWord = false ∨ 95 ∉ r) ∧
      (∀ t ∈ r.tails, t ≠ [] → ¬ t.map lowerByte <+: q.word) ∧
      (∀ l ∈ q.lead, SealedBy l r) ∧ ∀ l ∈ q.lead, OpensApart l q.word r)
    ⟨fun ⟨h₁, h₂, h₃, h₄, h₅, h₆⟩ => ⟨h₁, h₂, h₃, h₄, h₅, h₆⟩,
      fun ⟨h₁, h₂, h₃, h₄, h₅, h₆⟩ => ⟨h₁, h₂, h₃, h₄, h₅, h₆⟩⟩

/-- No part of a word with blanks behind it that starts with the word ends a sealed text. -/
theorem SealedBy.not_suffix {l o t p p' : Bytes} (hs : SealedBy l s) (hl : IsWord l)
    (ho : o.map lowerByte = l) (ht : AllBlank t) (h : o ++ t = p ++ p') (hp : p ≠ []) :
    ¬ p <:+ s := by
  obtain ⟨y, hy, hnot⟩ := hs
  have hblank := getLast?_dropTailWhile _ _ hy
  rintro ⟨c, hc⟩
  have hword := isWord_of_lower hl ho
  -- the last byte that is no blank is in `p`, for the first byte of `p` is no blank
  have hmem : y ∈ p := by
    obtain ⟨x, o, rfl⟩ := List.exists_cons_of_ne_nil hword.1
    obtain ⟨x', p, rfl⟩ := List.exists_cons_of_ne_nil hp
    obtain ⟨rfl, -⟩ := List.cons.inj h
    have hx : isPatternBlank x = false := not_blank_of_isWord (hword.2 x List.mem_cons_self)
    have hkeep : dropTailWhile isPatternBlank (x :: p) ≠ [] := by
      intro hnil
      have hall := of_mem_drop_dropTailWhile (p := isPatternBlank) (s := x :: p) (b := x)
        (by rw [hnil]; exact List.mem_cons_self)
      exact absurd (hx.symm.trans hall) Bool.noConfusion
    rw [← hc, dropTailWhile_append_of_ne_nil _ hkeep,
      Pattern.getLast?_append_of_ne_nil _ hkeep] at hy
    exact List.IsPrefix.subset ( dropTailWhile_prefix _ _) (List.mem_of_getLast? hy)
  have hmem' : y ∈ o ++ t := h ▸ List.mem_append_left _ hmem
  rcases List.mem_append.1 hmem' with hin | hin
  · exact hnot (ho ▸ List.mem_map_of_mem hin)
  · exact absurd (hblank.symm.trans (ht y hin)) Bool.noConfusion

/-- What stands behind a word and blanks does not start a text that opens with something else. -/
theorem OpensApart.not_opens {l o t p p' w : Bytes} (hs : OpensApart l q.word s)
    (ho : o.map lowerByte = l) (ht : AllBlank t) (h : o ++ t = p ++ p') (hlead : IsWord o)
    (hw : w.map lowerByte = q.word) (v : Bytes) : ¬ p' ++ w <+: s ++ v := by
  obtain ⟨⟨x, hx, hnot⟩, hshort, hlong⟩ := hs
  rintro ⟨c, hc⟩
  have hfirst := List.takeWhile_append_dropWhile (p := isPatternBlank) (l := s)
  cases hdrop : s.dropWhile isPatternBlank with
  | nil =>
    rw [hdrop] at hx
    cases hx
  | cons x' core =>
    rw [hdrop] at hx hshort hlong
    obtain rfl : x' = x := Option.some.inj hx
    have hxblank : isPatternBlank x' = false := by
      have hhead := List.head?_dropWhile_not isPatternBlank s
      rw [hdrop] at hhead
      exact hhead
    have hindent : AllBlank (s.takeWhile isPatternBlank) :=
      fun b hb => List.all_eq_true.1 List.all_takeWhile b hb
    rw [← hfirst, hdrop, List.append_assoc (_ : Bytes) _ v, List.append_assoc p'] at hc
    -- if nothing of the first word is in `p'`, the second word starts where the text opens
    have hblanks : AllBlank p' → False := by
      intro hp'
      obtain ⟨y, w', rfl⟩ := List.exists_cons_of_ne_nil (isWord_of_lower q.isWord_word hw).1
      have hy := (isWord_of_lower q.isWord_word hw).2 y List.mem_cons_self
      obtain ⟨rfl, hrest⟩ := blank_append_inj hp' hindent (not_blank_of_isWord hy) hxblank hc
      have hall : y :: w' ++ c = y :: core ++ v := congrArg (y :: ·) hrest
      rcases List.prefix_or_prefix_of_prefix ⟨c, hall⟩ (List.prefix_append (y :: core) v) with
        hpre | hpre
      · exact hshort (hw ▸ hpre.map lowerByte)
      · exact hlong (hw ▸ hpre.map lowerByte)
    rcases List.append_eq_append_iff.1 h with ⟨d, -, rfl⟩ | ⟨d, rfl, rfl⟩
    · exact hblanks fun b hb => ht b (List.mem_append_right _ hb)
    · cases d with
      | nil => exact hblanks ht
      | cons y d =>
        have hy := hlead.2 y (List.mem_append_right _ List.mem_cons_self)
        obtain ⟨rfl, -⟩ := blank_append_inj (t := []) (fun b hb => absurd hb List.not_mem_nil)
          hindent (not_blank_of_isWord hy) hxblank hc
        exact hnot (ho ▸ List.mem_map_of_mem (List.mem_append_right _ List.mem_cons_self))

theorem Neutral.apart_right {r : Bytes} (hr : q.Neutral r) (v : Bytes) : q.Apart r v where
  whole := by
    rcases hr.last with hlast | hscore
    · exact whole_of_last hlast v
    · rintro - t₁ t₂ htoken hne - hsuffix -
      obtain ⟨x, t₁, rfl⟩ := List.exists_cons_of_ne_nil hne
      have hx : x = 95 := Option.some.inj htoken.head?
      exact absurd (hsuffix.subset (hx ▸ List.mem_cons_self)) hscore
  word t₁ t₂ ht₁ _ hreads hsuffix _ :=
    hr.tails t₁ ((List.mem_tails _ _).2 hsuffix) ht₁ ⟨t₂.map lowerByte, by rw [← hreads, List.map_append]⟩
  lead l hl o t p p' w ho ht h hp _ hsuffix _ :=
    (hr.sealed l hl).not_suffix (q.isWord_lead l hl) ho ht h hp hsuffix

/-- The byte is neither a letter of the word nor a part of placeholders. -/
def Foreign (q : Sought) (x : UInt8) : Prop :=
  lowerByte x ∉ q.word ∧ ¬ TokenByte x

instance (q : Sought) (x : UInt8) : Decidable (q.Foreign x) :=
  inferInstanceAs (Decidable (_ ∧ _))

theorem foreign_of_not_isWord {x : UInt8} (hx : isWord x = false) : q.Foreign x := by
  refine ⟨fun hmem => ?_, fun htoken => ?_⟩
  · have hword := q.isWord_word.2 _ hmem
    rw [isWord_lowerByte, hx] at hword
    exact Bool.noConfusion hword
  · exact Bool.noConfusion ((isWord_of_tokenByte htoken).symm.trans hx)

theorem Neutral.apart_left {r : Bytes} (hr : q.Neutral r)
    (hedge : u.getLast?.any isWord = false ∨ ∀ x ∈ r.head?, q.Foreign x) (v : Bytes) :
    q.Apart u (r ++ v) where
  whole := by
    refine hedge.elim (fun hlast => whole_of_last hlast _) fun hhead => whole_of_head u fun y hy => ?_
    rw [head?_append_left hr.ne_nil] at hy
    exact (hhead y hy).2
  word := by
    rintro t₁ t₂ ht₁ ht₂ hreads ⟨c, rfl⟩ ⟨d, hd⟩
    have hword := isWord_of_lower q.isWord_word hreads
    rcases hedge with hlast | hhead
    · rw [isWord_last ⟨ht₁, fun x hx => hword.2 x (List.mem_append_left _ hx)⟩] at hlast
      exact Bool.noConfusion hlast
    · obtain ⟨y, t₂, rfl⟩ := List.exists_cons_of_ne_nil ht₂
      have hy := congrArg List.head? hd
      rw [head?_append_left hr.ne_nil] at hy
      exact (hhead y hy.symm).1 (hreads ▸ List.mem_map_of_mem (by simp))
  lead l hl o t p p' w ho ht h _ hw _ :=
    (hr.opens l hl).not_opens ho ht h (isWord_of_lower (q.isWord_lead l hl) ho) hw v

/-- A fixed text is put between two texts. Where it starts with a letter of the word, the first text
ends in no word byte. -/
theorem Absent.insert {r : Bytes} (hu : q.Absent u) (hr : q.Neutral r) (hv : q.Absent v)
    (hedge : u.getLast?.any isWord = false ∨ ∀ x ∈ r.head?, q.Foreign x) :
    q.Absent (u ++ r ++ v) := by
  have hrest := (absent_of_infixFree hr.infixFree).append hv (hr.apart_right v)
  rw [List.append_assoc]
  exact hu.append hrest (hr.apart_left hedge v)

/-- A text of bytes with which neither the word nor the one before it can start or end. -/
theorem neutral_of_bytes {r : Bytes} (hne : r ≠ [])
    (h : ∀ x ∈ r, q.word.head? ≠ some (lowerByte x) ∧ (∀ l ∈ q.lead, lowerByte x ∉ l) ∧ x ≠ 95 ∧
      isPatternBlank x = false) : q.Neutral r := by
  obtain ⟨first, word, hword⟩ := List.exists_cons_of_ne_nil q.isWord_word.1
  -- no part of the text reads as a start of the word
  have hstart : ∀ t : Bytes, t ≠ [] → (∀ x ∈ t, x ∈ r) → ¬ t.map lowerByte <+: q.word ∧
      ¬ q.word <+: t.map lowerByte := by
    intro t ht hmem
    obtain ⟨x, t, rfl⟩ := List.exists_cons_of_ne_nil ht
    have hx := (h x (hmem x List.mem_cons_self)).1
    rw [hword] at hx ⊢
    constructor <;> rintro ⟨c, hc⟩
    · exact hx (congrArg some (List.cons.inj hc).1.symm)
    · exact hx (congrArg some (List.cons.inj hc).1)
  have hdrop : r.dropWhile isPatternBlank = r := by
    obtain ⟨x, r, rfl⟩ := List.exists_cons_of_ne_nil hne
    rw [List.dropWhile_cons_of_neg]
    rw [(h x List.mem_cons_self).2.2.2]
    exact Bool.false_ne_true
  have hkeep : dropTailWhile isPatternBlank r = r := by
    have hlast : r.reverse ≠ [] := mt List.reverse_eq_nil_iff.1 hne
    obtain ⟨y, r', hr'⟩ := List.exists_cons_of_ne_nil hlast
    have hy : y ∈ r := List.mem_reverse.1 (hr' ▸ List.mem_cons_self)
    rw [dropTailWhile, hr', List.dropWhile_cons_of_neg, ← hr', List.reverse_reverse]
    rw [(h y hy).2.2.2]
    exact Bool.false_ne_true
  refine ⟨?_, hne, Or.inr fun hmem => (h 95 hmem).2.2.1 rfl, ?_, ?_, ?_⟩
  · rintro ⟨c, d, hcd⟩
    have hmem : first ∈ r.map lowerByte := by
      rw [← hcd, hword]
      simp
    obtain ⟨x, hx, rfl⟩ := List.mem_map.1 hmem
    exact (h x hx).1 (by rw [hword]; rfl)
  · intro t ht hnil
    exact (hstart t hnil fun x hx => ((List.mem_tails _ _).1 ht).subset hx).1
  · intro l hl
    rw [SealedBy, hkeep]
    have hlast := List.getLast?_eq_some_getLast hne
    exact ⟨_, hlast, (h _ (List.mem_of_getLast? hlast)).2.1 l hl⟩
  · intro l hl
    rw [OpensApart, hdrop]
    have hself := hstart r hne fun x hx => hx
    obtain ⟨x, r, rfl⟩ := List.exists_cons_of_ne_nil hne
    exact ⟨⟨x, rfl, (h x List.mem_cons_self).2.1 l hl⟩, hself.2, hself.1⟩

/-- Punctuation takes no part in words. -/
theorem neutral_of_not_isWord {r : Bytes} (hne : r ≠ [])
    (h : ∀ x ∈ r, isWord x = false ∧ isPatternBlank x = false) : q.Neutral r := by
  refine neutral_of_bytes hne fun x hx => ?_
  obtain ⟨hword, hblank⟩ := h x hx
  have hnot : ∀ w, IsWord w → lowerByte x ∉ w := by
    intro w hw hmem
    have hletter := hw.2 _ hmem
    rw [isWord_lowerByte, hword] at hletter
    exact Bool.noConfusion hletter
  refine ⟨fun hhead => hnot _ q.isWord_word (List.mem_of_head? hhead),
    fun l hl => hnot l (q.isWord_lead l hl), ?_, hblank⟩
  rintro rfl
  exact Bool.noConfusion hword

/-! ## A word alone

A word that need not stand behind another one is put together at a joint only if it starts on the one
side and ends on the other. -/

section

variable (hlead : q.lead = none)

include hlead

theorem led_of_none (a : Bytes) : q.Led a := by
  intro l hl
  rw [hlead] at hl
  cases hl

theorem apart_of_edge (h : u.getLast?.any isWord = false ∨ v.head?.any isWord = false) :
    q.Apart u v := by
  refine .of_edge h fun l hl => ?_
  rw [hlead] at hl
  cases hl

/-- The second text starts with no letter of the word. -/
theorem apart_of_foreign (u : Bytes) (h : ∀ x ∈ v.head?, q.Foreign x) : q.Apart u v where
  whole := whole_of_head u fun x hx => (h x hx).2
  word := by
    rintro t₁ t₂ - ht₂ hreads - ⟨d, rfl⟩
    obtain ⟨y, t₂, rfl⟩ := List.exists_cons_of_ne_nil ht₂
    exact (h y rfl).1 (hreads ▸ List.mem_map_of_mem (by simp))
  lead l hl := by
    rw [hlead] at hl
    cases hl

/-- The first text ends with no letter of the word. -/
theorem apart_of_foreign_last {x : UInt8} (hx : u.getLast? = some x) (h : q.Foreign x) (v : Bytes) :
    q.Apart u v := by
  have hmem : ∀ t, t ≠ [] → t <:+ u → x ∈ t := by
    rintro t hne ⟨c, rfl⟩
    rw [Pattern.getLast?_append_of_ne_nil _ hne] at hx
    exact List.mem_of_getLast? hx
  refine ⟨?_, ?_, fun l hl => ?_⟩
  · rintro - t₁ t₂ htoken hne - hsuffix -
    exact h.2 (htoken.tokenByte (List.mem_append_left _ (hmem t₁ hne hsuffix)))
  · rintro t₁ t₂ hne - hreads hsuffix -
    refine h.1 (hreads ▸ List.mem_map_of_mem (List.mem_append_left _ (hmem t₁ hne hsuffix)))
  · rw [hlead] at hl
    cases hl

end

/-- A text without word bytes. -/
theorem absent_of_not_isWord (h : ∀ b ∈ s, isWord b = false) : q.Absent s := by
  rintro a o b rfl hstands
  obtain ⟨x, o, rfl⟩ := List.exists_cons_of_ne_nil hstands.isWord.1
  have hword := hstands.isWord.2 x List.mem_cons_self
  rw [h x (by simp)] at hword
  cases hword

end Sought

end SqlDialect
