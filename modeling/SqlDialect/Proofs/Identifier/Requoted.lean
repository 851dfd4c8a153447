import SqlDialect.Proofs.Identifier.Bare

set_option autoImplicit false

/-! # Quoting bare names twice

Whether a word is quoted depends on what stands on both sides of it, and quoting its neighbours changes
that. It never takes away what keeps a word from being quoted: a word that has got quotes keeps none
behind it (`SameLeft.name`), and what a text starts with is kept as far as it matters to the word in
front (`RightKeeps.quoteFrom`, `RightNamesType.quoteFrom`). So a word that was left alone is left alone
again (`bareNameFor?_again`), and one that was quoted stands between quotes. -/

namespace SqlDialect

open Bytes

/-! ## What keeps a word from being quoted -/

/-- The text in front keeps every word from being quoted. -/
def LeftKeeps (left : Bytes) : Prop :=
  left.getLast? = some doubleQuote ∨ endsWith (trimRight left) (ascii "::") = true

/-- Behind the text the name of a type is no name to quote. -/
def LeftNamesType (left : Bytes) : Prop :=
  toUpper (lastWord (trimRight left)) ∈ [ascii "AS", ascii "AT"]

/-- The text behind keeps every word from being quoted. -/
def RightKeeps (right : Bytes) : Prop :=
  right.head? = some doubleQuote ∨ startsWith (trimLeft right) (ascii "(") = true ∨
    startsWith (trimLeft right) marker = true

/-- In front of the text the name of a type is no name to quote. -/
def RightNamesType (right : Bytes) : Prop :=
  toUpper (firstWord (trimLeft right)) ∈ [ascii "ZONE", ascii "WITH", ascii "WITHOUT"]

theorem bareNameFor?_eq_none_iff {left word right : Bytes} :
    bareNameFor? left word right = none ↔
      (toLower word = ascii "id" ∧ word ∉ caseSensitiveNames) ∨ LeftKeeps left ∨ RightKeeps right ∨
        (toLower word ≠ ascii "id" ∧ (LeftNamesType left ∨ RightNamesType right)) := by
  simp only [bareNameFor?, LeftKeeps, LeftNamesType, RightKeeps, RightNamesType, beq_iff_eq,
    Bool.and_eq_true, Bool.or_eq_true, Bool.not_eq_true', List.contains_eq_mem, decide_eq_true_eq,
    decide_eq_false_iff_not]
  grind

theorem toUpper_of_mayBeName {w : Bytes} (h : MayBeName w) :
    toUpper w ∉ [ascii "AS", ascii "AT"] ∧
      toUpper w ∉ [ascii "ZONE", ascii "WITH", ascii "WITHOUT"] := by
  have hwords : ∀ s ∈ bareWords, toUpper (ascii s) ∉ [ascii "AS", ascii "AT"] ∧
      toUpper (ascii s) ∉ [ascii "ZONE", ascii "WITH", ascii "WITHOUT"] := by decide
  obtain ⟨s, hs, hlower⟩ := id h
  rw [← toUpper_map_lowerByte (isWord_of_mayBeName h).ascii, hlower]
  exact hwords s hs

theorem not_mayBeName_marker (u : Bytes) : ¬ MayBeName (marker ++ u) := by
  have hwords : ∀ s ∈ bareWords, (ascii s).head? ≠ some 95 := by decide
  rintro ⟨s, hs, hlower⟩
  exact hwords s hs (by rw [← hlower]; rfl)

/-! ## The text in front -/

theorem trimRight_append_word {w : Bytes} (hw : IsWord w) (left : Bytes) :
    trimRight (left ++ w) = left ++ w := by
  have hlast : ∀ x ∈ (left ++ w).getLast?, isBlank x = false := by
    intro x hx
    have hword := isWord_last hw left
    rw [hx, Option.any_some] at hword
    exact not_isBlank_of_isWord hword
  have htrim : trimRight (left ++ w ++ []) = left ++ w ++ [] := dropTailWhile_append hlast []
  rwa [List.append_nil] at htrim

theorem lastWord_append_word {left w : Bytes} (hw : IsWord w)
    (hleft : left.getLast?.any isWord = false) : lastWord (left ++ w) = w := by
  have htake : (w.reverse ++ left.reverse).takeWhile isWord = w.reverse :=
    takeWhile_isWord_append (fun x hx => hw.2 x (List.mem_reverse.1 hx))
      (by rwa [List.head?_reverse])
  rw [lastWord, List.reverse_append, htake, List.reverse_reverse]

theorem not_cast_append_word {w : Bytes} (hw : IsWord w) (left : Bytes) :
    endsWith (trimRight (left ++ w)) (ascii "::") ≠ true := by
  rw [trimRight_append_word hw, ne_eq, endsWith_iff]
  rintro ⟨u, hu⟩
  have hlast := isWord_last hw left
  rw [← hu, List.getLast?_append] at hlast
  exact Bool.noConfusion hlast

/-- What keeps a word behind `left` from being quoted keeps it from that behind `left'`, and both end
with the same byte unless a word goes on there. -/
structure SameLeft (left left' : Bytes) : Prop where
  last : left.getLast?.any isWord = false → left'.getLast? = left.getLast?
  cast : endsWith (trimRight left) (ascii "::") = true →
    endsWith (trimRight left') (ascii "::") = true
  type : LeftNamesType left → LeftNamesType left'

namespace SameLeft

variable {left left' : Bytes}

theorem refl (left : Bytes) : SameLeft left left :=
  ⟨fun _ => rfl, id, id⟩

theorem keeps (h : SameLeft left left') (hkeeps : LeftKeeps left) : LeftKeeps left' := by
  rcases hkeeps with hquote | hcast
  · exact Or.inl (by rw [h.last (by rw [hquote]; rfl), hquote])
  · exact Or.inr (h.cast hcast)

theorem byte (h : SameLeft left left') {x : UInt8} (hx : isWord x = false) :
    SameLeft (left ++ [x]) (left' ++ [x]) := by
  have hlast : ∀ l : Bytes, (l ++ [x]).getLast? = some x := fun l => List.getLast?_concat
  cases hblank : isBlank x with
  | true =>
    have htrim : ∀ l : Bytes, trimRight (l ++ [x]) = trimRight l := by
      intro l
      rw [trimRight, trimRight, dropTailWhile, List.reverse_concat, List.dropWhile_cons, if_pos hblank]
      rfl
    refine ⟨fun _ => by rw [hlast, hlast], ?_, ?_⟩
    · rw [htrim, htrim]
      exact h.cast
    · rw [LeftNamesType, LeftNamesType, htrim, htrim]
      exact h.type
  | false =>
    have htrim : ∀ l : Bytes, trimRight (l ++ [x]) = l ++ [x] := by
      intro l
      rw [trimRight, dropTailWhile, List.reverse_concat, List.dropWhile_cons, hblank,
        if_neg Bool.false_ne_true, ← List.reverse_concat, List.reverse_reverse]
    refine ⟨fun _ => by rw [hlast, hlast], ?_, ?_⟩
    · rw [htrim, htrim, endsWith_iff, endsWith_iff]
      -- the byte is the second colon, and the first one ends `left`
      rintro ⟨u, hu⟩
      have hcolons : u ++ [58] ++ [58] = left ++ [x] := by rw [← hu, List.append_assoc]; rfl
      obtain ⟨rfl, hx⟩ := List.append_inj' hcolons rfl
      have hcolon : left'.getLast? = some 58 := by
        rw [h.last (by rw [List.getLast?_concat]; rfl), List.getLast?_concat]
      obtain ⟨v, rfl⟩ := List.getLast?_eq_some_iff.1 hcolon
      exact ⟨v, by rw [← hx, List.append_assoc]; rfl⟩
    · intro htype
      have hnil : lastWord (trimRight (left ++ [x])) = [] := by
        rw [htrim, lastWord, List.reverse_concat, List.takeWhile_cons, hx]
        rfl
      rw [LeftNamesType, hnil] at htype
      exact absurd htype (by decide)

theorem word (h : SameLeft left left') {w : Bytes} (hw : IsWord w)
    (hleft : left.getLast?.any isWord = false) : SameLeft (left ++ w) (left' ++ w) where
  last hlast := absurd (hlast.symm.trans (isWord_last hw left)) Bool.false_ne_true
  cast hcast := absurd hcast (not_cast_append_word hw left)
  type htype := by
    have hleft' : left'.getLast?.any isWord = false := by rw [h.last hleft, hleft]
    rw [LeftNamesType, trimRight_append_word hw, lastWord_append_word hw hleft] at htype
    rwa [LeftNamesType, trimRight_append_word hw, lastWord_append_word hw hleft']

/-- Behind one of the words the text in front of it does not matter. -/
theorem name {w : Bytes} (hw : MayBeName w) (hleft : left.getLast?.any isWord = false)
    (left' : Bytes) : SameLeft (left ++ w) left' where
  last hlast :=
    absurd (hlast.symm.trans (isWord_last (isWord_of_mayBeName hw) left)) Bool.false_ne_true
  cast hcast := absurd hcast (not_cast_append_word (isWord_of_mayBeName hw) left)
  type htype := by
    have hword := isWord_of_mayBeName hw
    rw [LeftNamesType, trimRight_append_word hword, lastWord_append_word hword hleft] at htype
    exact absurd htype (toUpper_of_mayBeName hw).1

end SameLeft

/-! ## The text behind -/

theorem head?_quoteFrom {s : Bytes} (hs : s.head?.any isWord = false) (left : Bytes) :
    (quoteFrom left s).head? = s.head? := by
  cases s with
  | nil => rw [quoteFrom_nil]
  | cons x s =>
    rw [quoteFrom_cons hs]
    rfl

/-- Blanks and a first word that is none to quote stay at the start of a text. -/
theorem trimLeft_quoteFrom (left : Bytes) {s : Bytes}
    (hname : ¬ MayBeName (firstWord (trimLeft s))) :
    ∃ b, trimLeft (quoteFrom left s) = firstWord (trimLeft s) ++ b ∧
      b.head? = ((trimLeft s).dropWhile isWord).head? := by
  have hblanks : ∀ x ∈ s.takeWhile isBlank, isBlank x = true :=
    fun x hx => List.all_eq_true.1 List.all_takeWhile x hx
  have hhead : ∀ x ∈ (trimLeft s).head?, isBlank x = false := head?_dropWhile s
  have hs : s = s.takeWhile isBlank ++ trimLeft s := List.takeWhile_append_dropWhile.symm
  have hcore : trimLeft s = firstWord (trimLeft s) ++ (trimLeft s).dropWhile isWord :=
    List.takeWhile_append_dropWhile.symm
  have hrest := head?_dropWhile_isWord (trimLeft s)
  have hwords : ∀ x ∈ firstWord (trimLeft s), isWord x = true :=
    fun x hx => List.all_eq_true.1 List.all_takeWhile x hx
  generalize s.takeWhile isBlank = bl at hs hblanks
  generalize firstWord (trimLeft s) = w at hcore hwords hname ⊢
  generalize (trimLeft s).dropWhile isWord = b at hcore hrest ⊢
  have hquote : quoteFrom (left ++ bl) (w ++ b) = w ++ quoteFrom (left ++ bl ++ w) b := by
    by_cases hnil : w = []
    · rw [hnil, List.nil_append, List.nil_append, List.append_nil]
    · exact quoteFrom_word ⟨hnil, hwords⟩ hrest fun _ h => absurd h hname
  have hkept := head?_quoteFrom hrest (left ++ bl ++ w)
  refine ⟨_, ?_, hkept⟩
  -- the first byte behind the blanks stays as well
  have hfirst : (w ++ quoteFrom (left ++ bl ++ w) b).head? = (trimLeft s).head? := by
    rw [hcore, List.head?_append, List.head?_append, hkept]
  rw [hs, hcore, quoteFrom_separators (fun x hx => isWord_of_isBlank (hblanks x hx)), hquote,
    trimLeft, List.dropWhile_append_of_pos hblanks]
  generalize w ++ quoteFrom (left ++ bl ++ w) b = t at hfirst ⊢
  cases t with
  | nil => rfl
  | cons x t =>
    rw [List.dropWhile_cons, hhead x hfirst.symm, if_neg Bool.false_ne_true]

section

variable {right : Bytes}

theorem RightNamesType.quoteFrom (h : RightNamesType right) (left : Bytes) :
    RightNamesType (quoteFrom left right) := by
  obtain ⟨b, htrim, hb⟩ :=
    trimLeft_quoteFrom left fun hname => (toUpper_of_mayBeName hname).2 h
  have hfirst : firstWord (firstWord (trimLeft right) ++ b) = firstWord (trimLeft right) := by
    refine takeWhile_isWord_append (fun x hx => List.all_eq_true.1 List.all_takeWhile x hx) ?_
    rw [hb]
    exact head?_dropWhile_isWord _
  rwa [RightNamesType, htrim, hfirst]

theorem RightKeeps.quoteFrom (h : RightKeeps right) (hright : right.head?.any isWord = false)
    (left : Bytes) : RightKeeps (quoteFrom left right) := by
  rcases h with hquote | hparen | hmarker
  · exact Or.inl ((head?_quoteFrom hright left).trans hquote)
  · obtain ⟨t, ht⟩ := startsWith_iff.1 hparen
    have hnil : firstWord (trimLeft right) = [] := by
      rw [← ht]
      rfl
    obtain ⟨b, htrim, hb⟩ := trimLeft_quoteFrom left (s := right) (by rw [hnil]; decide)
    have hhead : b.head? = some 40 := by
      rw [hb, ← ht]
      rfl
    obtain ⟨u, rfl⟩ := List.head?_eq_some_iff.1 hhead
    exact Or.inr (Or.inl (startsWith_iff.2 ⟨u, by rw [htrim, hnil]; rfl⟩))
  · obtain ⟨t, ht⟩ := startsWith_iff.1 hmarker
    have hfirst : firstWord (trimLeft right) = marker ++ t.takeWhile isWord := by
      rw [← ht, firstWord, List.takeWhile_append_of_pos (by decide)]
    obtain ⟨b, htrim, -⟩ :=
      trimLeft_quoteFrom left (s := right) (by rw [hfirst]; exact not_mayBeName_marker _)
    exact Or.inr (Or.inr (startsWith_iff.2 ⟨t.takeWhile isWord ++ b, by
      rw [htrim, hfirst, List.append_assoc]⟩))

end

/-! ## The second time -/

/-- A word that is left alone is left alone the second time. -/
theorem bareNameFor?_again {left left' w b : Bytes} (h : SameLeft left left')
    (hb : b.head?.any isWord = false) (hnone : bareNameFor? left w b = none) (before : Bytes) :
    bareNameFor? left' w (quoteFrom before b) = none := by
  rw [bareNameFor?_eq_none_iff] at hnone ⊢
  rcases hnone with hid | hleft | hright | ⟨hnot, hleft | hright⟩
  · exact Or.inl hid
  · exact Or.inr (Or.inl (h.keeps hleft))
  · exact Or.inr (Or.inr (Or.inl (hright.quoteFrom hb before)))
  · exact Or.inr (Or.inr (Or.inr ⟨hnot, Or.inl (h.type hleft)⟩))
  · exact Or.inr (Or.inr (Or.inr ⟨hnot, Or.inr (hright.quoteFrom before)⟩))

/-- Behind texts that keep the same words from being quoted, the quoted text stays as it is. -/
theorem quoteFrom_quoteFrom {left left' s : Bytes} (h : SameLeft left left')
    (hedge : left.getLast?.any isWord = false ∨ s.head?.any isWord = false) :
    quoteFrom left' (quoteFrom left s) = quoteFrom left s := by
  induction s using induction_words generalizing left left' with
  | nil => rw [quoteFrom_nil, quoteFrom_nil]
  | byte x s hx ih =>
    rw [quoteFrom_cons hx, quoteFrom_cons hx,
      ih (h.byte hx) (Or.inl (by rw [List.getLast?_concat]; exact hx))]
  | word w b hw hb ih =>
    have hleft : left.getLast?.any isWord = false := by
      refine hedge.resolve_right fun hhead => ?_
      exact Bool.noConfusion ((isWord_head hw b).symm.trans hhead)
    by_cases hkeep : MayBeName w → bareNameFor? left w b = none
    · have hrest : (quoteFrom (left ++ w) b).head?.any isWord = false := by
        rw [head?_quoteFrom hb, hb]
      rw [quoteFrom_word hw hb fun _ => hkeep,
        quoteFrom_word hw hrest fun _ hname => bareNameFor?_again h hb (hkeep hname) (left ++ w),
        ih (h.word hw hleft) (Or.inr hb)]
    · rw [Classical.not_imp, ← ne_eq, Option.ne_none_iff_exists'] at hkeep
      obtain ⟨hname, name, hfor⟩ := hkeep
      have hwritten : IsWord name := bareNameFor?_eq_some hfor ▸ isWord_nameWritten hw
      rw [quoteFrom_name hname hleft hb hfor, quoteFrom_quoted hwritten,
        ih (SameLeft.name hname hleft _) (Or.inr hb)]

/-! ## What is written -/

/-- What is written for a match in the text. -/
def writtenIn (s : Bytes) (m : Match) : Bytes :=
  match bareNameFor? (s.take (s.length - (m.text ++ m.after).length)) m.text m.after with
  | some _ => doubleQuote :: nameWritten m.text ++ [doubleQuote]
  | none => m.text

theorem writtenIn_cases (s : Bytes) (m : Match) :
    writtenIn s m = m.text ∨ writtenIn s m = doubleQuote :: nameWritten m.text ++ [doubleQuote] := by
  rw [writtenIn]
  split
  · exact Or.inr rfl
  · exact Or.inl rfl

theorem writtenIn_eq (left : Bytes) (m : Match) :
    writtenIn (left ++ m.before ++ m.text ++ m.after) m = writtenFor left m := by
  have hlen : (left ++ m.before ++ m.text ++ m.after).length - (m.text ++ m.after).length
      = (left ++ m.before).length := by
    simp only [List.length_append]
    omega
  rw [writtenIn, hlen, List.append_assoc, List.take_left, writtenFor]
  cases hname : bareNameFor? (left ++ m.before) m.text m.after with
  | none => rfl
  | some name => rw [bareNameFor?_eq_some hname]

/-- Quoting bare names replaces matches. -/
theorem quoteFrom_eq_rewriteFrom (left s : Bytes) :
    quoteFrom left s = bareNamePattern.rewriteFrom (writtenIn (left ++ s)) left.getLast? s := by
  induction hlen : s.length using Nat.strongRecOn generalizing left s with
  | _ n ih =>
    rw [quoteFrom_eq]
    cases hm : bareNamePattern.findFrom? 0 left.getLast? s with
    | none => rw [Pattern.rewriteFrom_eq, hm]
    | some m =>
      have hne := (isWord_of_mayBeName (word_of_findFrom? hm).1).1
      have hlast : (left ++ m.before ++ m.text).getLast? = m.text.getLast? := by
        rw [List.getLast?_append, List.getLast?_eq_some_getLast hne, Option.some_or]
      have hs : left ++ s = left ++ m.before ++ m.text ++ m.after := by
        rw [← Pattern.text_of_findFrom? hm]
        simp only [List.append_assoc]
      have hrest := ih _ (hlen ▸ length_after_of_findFrom? hm) (left ++ m.before ++ m.text) m.after rfl
      rw [Pattern.rewriteFrom_of_findFrom? consumes_bareNamePattern hm, hs, writtenIn_eq, ← hlast,
        ← hrest]

/-- The match is a whole word of the text, one of those that may be names to quote. -/
def IsWholeWord (s : Bytes) (m : Match) : Prop :=
  ∃ a, s = a ++ m.text ++ m.after ∧ a.getLast?.any isWord = false ∧
    m.after.head?.any isWord = false ∧ MayBeName m.text

theorem isWholeWord_of_mem_allFrom {left s : Bytes} {m : Match}
    (h : m ∈ bareNamePattern.allFrom left.getLast? s) : IsWholeWord (left ++ s) m := by
  induction hlen : s.length using Nat.strongRecOn generalizing left s with
  | _ n ih =>
    cases hfind : bareNamePattern.findFrom? 0 left.getLast? s with
    | none =>
      rw [Pattern.allFrom, hfind] at h
      exact absurd h List.not_mem_nil
    | some first =>
      have hlt := length_after_of_findFrom? hfind
      obtain ⟨hname, -, -, hprev, hafter⟩ :=
        word_of_bareNameMatch (Pattern.matchHere?_of_findFrom? hfind)
      have hs : left ++ s = left ++ first.before ++ first.text ++ first.after := by
        rw [← Pattern.text_of_findFrom? hfind]
        simp only [List.append_assoc]
      rw [Pattern.allFrom_of_findFrom? hfind hlt, List.mem_cons] at h
      rw [hs]
      rcases h with rfl | h
      · exact ⟨left ++ m.before, rfl, by rwa [List.getLast?_append], hafter, hname⟩
      · refine ih _ (hlen ▸ hlt) ?_ rfl
        rwa [List.getLast?_append, List.getLast?_eq_some_getLast (isWord_of_mayBeName hname).1,
          Option.some_or, ← List.getLast?_eq_some_getLast]

/-- Quoting bare names a second time changes nothing. The first time changes nothing but some matches
of the pattern, each a whole word: they get quotes around them and are lowered, unless the word is
ID. -/
theorem quoteBareIdentifiers_idempotent (s : Bytes) :
    quoteBareIdentifiers (quoteBareIdentifiers s) = quoteBareIdentifiers s ∧
      (∃ f : Match → Bytes,
        (∀ m, f m = m.text ∨ f m = doubleQuote :: nameWritten m.text ++ [doubleQuote]) ∧
          quoteBareIdentifiers s = bareNamePattern.replaceWith f s) ∧
      ∀ m ∈ bareNamePattern.all s, IsWholeWord s m := by
  refine ⟨quoteFrom_quoteFrom (.refl []) (Or.inl rfl), ⟨writtenIn s, writtenIn_cases s, ?_⟩, ?_⟩
  · exact quoteFrom_eq_rewriteFrom [] s
  · intro m hm
    have hword : IsWholeWord ([] ++ s) m := isWholeWord_of_mem_allFrom hm
    exact hword

/-- A word behind a cast stays, and the others are not quoted again. -/
theorem quoteBareIdentifiers_idempotent_cast :
    quoteBareIdentifiers (ascii "ID, x::date, Time") = ascii "\"ID\", x::date, \"time\"" ∧
      quoteBareIdentifiers (ascii "\"ID\", x::date, \"time\"")
        = ascii "\"ID\", x::date, \"time\"" ∧
      IsWholeWord (ascii "ID, x::date, Time") ⟨ascii ", x::", ascii "date", ascii ", Time", []⟩ := by
  have hquote : quoteBareIdentifiers (ascii "ID, x::date, Time")
      = ascii "\"ID\", x::date, \"time\"" := by decide +kernel
  obtain ⟨hagain, -, hwords⟩ := quoteBareIdentifiers_idempotent (ascii "ID, x::date, Time")
  rw [hquote] at hagain
  exact ⟨hquote, hagain, hwords _ (by decide +kernel)⟩

end SqlDialect
