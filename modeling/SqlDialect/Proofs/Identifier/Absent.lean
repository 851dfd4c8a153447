import SqlDialect.Proofs.Identifier.Bare
import SqlDialect.Proofs.Query.Absent

set_option autoImplicit false

/-! # Names that bring no word about

A name that is put between quotes, segment by segment if it is qualified, holds no word that it did
not hold before, and neither does a text in which bare names get their quotes. -/

namespace SqlDialect

open Bytes

/-- A text is its parts with the separator between them. -/
theorem join_splitOnByte (sep : UInt8) (s : Bytes) : join [sep] (splitOnByte sep s) = s := by
  induction s with
  | nil => rfl
  | cons b s ih =>
    rw [splitOnByte]
    split
    · rename_i hnil
      exact absurd hnil (splitOnByte_ne_nil sep s)
    · rename_i part parts hparts
      rw [hparts] at ih
      split
      · rename_i hb
        rw [join_cons_cons, ih, hb]
        rfl
      · cases parts with
        | nil => simpa [join] using ih
        | cons next parts =>
          rw [join_cons_cons] at ih ⊢
          rw [← ih]
          rfl

/-- Replacing a byte is writing something else between the parts. -/
theorem replaceAll_eq_join (sep : UInt8) (new s : Bytes) :
    replaceAll [sep] new s = join new (splitOnByte sep s) := by
  induction s with
  | nil => rfl
  | cons b s ih =>
    obtain ⟨part, parts, hparts⟩ := List.exists_cons_of_ne_nil (splitOnByte_ne_nil sep s)
    rw [hparts] at ih
    rw [replaceAll_cons, splitOnByte, hparts, ih]
    dsimp only
    split
    · rw [join_cons_cons, List.nil_append]
    · cases parts with
      | nil => simp [join]
      | cons next parts =>
        rw [join_cons_cons, join_cons_cons]
        rfl

namespace Sought

variable {q : Sought} {s u v : Bytes}

/-! ## Quoted names -/

/-- The double quote takes no part in words, nor does a doubled one. -/
theorem neutral_quotes : q.Neutral [doubleQuote] ∧ q.Neutral [doubleQuote, doubleQuote] :=
  ⟨neutral_of_not_isWord (List.cons_ne_nil _ _) (by decide),
    neutral_of_not_isWord (List.cons_ne_nil _ _) (by decide)⟩

theorem Absent.quoted (h : q.Absent s) : q.Absent (doubleQuote :: s ++ [doubleQuote]) := by
  have hquote : ∀ x ∈ [doubleQuote].head?, q.Foreign x := by
    intro x hx
    obtain rfl := Option.some.inj hx
    exact foreign_of_not_isWord rfl
  have hclose := h.insert neutral_quotes.1 absent_nil (Or.inr hquote)
  have hopen := absent_nil.insert neutral_quotes.1 hclose (Or.inr hquote)
  simpa using hopen

theorem Absent.doubleQuoted (h : q.Absent s) : q.Absent (doubleQuoted s) := by
  rw [SqlDialect.doubleQuoted, replaceAll_eq_join]
  refine Absent.quoted (Absent.join neutral_quotes.2 rfl fun part hpart => ?_)
  exact Absent.of_mem_join (c := doubleQuote) rfl (by rwa [join_splitOnByte]) hpart

theorem reservedWords_plain : ∀ w ∈ reservedWords, IsWord w ∧ ¬ marker <:+: w := by
  decide +kernel

/-- A single word stands only as a whole. -/
theorem absent_of_isWord {w : Bytes} (hw : IsWord w) (hmark : ¬ marker <:+: w)
    (hne : q.lead = none → w.map lowerByte ≠ q.word) : q.Absent w := by
  rintro a o b rfl hstands
  have ha : a = [] := by
    by_contra hnil
    rcases hstands.left with hlast | ⟨-, t, ht, hsuffix⟩
    · have hword : IsWord a :=
        ⟨hnil, fun x hx => hw.2 x (List.mem_append_left _ (List.mem_append_left _ hx))⟩
      have hend := isWord_last hword []
      rw [List.nil_append, hlast] at hend
      exact Bool.noConfusion hend
    · refine hmark (ht.marked.trans (hsuffix.isInfix.trans ?_))
      exact ⟨[], o ++ b, by simp⟩
  have hb : b = [] := by
    by_contra hnil
    rcases hstands.right with hhead | ⟨-, t, ht, hfront⟩
    · have hword : IsWord b := ⟨hnil, fun x hx => hw.2 x (List.mem_append_right _ hx)⟩
      have hstart := isWord_head hword []
      rw [List.append_nil, hhead] at hstart
      exact Bool.noConfusion hstart
    · refine hmark (ht.marked.trans (hfront.isInfix.trans ?_))
      exact ⟨a ++ o, [], by simp⟩
  subst ha hb
  cases hlead : q.lead with
  | none => exact hne hlead (by simpa using hstands.reads)
  | some l =>
    obtain ⟨a', o', t, hsplit, -, -, hne, -⟩ := hstands.led l hlead
    have hlen := congrArg List.length hsplit
    have hpos := List.length_pos_iff.2 hne
    simp only [List.length_nil, List.length_append] at hlen
    omega

theorem Absent.quoteIdent (h : q.Absent s) : q.Absent (quoteIdent s) := by
  rw [SqlDialect.quoteIdent]
  split
  · exact h.doubleQuoted
  · rename_i hbare
    split
    · rename_i hreserved
      rw [Bool.or_eq_true, not_or, Bool.not_eq_true, Bool.not_eq_true] at hbare
      have hlower : Bytes.toLower s = s.map lowerByte := toLower_ascii (ascii_of_needsQuoting hbare.2)
      have hmem : Bytes.toLower s ∈ reservedWords := List.contains_iff_mem.1 hreserved
      obtain ⟨hword, hmark⟩ := reservedWords_plain _ hmem
      refine Absent.quoted (absent_of_isWord hword hmark fun hlead heq => ?_)
      refine h [] s [] (by simp) ⟨?_, edgeLeft_nil, edgeRight_nil, fun l hl => ?_⟩
      · rwa [hlower, map_lowerByte_idem] at heq
      · rw [hlead] at hl
        cases hl
    · exact h

theorem Absent.normalizeName (h : q.Absent s) : q.Absent (normalizeName s) := by
  rw [SqlDialect.normalizeName]
  split
  · exact h
  · split
    · refine Absent.join (neutral_of_not_isWord (List.cons_ne_nil _ _) (by decide)) rfl ?_
      intro part hpart
      obtain ⟨segment, hsegment, rfl⟩ := List.mem_map.1 hpart
      refine Absent.quoteIdent ?_
      exact Absent.of_mem_join (c := 46) rfl (by rwa [join_splitOnByte]) hsegment
    · exact h.quoteIdent

end Sought

/-! ## Bare names -/

/-- The letters of the words that may be names to quote, in lower case. -/
def bareLetters : Bytes := ascii "adeimpst"

theorem MayBeName.letters {w : Bytes} (h : MayBeName w) : ∀ x ∈ w, lowerByte x ∈ bareLetters := by
  obtain ⟨s, hs, hlower⟩ := h
  have hwords : ∀ s ∈ bareWords, ∀ x ∈ ascii s, x ∈ bareLetters := by decide
  intro x hx
  exact hwords s hs _ (by rw [← hlower]; exact List.mem_map_of_mem hx)

/-- The second text is the first one with some of its bare names between quotes. -/
inductive QuotesNames : Bytes → Bytes → Prop
  | rest (s : Bytes) : QuotesNames s s
  | next {before word after after' written : Bytes} (hbefore : before.getLast?.any isWord = false)
      (hword : MayBeName word) (hafter : after.head?.any isWord = false)
      (hwritten : written = word ∨ ∃ name, (name = word ∨ name = Bytes.toLower word) ∧
        written = doubleQuote :: name ++ [doubleQuote])
      (h : QuotesNames after after') :
      QuotesNames (before ++ word ++ after) (before ++ written ++ after')

theorem quotesNames_quoteFrom (left s : Bytes) : QuotesNames s (quoteFrom left s) := by
  induction hlen : s.length using Nat.strongRecOn generalizing left s with
  | _ k ih =>
    rw [quoteFrom_eq]
    cases hm : bareNamePattern.findFrom? 0 left.getLast? s with
    | none => exact .rest s
    | some m =>
      have hrest := ih _ (hlen ▸ length_after_of_findFrom? hm) (left ++ m.before ++ m.text) m.after rfl
      obtain ⟨hname, hbefore, hafter⟩ := word_of_findFrom? hm
      have hnext := QuotesNames.next hbefore hname hafter (?_ : writtenFor left m = _ ∨ _) hrest
      · rwa [Pattern.text_of_findFrom? hm] at hnext
      · rw [writtenFor]
        split
        · rename_i name hname
          refine Or.inr ⟨name, ?_, rfl⟩
          rw [bareNameFor?_eq_some hname, nameWritten]
          split
          · exact Or.inl rfl
          · exact Or.inr rfl
        · exact Or.inl rfl

namespace QuotesNames

variable {s t a b r : Bytes} {x : UInt8}

theorem cons (h : QuotesNames s t) (hword : isWord x = false) : QuotesNames (x :: s) (x :: t) := by
  cases h with
  | rest => exact .rest _
  | @next before word after after' written hbefore hbare hafter hwritten h =>
    refine QuotesNames.next (?_ : (x :: before).getLast?.any isWord = false) hbare hafter hwritten h
    cases hlast : before.getLast? with
    | none =>
      rw [List.getLast?_cons, hlast]
      exact hword
    | some y =>
      rw [List.getLast?_cons, hlast]
      rwa [hlast] at hbefore

/-- Punctuation stays, and the names on both sides of it are quoted. -/
theorem separator (h : QuotesNames s t) (hs : s = a ++ x :: b) (hword : isWord x = false) :
    ∃ a' b', t = a' ++ x :: b' ∧ QuotesNames a a' ∧ QuotesNames b b' := by
  induction h generalizing a with
  | rest => exact ⟨a, b, hs, .rest a, .rest b⟩
  | @next before word after after' written hbefore hbare hafter hwritten h ih =>
    have hnotMem : x ∉ word := (isWord_of_mayBeName hbare).notMem hword
    rw [List.append_assoc] at hs
    rcases List.append_eq_append_iff.1 hs with ⟨c, rfl, hc⟩ | ⟨c, rfl, hc⟩
    · -- the byte stands behind the word
      obtain ⟨d, rfl, hd⟩ := prefix_of_separator hnotMem hc.symm
      obtain ⟨a', b', rfl, ha', hb'⟩ := ih hd
      refine ⟨before ++ written ++ a', b', by simp, ?_, hb'⟩
      rw [← List.append_assoc]
      refine .next hbefore hbare ?_ hwritten ha'
      subst hd
      cases d with
      | nil => rfl
      | cons y d => exact hafter
    · cases c with
      | nil =>
        -- the byte does not start the word
        obtain ⟨y, w, rfl⟩ := List.exists_cons_of_ne_nil (isWord_of_mayBeName hbare).1
        rw [List.nil_append, List.cons_append] at hc
        exact absurd (by rw [(List.cons.inj hc).1]; exact List.mem_cons_self) hnotMem
      | cons y c =>
        obtain ⟨rfl, rfl⟩ := List.cons.inj hc
        refine ⟨a, c ++ written ++ after', by simp, .rest a, ?_⟩
        rw [show c.append (word ++ after) = c ++ word ++ after from (List.append_assoc _ _ _).symm]
        refine .next ?_ hbare hafter hwritten h
        cases hlast : c.getLast? with
        | none => rfl
        | some z => rwa [List.getLast?_append, List.getLast?_cons, hlast] at hbefore

/-- A text without such a word stays. -/
theorem eq_of_infixFree (h : QuotesNames s t)
    (hno : ∀ w ∈ bareWords, ¬ ascii w <:+: s.map lowerByte) : t = s := by
  cases h with
  | rest => rfl
  | @next before word after after' written hbefore hbare hafter hwritten h =>
    obtain ⟨w, hw, hlower⟩ := hbare
    refine absurd ⟨before.map lowerByte, after.map lowerByte, ?_⟩ (hno w hw)
    rw [← hlower, List.map_append, List.map_append]

/-- A fixed text without such a word, in front of which and behind which no word goes on, stays. -/
theorem fixed (h : QuotesNames (a ++ x :: (r ++ b)) t) (hx : isWord x = false)
    (hb : b.head?.any isWord = false)
    (hno : ∀ w ∈ bareWords, ¬ ascii w <:+: r.map lowerByte) :
    ∃ a' b', t = a' ++ x :: (r ++ b') ∧ QuotesNames a a' ∧ QuotesNames b b' := by
  obtain ⟨a', s, rfl, ha', hs⟩ := h.separator rfl hx
  cases b with
  | nil =>
    rw [List.append_nil] at hs
    exact ⟨a', [], by rw [hs.eq_of_infixFree hno, List.append_nil], ha', .rest []⟩
  | cons y b =>
    obtain ⟨r', b', rfl, hr', hb'⟩ := hs.separator rfl hb
    exact ⟨a', y :: b', by rw [hr'.eq_of_infixFree hno], ha', hb'.cons hb⟩

end QuotesNames

namespace Sought

variable {q : Sought} {s : Bytes}

/-- The word and the one before it share no letters with the words that may be names to quote. -/
structure ApartFromBare (q : Sought) : Prop where
  head : ∀ c ∈ q.word.head?, c ∉ bareLetters
  lead : ∀ l ∈ q.lead, ∀ c ∈ l, c ∉ bareLetters

variable (hbare : q.ApartFromBare)

include hbare

theorem absent_of_bareLetters (h : ∀ x ∈ s, lowerByte x ∈ bareLetters) : q.Absent s := by
  refine absent_of_infixFree fun ⟨c, d, hcd⟩ => ?_
  obtain ⟨first, word, hword⟩ := List.exists_cons_of_ne_nil q.isWord_word.1
  have hmem : first ∈ s.map lowerByte := by
    rw [← hcd, hword]
    simp
  obtain ⟨x, hx, rfl⟩ := List.mem_map.1 hmem
  exact hbare.head _ (hword ▸ rfl) (h x hx)

theorem neutral_of_bareLetters (hne : s ≠ []) (h : ∀ x ∈ s, lowerByte x ∈ bareLetters) :
    q.Neutral s := by
  have hletters : ∀ c ∈ bareLetters, c ≠ 95 ∧ isWord c = true := by
    rw [bareLetters, ascii_ofList]
    decide
  refine neutral_of_bytes hne fun x hx => ?_
  obtain ⟨hlower, hword⟩ := hletters _ (h x hx)
  rw [isWord_lowerByte] at hword
  have hscore : x ≠ 95 := by
    rintro rfl
    exact hlower rfl
  have hblank : isPatternBlank x = false := by
    rw [Bool.eq_false_iff]
    intro hblank
    exact Bool.noConfusion (hword.symm.trans (ascii_of_blank hblank).2.2)
  exact ⟨fun hhead => hbare.head _ hhead (h x hx), fun l hl hmem => hbare.lead l hl _ hmem (h x hx),
    hscore, hblank⟩

theorem absent_of_bareName {word name : Bytes} (hword : MayBeName word)
    (hname : name = word ∨ name = Bytes.toLower word) : q.Absent name := by
  have hletters := hword.letters
  rcases hname with rfl | rfl
  · exact absent_of_bareLetters hbare hletters
  · rw [(isWord_of_mayBeName hword).toLower]
    refine absent_of_bareLetters hbare fun x hx => ?_
    obtain ⟨y, hy, rfl⟩ := List.mem_map.1 hx
    rw [lowerByte_lowerByte]
    exact hletters y hy

/-- Quoting bare names brings no word about. -/
theorem Absent.quotesNames {t : Bytes} (h : q.Absent s) (hst : QuotesNames s t) : q.Absent t := by
  induction hst with
  | rest => exact h
  | @next before word after after' written hbefore hword hafter hwritten _ ih =>
    have hrest := ih (h.right (Or.inr hafter))
    rw [List.append_assoc] at h
    have hleft := h.left (Or.inl hbefore)
    rcases hwritten with rfl | ⟨name, hname, rfl⟩
    · exact hleft.insert (neutral_of_bareLetters hbare (isWord_of_mayBeName hword).1 hword.letters) hrest
        (Or.inl hbefore)
    · have hquote : ∀ x ∈ [doubleQuote].head?, q.Foreign x := by
        intro x hx
        obtain rfl := Option.some.inj hx
        exact foreign_of_not_isWord rfl
      have hclose := (absent_of_bareName hbare hword hname).insert neutral_quotes.1 hrest
        (Or.inr hquote)
      have hopen := hleft.insert neutral_quotes.1 hclose (Or.inr hquote)
      simpa using hopen

theorem Absent.quoteBareIdentifiers (h : q.Absent s) : q.Absent (quoteBareIdentifiers s) :=
  h.quotesNames hbare (quotesNames_quoteFrom [] s)

end Sought

end SqlDialect
