import Mathlib.Data.List.Chain
import SqlDialect.Proofs.Pattern.Complete
import SqlDialect.Proofs.Pattern.Spelling

set_option autoImplicit false

/-! # Words and phrases in a text

A pattern for a word or a phrase between word edges occurs in a text where a spelling of it stands
there with no word byte on either side (`occursIn_edged_iff`). Another word of the text takes no part
in that if its first letter is none with which a word of the phrase can start: the phrase stands
wholly in front of the word or wholly behind it (`Stands.apart`). So such a word can be exchanged for
any other. -/

namespace SqlDialect

open Bytes

namespace Pattern

/-- A pattern between word edges. -/
def edged (q : Pattern) : Pattern :=
  seqs [wordEdge, q, wordEdge]

/-! ## What stands between the edges -/

theorem leads_edged {q : Pattern} {c c' : Cursor} :
    Leads (edged q) c c' ↔ Leads q c c' ∧ c.atWordEdge = true ∧ c'.atWordEdge = true := by
  constructor
  · intro h
    obtain ⟨c₁, hedge, h₁⟩ := leads_seqs_cons.1 h
    obtain ⟨rfl, hedge⟩ := leads_wordEdge.1 hedge
    obtain ⟨c₂, hlead, h₂⟩ := leads_seqs_cons.1 h₁
    obtain ⟨c₃, hedge', hnil⟩ := leads_seqs_cons.1 h₂
    obtain rfl := leads_nothing.1 hnil
    obtain ⟨rfl, hedge'⟩ := leads_wordEdge.1 hedge'
    exact ⟨hlead, hedge, hedge'⟩
  · rintro ⟨hlead, hedge, hedge'⟩
    exact leads_seqs_cons.2 ⟨c, .wordEdge hedge, leads_seqs_cons.2 ⟨c', hlead,
      leads_seqs_cons.2 ⟨c', .wordEdge hedge', .nothing c'⟩⟩⟩

/-- Behind a byte that is no word byte stands none either, or a letter of `inner`. -/
def Inside (inner : Bytes) (y x : UInt8) : Prop :=
  isWord y = false → isWord x = true → lowerByte x ∈ inner

/-- A text that starts with the letter `first` and ends with a word byte, and whose other words start
with letters of `inner`. -/
structure PhraseText (first : UInt8) (inner : Bytes) (t : Bytes) : Prop where
  head : ∃ x u, t = x :: u ∧ isWord x = true ∧ lowerByte x = first
  last : ∃ y, t.getLast? = some y ∧ isWord y = true
  inner : t.IsChain (Inside inner)

/-- The pattern takes the text wherever it stands. -/
def Retakes (q : Pattern) (t : Bytes) : Prop :=
  ∀ (d : Cursor) (r : Bytes), d.rest = t ++ r → Leads q d (d.past t r)

/-- The pattern takes texts of this shape, each wherever it stands. -/
def IsPhrase (q : Pattern) (first : UInt8) (inner : Bytes) : Prop :=
  ∀ c c' : Cursor, Leads q c c' → ∃ t, c.Takes t c' ∧ PhraseText first inner t ∧ q.Retakes t

/-- The phrase stands in the text `a ++ t ++ b` as `t`. -/
structure Stands (q : Pattern) (first : UInt8) (inner : Bytes) (a t b : Bytes) : Prop where
  shape : PhraseText first inner t
  retakes : q.Retakes t
  left : a.getLast?.any isWord = false
  right : b.head?.any isWord = false

section

variable {q : Pattern} {first : UInt8} {inner : Bytes}

theorem PhraseText.isWord_head {t : Bytes} (ht : PhraseText first inner t) (b : Bytes) :
    (t ++ b).head?.any isWord = true := by
  obtain ⟨x, u, rfl, hx, -⟩ := ht.head
  rw [List.cons_append, List.head?_cons, Option.any_some, hx]

theorem PhraseText.isWord_last {t : Bytes} (ht : PhraseText first inner t) (a : Bytes) :
    (a ++ t).getLast?.any isWord = true := by
  obtain ⟨y, hy, hword⟩ := ht.last
  rw [List.getLast?_append, hy, Option.some_or, Option.any_some, hword]

/-- A phrase between word edges occurs exactly where a text of its stands alone. -/
theorem occursIn_edged_iff (hq : q.IsPhrase first inner) {s : Bytes} :
    (edged q).occursIn s = true ↔ ∃ a t b, s = a ++ t ++ b ∧ q.Stands first inner a t b := by
  have hstarts : (edged q).StartsAscii := by
    intro c c' h
    obtain ⟨t, htakes, hshape, -⟩ := hq _ _ (leads_edged.1 h).1
    obtain ⟨x, u, rfl, hx, -⟩ := hshape.head
    exact ⟨x, u ++ c'.rest, htakes.rest, ascii_of_isWord hx⟩
  rw [occursIn_iff hstarts]
  constructor
  -- the ends of a phrase are word bytes, so an edge is where no other stands next to it
  · rintro ⟨a, b₀, rfl, c', h⟩
    obtain ⟨hlead, hedge, hedge'⟩ := leads_edged.1 h
    obtain ⟨t, htakes, hshape, hretakes⟩ := hq _ _ hlead
    have hrest : b₀ = t ++ c'.rest := htakes.rest
    refine ⟨a, t, c'.rest, by rw [hrest, List.append_assoc], hshape, hretakes, ?_, ?_⟩
    · rw [Cursor.atWordEdge, Cursor.behind, Option.or_none, hrest, hshape.isWord_head,
        bne_iff_ne] at hedge
      exact Bool.eq_false_iff.2 hedge
    · obtain ⟨y, hy, hword⟩ := hshape.last
      rw [Cursor.atWordEdge, htakes.prev, hy, Option.some_or, Option.any_some, hword,
        bne_iff_ne] at hedge'
      exact Bool.eq_false_iff.2 (Ne.symm hedge')
  · rintro ⟨a, t, b, rfl, hshape, hretakes, hleft, hright⟩
    refine ⟨a, t ++ b, List.append_assoc a t b, Cursor.past (.behind none a (t ++ b)) t b, ?_⟩
    refine leads_edged.2 ⟨hretakes _ b rfl, ?_, ?_⟩
    · rw [Cursor.atWordEdge, Cursor.behind, Option.or_none, hleft, hshape.isWord_head]
      rfl
    · obtain ⟨y, hy, hword⟩ := hshape.last
      rw [Cursor.atWordEdge, Cursor.past, hy, Option.some_or, Option.any_some, hword, hright]
      rfl

/-! ## Words that take no part -/

/-- A text of whole words, none of which starts with one of the letters. -/
structure Inert (letters : Bytes) (w : Bytes) : Prop where
  head : ∃ x w', w = x :: w' ∧ isWord x = true ∧ lowerByte x ∉ letters
  last : ∃ y, w.getLast? = some y ∧ isWord y = true
  inner : w.IsChain fun y x => isWord y = false → isWord x = true → lowerByte x ∉ letters

theorem isChain_of_forall {R : UInt8 → UInt8 → Prop} {t : Bytes}
    (h : ∀ y ∈ t, ∀ x ∈ t, R y x) : t.IsChain R :=
  (List.pairwise_of_forall_mem_list h).isChain

/-- A word that starts with another letter. -/
theorem inert_of_isWord {letters w : Bytes} (hw : IsWord w)
    (hhead : ∀ x ∈ w.head?, lowerByte x ∉ letters) : Inert letters w := by
  obtain ⟨x, w', rfl⟩ := List.exists_cons_of_ne_nil hw.1
  have hlast := List.getLast?_eq_some_getLast hw.1
  refine ⟨⟨x, w', rfl, hw.2 x List.mem_cons_self, hhead x rfl⟩,
    ⟨_, hlast, hw.2 _ (List.mem_of_getLast? hlast)⟩, isChain_of_forall fun y hy x _ hno => ?_⟩
  exact Bool.noConfusion (hno.symm.trans (hw.2 y hy))

theorem Inert.mono {letters letters' w : Bytes} (h : Inert letters w) (hsub : letters' ⊆ letters) :
    Inert letters' w := by
  obtain ⟨x, w', hw, hword, hx⟩ := h.head
  exact ⟨⟨x, w', hw, hword, fun hmem => hx (hsub hmem)⟩, h.last,
    h.inner.imp fun y x hyx hy hx hmem => hyx hy hx (hsub hmem)⟩

section

variable {a t b w : Bytes}

/-- Words that start with another letter do not start where the phrase does. -/
theorem Stands.ne_inert (h : q.Stands first inner a t b) (hw : Inert (first :: inner) w) (z : Bytes) :
    w ++ z ≠ t ++ b := by
  intro hwt
  obtain ⟨x, w', hwx, -, hx⟩ := hw.head
  obtain ⟨f, v, hf, -, hfirst⟩ := h.shape.head
  rw [hwx, hf, List.cons_append, List.cons_append] at hwt
  obtain ⟨rfl, -⟩ := List.cons.inj hwt
  exact hx (hfirst ▸ List.mem_cons_self)

/-- Such words do not start inside the phrase, nor where it ends. -/
theorem Stands.ne_inside {d c : Bytes} (h : q.Stands first inner a (d ++ c) b)
    (hd : (a ++ d).getLast?.any isWord = false) (hw : Inert (first :: inner) w) (z : Bytes) :
    w ++ z ≠ c ++ b := by
  intro hwz
  obtain ⟨x, w', hwx, hxword, hx⟩ := hw.head
  cases hlast : d.getLast? with
  | none =>
    obtain rfl := List.getLast?_eq_none_iff.1 hlast
    exact h.ne_inert hw z hwz
  | some y =>
    obtain ⟨d, rfl⟩ := List.getLast?_eq_some_iff.1 hlast
    rw [← List.append_assoc, List.getLast?_concat, Option.any_some] at hd
    cases c with
    | nil =>
      -- the phrase ends with a word byte, and no word byte stands in front of the words
      obtain ⟨y', hy', hword⟩ := h.shape.last
      rw [List.append_nil, List.getLast?_concat] at hy'
      obtain rfl := Option.some.inj hy'
      exact Bool.noConfusion (hd.symm.trans hword)
    | cons x' c =>
      -- behind such a byte a word of the phrase would start
      rw [hwx] at hwz
      obtain ⟨rfl, -⟩ := List.cons.inj hwz
      have hchain := h.shape.inner
      rw [List.append_assoc, List.singleton_append] at hchain
      have hinside : Inside inner y x :=
        (List.isChain_cons_cons.1 (List.isChain_append.1 hchain).2.1).1
      exact hx (List.mem_cons_of_mem _ (hinside hd hxword))

/-- The phrase does not start inside such words, nor where they end. -/
theorem Stands.ne_behind {u a₁ e : Bytes} (h : q.Stands first inner (u ++ a₁) t b)
    (hw : Inert (first :: inner) (a₁ ++ e)) (z : Bytes) : e ++ z ≠ t ++ b := by
  intro hez
  have hleft := h.left
  cases hlast : a₁.getLast? with
  | none =>
    obtain rfl := List.getLast?_eq_none_iff.1 hlast
    exact h.ne_inert hw z hez
  | some y =>
    obtain ⟨a₂, rfl⟩ := List.getLast?_eq_some_iff.1 hlast
    rw [List.getLast?_append, hlast, Option.some_or, Option.any_some] at hleft
    cases e with
    | nil =>
      -- the words end with a word byte, and none stands in front of the phrase
      obtain ⟨y', hy', hword⟩ := hw.last
      rw [List.append_nil, List.getLast?_concat] at hy'
      obtain rfl := Option.some.inj hy'
      exact Bool.noConfusion (hleft.symm.trans hword)
    | cons x' e =>
      -- behind such a byte another word would start, and the phrase with it
      obtain ⟨f, v, hf, hfword, hfirst⟩ := h.shape.head
      have hchain := hw.inner
      rw [List.append_assoc, List.singleton_append] at hchain
      have hother := (List.isChain_cons_cons.1 (List.isChain_append.1 hchain).2.1).1 hleft
      rw [hf, List.cons_append, List.cons_append] at hez
      obtain ⟨rfl, -⟩ := List.cons.inj hez
      exact hother hfword (hfirst ▸ List.mem_cons_self)

/-- Words that start with other letters are apart from the phrase. -/
theorem Stands.apart (h : q.Stands first inner a t b) {u z : Bytes}
    (hu : u.getLast?.any isWord = false) (hw : Inert (first :: inner) w)
    (heq : u ++ (w ++ z) = a ++ t ++ b) :
    (∃ b', b' ≠ [] ∧ u = a ++ t ++ b' ∧ b = b' ++ (w ++ z)) ∨
      ∃ a', a' ≠ [] ∧ z = a' ++ t ++ b ∧ a = u ++ w ++ a' := by
  rcases List.append_eq_append_iff.1 heq with ⟨c, hat, hwz⟩ | ⟨b', hub, hb⟩
  · rcases List.append_eq_append_iff.1 hat with ⟨d, rfl, rfl⟩ | ⟨a₁, rfl, rfl⟩
    · exact absurd hwz (h.ne_inside hu hw z)
    · right
      rw [List.append_assoc] at hwz
      rcases List.append_eq_append_iff.1 hwz with ⟨a', rfl, hz⟩ | ⟨e, rfl, he⟩
      · refine ⟨a', ?_, by rw [hz, List.append_assoc], by rw [List.append_assoc]⟩
        rintro rfl
        rw [List.append_nil] at h
        exact h.ne_behind (e := []) (by rwa [List.append_nil]) z hz
      · exact absurd he.symm (h.ne_behind hw z)
  · left
    refine ⟨b', ?_, hub, hb⟩
    rintro rfl
    rw [List.append_nil] at hub
    have hlast := h.shape.isWord_last a
    rw [← hub, hu] at hlast
    cases hlast

end

theorem getLast?_append_of_ne_nil (a : Bytes) {b : Bytes} (hb : b ≠ []) :
    (a ++ b).getLast? = b.getLast? := by
  obtain ⟨y, b, rfl⟩ := List.exists_cons_of_ne_nil hb
  rw [List.getLast?_append, List.getLast?_cons, Option.some_or]

variable (hq : q.IsPhrase first inner)
include hq

/-- Words that start with other letters than those of the phrase can be exchanged for any text. -/
theorem occursIn_exchange {u w z : Bytes} (hu : u.getLast?.any isWord = false)
    (hw : Inert (first :: inner) w) (w' : Bytes) (h : (edged q).occursIn (u ++ (w ++ z)) = true) :
    (edged q).occursIn (u ++ (w' ++ z)) = true := by
  obtain ⟨a, t, b, heq, hstands⟩ := (occursIn_edged_iff hq).1 h
  rw [occursIn_edged_iff hq]
  rcases hstands.apart hu hw heq with ⟨b', hb', rfl, rfl⟩ | ⟨a', ha', rfl, rfl⟩
  · refine ⟨a, t, b' ++ (w' ++ z), by simp only [List.append_assoc], hstands.shape,
      hstands.retakes, hstands.left, ?_⟩
    obtain ⟨y, b', rfl⟩ := List.exists_cons_of_ne_nil hb'
    exact hstands.right
  · refine ⟨u ++ w' ++ a', t, b, by simp only [List.append_assoc], hstands.shape,
      hstands.retakes, ?_, hstands.right⟩
    have hleft := hstands.left
    rwa [getLast?_append_of_ne_nil _ ha'] at hleft ⊢

/-- Nothing is added by a blank and such words if the phrase does not occur from there on. -/
theorem occursIn_blank_append {u w z : Bytes} (hw : Inert (first :: inner) w)
    (hz : (edged q).occursIn (w ++ z) = false) :
    (edged q).occursIn (u ++ 32 :: (w ++ z)) = (edged q).occursIn u := by
  rw [Bool.eq_iff_iff, occursIn_edged_iff hq, occursIn_edged_iff hq]
  have hcut : u ++ 32 :: (w ++ z) = u ++ [32] ++ (w ++ z) := by simp
  constructor
  · rintro ⟨a, t, b, heq, hstands⟩
    rw [hcut] at heq
    rcases hstands.apart (by simp; decide) hw heq with ⟨b', hb', hu, rfl⟩ | ⟨a', ha', rfl, rfl⟩
    · obtain ⟨y, hy⟩ := Option.ne_none_iff_exists'.1 (mt List.getLast?_eq_none_iff.1 hb')
      obtain ⟨b', rfl⟩ := List.getLast?_eq_some_iff.1 hy
      rw [← List.append_assoc] at hu
      obtain ⟨rfl, -⟩ := List.append_inj' hu rfl
      refine ⟨a, t, b', rfl, hstands.shape, hstands.retakes, hstands.left, ?_⟩
      cases b' with
      | nil => rfl
      | cons x b' => exact hstands.right
    · have hoccurs : (edged q).occursIn (w ++ (a' ++ t ++ b)) = true := by
        refine (occursIn_edged_iff hq).2 ⟨w ++ a', t, b, by simp only [List.append_assoc],
          hstands.shape, hstands.retakes, ?_, hstands.right⟩
        have hleft := hstands.left
        rwa [getLast?_append_of_ne_nil _ ha'] at hleft ⊢
      rw [hz] at hoccurs
      cases hoccurs
  · rintro ⟨a, t, b, rfl, hstands⟩
    refine ⟨a, t, b ++ 32 :: (w ++ z), by simp only [List.append_assoc], hstands.shape,
      hstands.retakes, hstands.left, ?_⟩
    cases b with
    | nil => rfl
    | cons y b => exact hstands.right

end

/-! ## Word bytes at the edges -/

/-- What stands between word edges and is read by the pattern is where it matches. -/
theorem leads_edged_of_retakes {q : Pattern} {prev : Option UInt8} {a t b : Bytes} {x y : UInt8}
    (hq : q.Retakes t) (hhead : t.head? = some x) (hx : isWord x = true) (hlast : t.getLast? = some y)
    (hy : isWord y = true) (ha : (a.getLast?.or prev).any isWord = false)
    (hb : b.head?.any isWord = false) : ∃ c', Leads (edged q) (.behind prev a (t ++ b)) c' := by
  refine ⟨_, leads_edged.2 ⟨hq _ b rfl, ?_, ?_⟩⟩
  · rw [Cursor.atWordEdge, Cursor.behind, ha, List.head?_append, hhead, Option.some_or,
      Option.any_some, hx]
    rfl
  · rw [Cursor.atWordEdge, Cursor.past, hlast, Option.some_or, Option.any_some, hy, hb]
    rfl

/-- Around what a pattern takes between word edges stands no word byte. -/
theorem edges_of_edged {q : Pattern} {prev : Option UInt8} {a t r : Bytes} {c' : Cursor}
    (h : Leads (edged q) (.behind prev a (t ++ r)) c')
    (htakes : Cursor.Takes (.behind prev a (t ++ r)) t c') (hhead : t.head?.any isWord = true)
    (hlast : t.getLast?.any isWord = true) :
    (a.getLast?.or prev).any isWord = false ∧ r.head?.any isWord = false := by
  obtain ⟨-, hedge, hedge'⟩ := leads_edged.1 h
  obtain ⟨x, hx, hxword⟩ := (Option.any_eq_true _ _).1 hhead
  obtain ⟨y, hy, hyword⟩ := (Option.any_eq_true _ _).1 hlast
  have hrest : c'.rest = r := List.append_cancel_left htakes.rest.symm
  constructor
  · rw [Cursor.atWordEdge, Cursor.behind, List.head?_append, hx, Option.some_or, Option.any_some,
      hxword] at hedge
    simpa using hedge
  · rw [Cursor.atWordEdge, htakes.prev, hy, Option.some_or, Option.any_some, hyword, hrest] at hedge'
    simpa using hedge'

/-! ## Keywords and phrases -/

theorem retakes_of_run {q : Pattern} {t : Bytes}
    (h : ∀ {α : Type} (k : Cursor → Option α) (d : Cursor) (r : Bytes), d.rest = t ++ r →
      q.run d k = k (d.past t r)) : q.Retakes t := by
  intro d r hd
  obtain ⟨d', hlead, heq⟩ := sound_run q d some _ (h some d r hd)
  rwa [Option.some.inj heq] at hlead

theorem IsKeyword.isWord {s : String} (hs : IsKeyword s) : IsWord (ascii s) := by
  refine ⟨fun hnil => hs.1 (List.map_eq_nil_iff.1 hnil), fun b hb => ?_⟩
  obtain ⟨ch, hch, rfl⟩ := List.mem_map.1 hb
  exact (hs.2 ch hch).2

theorem retakes_keyword {s : String} (hs : IsKeyword s) {t : Bytes}
    (ht : t.map lowerByte = (ascii s).map lowerByte) : (keyword s).Retakes t :=
  retakes_of_run fun _ _ _ hrest => run_keyword hs hrest ht

/-- What a keyword of ASCII letters takes. -/
theorem leads_keyword_text {s : String} (hs : IsKeyword s) (hascii : AsciiKeyword s)
    {c c' : Cursor} (h : Leads (keyword s) c c') :
    ∃ t, c.Takes t c' ∧ IsWord t ∧ t.map lowerByte = (ascii s).map lowerByte ∧
      (keyword s).Retakes t := by
  obtain ⟨t, htakes, -, hrun⟩ := leads_keyword_spells (fun ch hch => (hascii ch hch).1) h
  obtain ⟨t', htakes', hlower⟩ := leads_keyword_ascii hascii h
  obtain rfl := htakes.unique htakes'
  exact ⟨t, htakes, hs.isWord.of_map_lowerByte hlower, hlower, retakes_of_run hrun⟩

theorem inside_of_isWord {y : UInt8} (hy : isWord y = true) (inner : Bytes) (x : UInt8) :
    Inside inner y x :=
  fun hno => Bool.noConfusion (hno.symm.trans hy)

/-- A keyword of ASCII letters is a phrase of one word. -/
theorem isPhrase_keyword {s : String} (hs : IsKeyword s) (hascii : AsciiKeyword s) {first : UInt8}
    (hfirst : ((ascii s).map lowerByte).head? = some first) : (keyword s).IsPhrase first [] := by
  intro c c' h
  obtain ⟨t, htakes, hword, hlower, hretakes⟩ := leads_keyword_text hs hascii h
  obtain ⟨x, u, rfl⟩ := List.exists_cons_of_ne_nil hword.1
  refine ⟨x :: u, htakes, ⟨⟨x, u, rfl, hword.2 x List.mem_cons_self, ?_⟩, ?_, ?_⟩, hretakes⟩
  · rw [← hlower] at hfirst
    exact Option.some.inj hfirst
  · have hlast := List.getLast?_eq_some_getLast hword.1
    exact ⟨_, hlast, hword.2 _ (List.mem_of_getLast? hlast)⟩
  · exact isChain_of_forall fun y hy x _ => inside_of_isWord (hword.2 y hy) _ x

theorem leads_many_of_forall {set : CharSet} {t : Bytes}
    (ht : ∀ x ∈ t, x < 128 ∧ set.contains x.toNat = true) {d : Cursor} {r : Bytes}
    (hd : d.rest = t ++ r) : Leads (.many (.one set)) d (d.past t r) := by
  induction t generalizing d with
  | nil =>
    rw [List.nil_append] at hd
    have hsame : d.past [] r = d := by simp [Cursor.past, ← hd]
    rw [hsame]
    exact .manyNone _ _
  | cons x t ih =>
    obtain ⟨⟨hx, hset⟩, ht⟩ := List.forall_mem_cons.1 ht
    have hnext : d.next? = some (x.toNat, d.past [x] (t ++ r)) := by
      simp [Cursor.next?, hd, Utf8.lead_ascii hx, Cursor.past]
    have hrest := ih (d := d.past [x] (t ++ r)) ht rfl
    rw [Cursor.past_past] at hrest
    exact .manyMore (.one hnext hset) hrest

theorem retakes_blanks1 {t : Bytes} (hne : t ≠ []) (ht : AllBlank t) : blanks1.Retakes t := by
  intro d r hd
  obtain ⟨x, t, rfl⟩ := List.exists_cons_of_ne_nil hne
  obtain ⟨hx, ht⟩ := List.forall_mem_cons.1 ht
  have hnext : d.next? = some (x.toNat, d.past [x] (t ++ r)) := by
    simp [Cursor.next?, hd, Utf8.lead_ascii (ascii_of_blank hx).1, Cursor.past]
  have hrest : Leads (.many (.one CharSet.blank)) (d.past [x] (t ++ r))
      ((d.past [x] (t ++ r)).past t r) :=
    leads_many_of_forall (fun y hy => ⟨(ascii_of_blank (ht y hy)).1, ht y hy⟩) rfl
  rw [Cursor.past_past] at hrest
  exact .seq (.one hnext hx) hrest

theorem Retakes.seq {p q : Pattern} {t u : Bytes} (hp : p.Retakes t) (hq : q.Retakes u) :
    (Pattern.seq p q).Retakes (t ++ u) := by
  intro d r hd
  rw [List.append_assoc] at hd
  have hrest := hq (d.past t (u ++ r)) r rfl
  rw [Cursor.past_past] at hrest
  exact .seq (hp d (u ++ r) hd) hrest

theorem retakes_nothing : nothing.Retakes [] := by
  intro d r hd
  have hsame : d.past [] r = d := by
    rw [List.nil_append] at hd
    simp [Cursor.past, ← hd]
  rw [hsame]
  exact .nothing d

/-- Letters with ASCII forms only are spelled by themselves. -/
theorem Spells.map_lowerByte {cs : List Char} {t : Bytes} (h : Spells cs t)
    (hcs : ∀ ch ∈ cs, AsciiSet (CharSet.anyCase ch)) :
    t.map lowerByte = cs.map fun ch => lowerByte (charByte ch) := by
  induction h with
  | nil => rfl
  | ascii hx hch _ ih =>
    rw [List.map_cons, List.map_cons, hch, ih (List.forall_mem_cons.1 hcs).2]
  | wide hch => exact absurd (List.forall_mem_cons.1 hcs).1 hch

/-- The first letter of KEY may be the Kelvin sign, behind which the word goes on with E. -/
theorem inside_spells_key {t : Bytes} (h : Spells "KEY".toList t) :
    t.IsChain (Inside [107, 101]) ∧ (∀ y, ∀ x ∈ t.head?, Inside [107, 101] y x) ∧
      ∃ y, t.getLast? = some y ∧ isWord y = true := by
  have hrest : ∀ {u : Bytes}, Spells ['E', 'Y'] u → ∃ e y, u = [e, y] ∧ lowerByte e = 101 ∧
      isWord e = true ∧ isWord y = true := by
    intro u hu
    have hlower := hu.map_lowerByte (by decide)
    obtain ⟨e, u', rfl⟩ := List.exists_cons_of_ne_nil (l := u) (by rintro rfl; cases hlower)
    rw [List.map_cons, List.map_cons, List.cons.injEq] at hlower
    obtain ⟨y, u'', rfl⟩ := List.exists_cons_of_ne_nil (l := u') (by rintro rfl; cases hlower.2)
    obtain ⟨he, hy⟩ := hlower
    rw [List.map_cons, List.map_cons, List.cons.injEq] at hy
    obtain rfl := List.map_eq_nil_iff.1 hy.2
    refine ⟨e, y, rfl, he, ?_, ?_⟩
    · rw [← isWord_lowerByte, he]
      rfl
    · rw [← isWord_lowerByte, hy.1]
      rfl
  -- K may be spelled by a character of several bytes, none of them a word byte
  cases h with
  | @ascii _ _ k u hk hkey hu =>
    obtain ⟨e, y, rfl, he, heword, hyword⟩ := hrest hu
    have hkword : isWord k = true := by
      rw [← isWord_lowerByte, hkey]
      rfl
    refine ⟨?_, fun z x hx _ _ => ?_, y, rfl, hyword⟩
    · exact isChain_of_forall (by simp [inside_of_isWord, *])
    · obtain rfl := Option.some.inj hx
      rw [hkey]
      decide
  | @wide _ _ b v u _ hwide hu =>
    obtain ⟨e, y, rfl, he, heword, hyword⟩ := hrest hu
    have hno : ∀ x ∈ b :: v, ¬ isWord x = true := fun x hx hword =>
      UInt8.not_lt.2 (hwide x hx) (ascii_of_isWord hword)
    refine ⟨List.isChain_append.2 ⟨?_, ?_, fun z _ x hx _ _ => ?_⟩, fun z x hx _ hword => ?_, y, ?_,
      hyword⟩
    · exact isChain_of_forall fun z _ x hx _ hword => absurd hword (hno x hx)
    · exact isChain_of_forall (by simp [inside_of_isWord, *])
    · obtain rfl := Option.some.inj hx
      rw [he]
      decide
    · rw [List.cons_append, List.head?_cons] at hx
      obtain rfl := Option.some.inj hx
      exact absurd hword (hno b List.mem_cons_self)
    · rw [List.getLast?_append]
      rfl

theorem isPhrase_primaryKey : (phrase ["PRIMARY", "KEY"]).IsPhrase 112 [107, 101] := by
  intro c c' h
  obtain ⟨c₁, hprimary, h₁⟩ := leads_seqs_cons.1 h
  obtain ⟨c₂, hblanks, h₂⟩ := leads_seqs_cons.1 h₁
  obtain ⟨c₃, hkey, hnil⟩ := leads_seqs_cons.1 h₂
  obtain rfl := leads_nothing.1 hnil
  obtain ⟨t, ht, htword, htlower, htretakes⟩ :=
    leads_keyword_text (by decide) (by decide) hprimary
  obtain ⟨bl, hne, hbl, hbltakes⟩ := leads_blanks1 hblanks
  obtain ⟨u, hu, huspells, hurun⟩ := leads_keyword_spells (by decide) hkey
  obtain ⟨hchain, hhead, y, hlast, hyword⟩ := inside_spells_key huspells
  have hretakes : (seqs [keyword "PRIMARY", blanks1, phrase ["KEY"]]).Retakes
      (t ++ (bl ++ (u ++ []))) :=
    htretakes.seq ((retakes_blanks1 hne hbl).seq ((retakes_of_run hurun).seq retakes_nothing))
  rw [List.append_nil] at hretakes
  refine ⟨t ++ (bl ++ u), ht.trans (hbltakes.trans hu), ⟨?_, ⟨y, ?_, hyword⟩, ?_⟩, hretakes⟩
  · obtain ⟨x, t, rfl⟩ := List.exists_cons_of_ne_nil htword.1
    exact ⟨x, t ++ (bl ++ u), rfl, htword.2 x List.mem_cons_self, (List.cons.inj htlower).1⟩
  · rw [List.getLast?_append, List.getLast?_append, hlast]
    rfl
  · refine List.isChain_append.2 ⟨isChain_of_forall fun z hz x _ =>
      inside_of_isWord (htword.2 z hz) _ x, List.isChain_append.2 ⟨?_, hchain, fun z _ => hhead z⟩,
      fun z hz x _ => inside_of_isWord (htword.2 z (List.mem_of_getLast? hz)) _ x⟩
    refine isChain_of_forall fun z _ x hx _ hword => ?_
    exact Bool.noConfusion ((ascii_of_blank (hbl x hx)).2.2.symm.trans hword)

end Pattern

end SqlDialect
