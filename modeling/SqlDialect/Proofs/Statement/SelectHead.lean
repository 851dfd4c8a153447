import Mathlib.Data.List.Chain
import SqlDialect.Proofs.Pattern.Context
import SqlDialect.Proofs.Pattern.Spelling
import SqlDialect.Proofs.Statement.Cut

set_option autoImplicit false

/-! # The head of a SELECT statement

A SELECT statement is cut around its select list at the first FROM outside parentheses behind SELECT
and its modifiers. None of these words holds the letters F and R next to each other, so the cut
is at the first FROM outside parentheses of the whole statement. -/

namespace SqlDialect

open Bytes

/-! ## Clauses outside parentheses -/

theorem depthAfter_append (depth : Nat) (a b : Bytes) :
    depthAfter depth (a ++ b) = depthAfter (depthAfter depth a) b :=
  List.foldl_append

theorem depthAfter_plain {a : Bytes} (ha : ∀ b ∈ a, b ≠ openParen ∧ b ≠ closeParen) (depth : Nat) :
    depthAfter depth a = depth := by
  induction a generalizing depth with
  | nil => rfl
  | cons b a ih =>
    obtain ⟨⟨hopen, hclose⟩, ha⟩ := List.forall_mem_cons.1 ha
    have hstep : stepDepth depth b = depth := by rw [stepDepth, if_neg hopen, if_neg hclose]
    rw [depthAfter, List.foldl_cons, hstep]
    exact ih ha depth

theorem firstTop_append (l left : Bytes) (depth : Nat) (ms : List Match) :
    firstTop (l ++ left) depth ms
      = (firstTop left depth ms).map fun m => { m with before := l ++ m.before } := by
  induction ms generalizing left depth with
  | nil => rfl
  | cons m ms ih =>
    rw [firstTop, firstTop]
    split
    · rw [Option.map_some, List.append_assoc]
    · rw [← ih]
      simp only [List.append_assoc]

theorem depth_of_firstTop {left : Bytes} {depth : Nat} {ms : List Match} {m : Match}
    (hleft : depthAfter 0 left = depth) (h : firstTop left depth ms = some m) :
    depthAfter 0 m.before = 0 := by
  induction ms generalizing left depth with
  | nil => cases h
  | cons m₀ ms ih =>
    rw [firstTop] at h
    split at h
    · rename_i hdepth
      obtain rfl := Option.some.inj h
      rw [depthAfter_append, hleft, hdepth]
    · exact ih (by rw [depthAfter_append, depthAfter_append, hleft]) h

/-- A clause that is found stands outside parentheses. -/
theorem depth_of_findTop? {p : Pattern} {s : Bytes} {m : Match} (h : findTop? p s = some m) :
    depthAfter 0 m.before = 0 :=
  depth_of_firstTop rfl h

/-- A text without parentheses in which no match starts can stand in front. -/
theorem findTop?_append {p : Pattern} (hp : p.Consumes) (hrun : p.leadRun? = none)
    (hfree : p.startFree = true) {a b : Bytes}
    (hlast : ∀ x, a.getLast? = some x → x < 128 ∧ isWord x = false)
    (hdepth : depthAfter 0 a = 0) (hno : p.NoMatchIn none a b) :
    findTop? p (a ++ b) = (findTop? p b).map fun m => { m with before := a ++ m.before } := by
  have hedge : (a.getLast?.or none).any isWord = (none : Option UInt8).any isWord := by
    rw [Option.or_none]
    cases ha : a.getLast? with
    | none => rfl
    | some x => exact (hlast x ha).2
  have hfind : p.findFrom? 0 none (a ++ b)
      = (p.findFrom? 0 none b).map fun m => { m with before := a ++ m.before } := by
    rw [Pattern.findFrom?_skip hrun (fun x hx => (hlast x hx).1) hno,
      Pattern.findFrom?_congr hfree hedge]
  rw [findTop?, findTop?, Pattern.all, Pattern.all]
  cases hm : p.findFrom? 0 none b with
  | none =>
    rw [hm] at hfind
    rw [Pattern.allFrom, Pattern.allFrom, hfind, hm]
    rfl
  | some m =>
    rw [hm] at hfind
    have hall := Pattern.allFrom_of_findFrom? hm (hp.after_lt hm)
    have hall' := Pattern.allFrom_of_findFrom? hfind (hp.after_lt hfind)
    rw [hall, hall', firstTop, firstTop]
    simp only [depthAfter_append, hdepth, List.nil_append]
    split
    · rfl
    · rw [List.append_assoc, firstTop_append]

section

variable {word : String} {w a : Bytes}

/-- A word is matched where it stands alone. -/
theorem matchHere?_wholeWord (hkey : Pattern.IsKeyword word) (hword : IsWord (ascii word))
    (hw : w.map lowerByte = (ascii word).map lowerByte) {prev : Option UInt8}
    (hprev : prev.any isWord = false) (hafter : a.head?.any isWord = false) :
    ∃ m, (Pattern.wholeWord word).matchHere? prev (w ++ a) = some m := by
  have hww : IsWord w := hword.of_map_lowerByte hw
  obtain ⟨x, hx⟩ := List.exists_cons_of_ne_nil hww.1
  have hhead : (w ++ a).head?.any isWord = true := by
    obtain ⟨t, rfl⟩ := hx
    exact hww.2 x List.mem_cons_self
  have hlast : w.getLast?.any isWord = true := by
    rw [List.getLast?_eq_some_getLast hww.1]
    exact hww.2 _ (List.getLast_mem hww.1)
  have hlast' : (w.getLast?.or prev).any isWord = true := by
    rw [List.getLast?_eq_some_getLast hww.1] at hlast ⊢
    exact hlast
  let c : Pattern.Cursor := { prev := prev, rest := w ++ a }
  have hopen : c.atWordEdge = true := by
    rw [Pattern.Cursor.atWordEdge, hprev, hhead]
    rfl
  have hclose : (c.past w a).atWordEdge = true := by
    rw [Pattern.Cursor.atWordEdge, show (c.past w a).prev = w.getLast?.or prev from rfl, hlast',
      show (c.past w a).rest = a from rfl, hafter]
    rfl
  have hrun : (Pattern.wholeWord word).run c some = some (c.past w a) := by
    show (if c.atWordEdge = true then (Pattern.keyword word).run c
      (fun c' => if c'.atWordEdge = true then some c' else none) else none) = _
    rw [if_pos hopen, Pattern.run_keyword hkey (c := c) rfl hw, if_pos hclose]
  exact ⟨_, by rw [Pattern.matchHere?, hrun]; rfl⟩

/-- What is matched of a word is the word, standing alone. -/
theorem Pattern.Places.wholeWord (hword : IsWord (ascii word)) (hascii : Pattern.AsciiKeyword word)
    {prev : Option UInt8} {m : Match} {c' : Pattern.Cursor}
    (hm : (Pattern.wholeWord word).Places prev m c') :
    m.text.map lowerByte = (ascii word).map lowerByte ∧
      (m.before.getLast?.or prev).any isWord = false ∧ m.after.head?.any isWord = false := by
  obtain ⟨c₁, hedge, h₁⟩ := Pattern.leads_seqs_cons.1 hm.leads
  obtain ⟨rfl, hopen⟩ := Pattern.leads_wordEdge.1 hedge
  obtain ⟨c₂, hkey, h₂⟩ := Pattern.leads_seqs_cons.1 h₁
  obtain ⟨c₃, hedge', hnil⟩ := Pattern.leads_seqs_cons.1 h₂
  obtain rfl := Pattern.leads_nothing.1 hnil
  obtain ⟨rfl, hclose⟩ := Pattern.leads_wordEdge.1 hedge'
  obtain ⟨t, htakes, ht⟩ := Pattern.leads_keyword_ascii hascii hkey
  obtain rfl := hm.takes.unique htakes
  have htext : IsWord m.text := hword.of_map_lowerByte ht
  obtain ⟨x, u, hx⟩ := List.exists_cons_of_ne_nil htext.1
  have hhead : (m.text ++ m.after).head?.any isWord = true := by
    rw [hx]
    exact htext.2 x (by rw [hx]; exact List.mem_cons_self)
  have hlast : (m.text.getLast?.or (m.before.getLast?.or prev)).any isWord = true := by
    rw [List.getLast?_eq_some_getLast htext.1]
    exact htext.2 _ (List.getLast_mem htext.1)
  rw [Pattern.Cursor.atWordEdge, hhead, bne_iff_ne, ne_eq, Bool.not_eq_true] at hopen
  rw [Pattern.Cursor.atWordEdge, htakes.prev, hlast, ← hm.after, bne_comm, bne_iff_ne, ne_eq,
    Bool.not_eq_true] at hclose
  exact ⟨ht, hopen, hclose⟩

/-- Whatever is matched of a word elsewhere, it ends in front of a place where the word stands
alone. -/
theorem eq_append_of_wholeWord (hword : IsWord (ascii word)) (hascii : Pattern.AsciiKeyword word)
    {prev : Option UInt8} {m : Match} {c' : Pattern.Cursor}
    (hm : (Pattern.wholeWord word).Places prev m c') {left right : Bytes} (hne : left ≠ [])
    (hlast : left.getLast?.any isWord = false) (h : m.text ++ m.after = left ++ right) :
    ∃ mid, mid ≠ [] ∧ left = m.text ++ mid := by
  have htext := (hword.of_map_lowerByte (hm.wholeWord hword hascii).1).2
  obtain ⟨x, hx⟩ := Option.ne_none_iff_exists'.1 (mt List.getLast?_eq_none_iff.1 hne)
  have hxword : isWord x = false := by rwa [hx] at hlast
  have hxtext : x ∉ m.text := fun hmem => Bool.noConfusion (hxword.symm.trans (htext x hmem))
  rcases List.append_eq_append_iff.1 h with ⟨mid, hleft, -⟩ | ⟨mid, htext, -⟩
  · refine ⟨mid, ?_, hleft⟩
    rintro rfl
    rw [List.append_nil] at hleft
    exact hxtext (hleft ▸ List.mem_of_getLast? hx)
  · exact absurd (htext ▸ List.mem_append_left mid (List.mem_of_getLast? hx)) hxtext

theorem exists_firstTop_wholeWord (left : Bytes) (hkey : Pattern.IsKeyword word)
    (hword : IsWord (ascii word)) (hascii : Pattern.AsciiKeyword word)
    (hw : w.map lowerByte = (ascii word).map lowerByte)
    (hafter : a.head?.any isWord = false) {before : Bytes} {prev : Option UInt8} {depth : Nat}
    (hprev : (before.getLast?.or prev).any isWord = false) (hdepth : depthAfter depth before = 0) :
    ∃ m, firstTop left depth ((Pattern.wholeWord word).allFrom prev (before ++ (w ++ a))) = some m ∧
      m.before.length ≤ left.length + before.length := by
  have hww : IsWord w := hword.of_map_lowerByte hw
  have hconsumes := Pattern.consumes_wholeWord hkey
  induction hlen : before.length using Nat.strongRecOn generalizing before left prev depth with
  | _ n ih =>
    obtain ⟨x, t, ht⟩ := List.exists_cons_of_ne_nil hww.1
    obtain ⟨m₀, hm₀⟩ := matchHere?_wholeWord hkey hword hw hprev hafter
    rw [ht, List.cons_append] at hm₀
    have hx : x < 128 := hww.ascii x (by rw [ht]; exact List.mem_cons_self)
    obtain ⟨m, hm, hle⟩ := Pattern.exists_findFrom?_le (p := .wholeWord word) rfl hx hm₀
    rw [← List.cons_append, ← ht] at hm
    rw [Pattern.allFrom_of_findFrom? hm (hconsumes.after_lt hm), firstTop]
    split
    · refine ⟨_, rfl, ?_⟩
      rw [List.length_append]
      omega
    · rename_i hhere
      -- the match is another one, further left, and the word still stands behind it
      obtain ⟨c', hplaces, -⟩ := Pattern.places_of_findFrom? hm
      have hall := Pattern.text_of_findFrom? hm
      rw [List.append_assoc] at hall
      obtain ⟨tail, rfl⟩ : m.before <+: before :=
        List.prefix_of_prefix_length_le ⟨_, hall⟩ (List.prefix_append _ _) hle
      rw [List.append_assoc, List.append_cancel_left_eq] at hall
      have hne : tail ≠ [] := by
        rintro rfl
        rw [List.append_nil] at hdepth
        exact hhere hdepth
      have hlast : tail.getLast?.any isWord = false := by
        obtain ⟨y, hy⟩ := Option.ne_none_iff_exists'.1 (mt List.getLast?_eq_none_iff.1 hne)
        rw [List.getLast?_append, hy] at hprev
        rwa [hy]
      obtain ⟨mid, hmid, rfl⟩ := eq_append_of_wholeWord hword hascii hplaces hne hlast hall
      rw [List.append_assoc, List.append_cancel_left_eq] at hall
      obtain ⟨y, hy⟩ := Option.ne_none_iff_exists'.1 (mt List.getLast?_eq_none_iff.1 hmid)
      rw [List.getLast?_append, hy] at hlast
      rw [depthAfter_append, depthAfter_append] at hdepth
      rw [hall]
      have htext := List.length_pos_iff.2 (hplaces.text_ne_nil hconsumes)
      rw [List.length_append, List.length_append] at hlen
      obtain ⟨m', hm', hle'⟩ := ih mid.length (by omega) (left ++ m.before ++ m.text)
        (by rwa [hy]) hdepth rfl
      refine ⟨m', hm', ?_⟩
      simp only [List.length_append] at hle' ⊢
      omega

/-- Where a word stands alone and outside parentheses, one is found there or further left. -/
theorem exists_findTop?_wholeWord (hkey : Pattern.IsKeyword word) (hword : IsWord (ascii word))
    (hascii : Pattern.AsciiKeyword word) (hw : w.map lowerByte = (ascii word).map lowerByte)
    (hafter : a.head?.any isWord = false) {before : Bytes}
    (hlast : before.getLast?.any isWord = false) (hdepth : depthAfter 0 before = 0) :
    ∃ m, findTop? (.wholeWord word) (before ++ (w ++ a)) = some m ∧
      m.before.length ≤ before.length := by
  obtain ⟨m, hm, hle⟩ := exists_firstTop_wholeWord [] hkey hword hascii hw hafter
    (by rwa [Option.or_none]) hdepth
  exact ⟨m, hm, by simpa using hle⟩

end

/-! ## SELECT and its modifiers -/

/-- The two bytes do not spell the start of FROM. -/
def ApartFR (x y : UInt8) : Prop :=
  ¬ (lowerByte x = 102 ∧ lowerByte y = 114)

instance (x y : UInt8) : Decidable (ApartFR x y) :=
  inferInstanceAs (Decidable (¬ _))

/-- A text without parentheses and without the start of FROM. -/
structure HeadText (t : Bytes) : Prop where
  apart : t.IsChain ApartFR
  plain : ∀ b ∈ t, b ≠ openParen ∧ b ≠ closeParen

theorem apartFR_of_blank {x : UInt8} (hx : CharSet.blank.contains x.toNat = true) (y : UInt8) :
    ApartFR x y ∧ ApartFR y x := by
  have hnot := forall_blank (P := fun x => lowerByte x ≠ 102 ∧ lowerByte x ≠ 114) (by decide) hx
  exact ⟨fun h => hnot.1 h.1, fun h => hnot.2 h.2⟩

namespace HeadText

variable {t u : Bytes}

theorem append (ht : HeadText t) (hu : HeadText u)
    (hedge : ∀ x ∈ t.getLast?, ∀ y ∈ u.head?, ApartFR x y) : HeadText (t ++ u) :=
  ⟨List.isChain_append.2 ⟨ht.apart, hu.apart, hedge⟩, fun b hb =>
    (List.mem_append.1 hb).elim (ht.plain b) (hu.plain b)⟩

theorem of_allBlank (ht : AllBlank t) : HeadText t := by
  constructor
  · induction t with
    | nil => exact .nil
    | cons x t ih =>
      obtain ⟨hx, ht⟩ := List.forall_mem_cons.1 ht
      exact List.isChain_cons.2 ⟨fun y _ => (apartFR_of_blank hx y).1, ih ht⟩
  · intro b hb
    exact forall_blank (P := fun b => b ≠ openParen ∧ b ≠ closeParen) (by decide) (ht b hb)

/-- Blanks between two texts keep them apart. -/
theorem append_blanks (ht : HeadText t) {bl : Bytes} (hbl : AllBlank bl) (hne : bl ≠ [])
    (hu : HeadText u) : HeadText (t ++ (bl ++ u)) := by
  obtain ⟨x, bl, rfl⟩ := List.exists_cons_of_ne_nil hne
  have hblank : HeadText (x :: bl ++ u) := (of_allBlank hbl).append hu fun y hy z _ =>
    (apartFR_of_blank (hbl y (List.mem_of_getLast? hy)) z).1
  refine ht.append hblank fun y _ z hz => ?_
  obtain rfl : x = z := Option.some.inj hz
  exact (apartFR_of_blank (hbl x List.mem_cons_self) y).2

theorem of_spells {cs : List Char} (h : Pattern.Spells cs t)
    (hcs : (cs.map charByte).IsChain ApartFR)
    (hword : ∀ ch ∈ cs, isWord (charByte ch) = true) : HeadText t := by
  constructor
  · induction h with
    | nil => exact .nil
    -- an ASCII byte is the letter in some case, and the next byte that of the next letter
    | @ascii ch cs x t hx hch h ih =>
      obtain ⟨hhead, hcs⟩ := List.isChain_cons.1 hcs
      refine List.isChain_cons.2 ⟨fun y hy hfr => ?_, ih hcs (List.forall_mem_cons.1 hword).2⟩
      have hy128 : y < 128 := forall_lowerByte (P := fun y => y < 128) (l := [114]) (by decide)
        (List.mem_singleton.2 hfr.2)
      obtain ⟨ch', hch', heq⟩ := h.head hy hy128
      refine hhead (charByte ch') (by rw [List.head?_map, hch']; rfl) ?_
      rw [← hch, ← heq]
      exact hfr
    -- the bytes of a wide character are no letters at all
    | @wide ch cs b u t hch hu h ih =>
      have hwide : ∀ x ∈ b :: u, ∀ y, ApartFR x y := by
        intro x hx y hfr
        exact forall_lowerByte (P := fun x => ¬ 128 ≤ x) (l := [102]) (by decide)
          (List.mem_singleton.2 hfr.1) (hu x hx)
      refine List.isChain_append.2 ⟨?_, ih (List.isChain_cons.1 hcs).2
        (List.forall_mem_cons.1 hword).2, fun x hx y _ => hwide x (List.mem_of_getLast? hx) y⟩
      generalize b :: u = v at hwide
      induction v with
      | nil => exact .nil
      | cons x v ihv =>
        obtain ⟨hx, hv⟩ := List.forall_mem_cons.1 hwide
        exact List.isChain_cons.2 ⟨fun y _ => hx y, ihv hv⟩
  · intro b hb
    by_cases hascii : b < 128
    · obtain ⟨ch, hch, heq⟩ := h.mem hb hascii
      have hb : isWord b = true := by
        rw [← isWord_lowerByte, heq, isWord_lowerByte]
        exact hword ch hch
      exact ⟨ne_of_isWord hb rfl, ne_of_isWord hb rfl⟩
    · exact ⟨by rintro rfl; exact hascii (by decide), by rintro rfl; exact hascii (by decide)⟩

end HeadText

/-- The text is the word SELECT, in any spelling that a pattern takes. -/
structure IsSelect (t : Bytes) : Prop where
  spells : Pattern.Spells "SELECT".toList t
  run : ∀ {α : Type} (k : Pattern.Cursor → Option α) (d : Pattern.Cursor) (r : Bytes),
    d.rest = t ++ r → (Pattern.keyword "SELECT").run d k = k (d.past t r)

theorem IsSelect.ne_nil {t : Bytes} (h : IsSelect t) : t ≠ [] :=
  h.spells.ne_nil (by decide)

/-- The bytes of SELECT are no blanks. -/
theorem IsSelect.unblank {t : Bytes} (h : IsSelect t) :
    ∀ x ∈ t, CharSet.blank.contains x.toNat = false :=
  h.spells.unblank (by decide)

theorem IsSelect.unblankHead {t : Bytes} (h : IsSelect t) (r : Bytes) :
    Pattern.UnblankHead (t ++ r) :=
  Pattern.unblankHead_of_unblank h.unblank h.ne_nil r

/-- The statement starts with SELECT and a blank. -/
def StartsSelect (s : Bytes) : Prop :=
  ∃ (bl sel : Bytes) (b : UInt8) (rest : Bytes), AllBlank bl ∧ IsSelect sel ∧
    CharSet.blank.contains b.toNat = true ∧ s = bl ++ (sel ++ b :: rest)

/-- The modifiers behind SELECT, each with the blanks behind it. -/
theorem leads_modifiers {c c' : Pattern.Cursor}
    (h : Pattern.Leads (.many (.seqs [.keywords selectModifiers, .blanks1])) c c') :
    ∃ t, c.Takes t c' ∧ HeadText t ∧ ∀ x ∈ t.getLast?, CharSet.blank.contains x.toNat = true := by
  generalize hp : Pattern.many (.seqs [.keywords selectModifiers, .blanks1]) = p at h
  induction h with
  | manyNone => exact ⟨[], .refl _, ⟨.nil, fun _ h => absurd h List.not_mem_nil⟩, fun x hx => by cases hx⟩
  | manyMore hone _ _ ih =>
    cases hp
    obtain ⟨t, htakes, ht, hlast⟩ := ih rfl
    obtain ⟨c₁, hkeys, h₁⟩ := Pattern.leads_seqs_cons.1 hone
    obtain ⟨c₂, hblanks, hnil⟩ := Pattern.leads_seqs_cons.1 h₁
    obtain rfl := Pattern.leads_nothing.1 hnil
    obtain ⟨word, hword, hkey⟩ := Pattern.leads_keywords (by decide) hkeys
    have hmodifier : ∀ word ∈ selectModifiers, (∀ ch ∈ word.toList, ch.toNat < 128) ∧
        (word.toList.map charByte).IsChain ApartFR ∧
        ∀ ch ∈ word.toList, isWord (charByte ch) = true := by
      decide
    obtain ⟨hascii, hchain, hletters⟩ := hmodifier word hword
    obtain ⟨w, hw, hspells, -⟩ := Pattern.leads_keyword_spells hascii hkey
    obtain ⟨bl, hne, hbl, hblTakes⟩ := Pattern.leads_blanks1 hblanks
    refine ⟨w ++ (bl ++ t), hw.trans (hblTakes.trans htakes),
      (HeadText.of_spells hspells hchain hletters).append_blanks hbl hne ht, fun x hx => ?_⟩
    rw [← List.append_assoc, List.getLast?_append] at hx
    cases htlast : t.getLast? with
    | some y =>
      rw [htlast] at hx
      exact hlast x (htlast ▸ hx)
    | none =>
      rw [htlast, Option.none_or, List.getLast?_append] at hx
      obtain ⟨y, hy⟩ := Option.ne_none_iff_exists'.1 (mt List.getLast?_eq_none_iff.1 hne)
      rw [hy] at hx
      obtain rfl := Option.some.inj hx
      exact hbl y (List.mem_of_getLast? hy)
  | _ => cases hp

/-- The head of a SELECT statement. -/
theorem find?_selectHead {s : Bytes} {m : Match} (h : selectHeadPattern.find? s = some m) :
    s = m.text ++ m.after ∧ HeadText m.text ∧ StartsSelect s ∧
      ∃ x, m.text.getLast? = some x ∧ CharSet.blank.contains x.toNat = true := by
  obtain ⟨c', hplaces, -⟩ := Pattern.places_of_findFrom? h
  have hs := Pattern.text_of_find? h
  obtain ⟨c₁, hstart, h₁⟩ := Pattern.leads_seqs_cons.1 hplaces.leads
  obtain ⟨c₂, hblanks, h₂⟩ := Pattern.leads_seqs_cons.1 h₁
  obtain ⟨c₃, hkey, h₃⟩ := Pattern.leads_seqs_cons.1 h₂
  obtain ⟨c₄, hblanks', h₄⟩ := Pattern.leads_seqs_cons.1 h₃
  obtain ⟨c₅, hmods, hnil⟩ := Pattern.leads_seqs_cons.1 h₄
  obtain rfl := Pattern.leads_nothing.1 hnil
  cases hstart with
  | textStart hprev =>
    obtain ⟨bl, hbl, hblTakes⟩ := Pattern.leads_blanks hblanks
    obtain ⟨sel, hsel, hspells, hrun⟩ := Pattern.leads_keyword_spells (by decide) hkey
    obtain ⟨bl', hne, hbl', hbl'Takes⟩ := Pattern.leads_blanks1 hblanks'
    obtain ⟨mods, hmodsTakes, hmods, hlast⟩ := leads_modifiers hmods
    have htext : m.text = bl ++ (sel ++ (bl' ++ mods)) :=
      hplaces.takes.unique (hblTakes.trans (hsel.trans (hbl'Takes.trans hmodsTakes)))
    rw [Pattern.before_eq_nil h, List.nil_append] at hs
    refine ⟨hs.symm, ?_, ?_, ?_⟩
    · rw [htext]
      refine (HeadText.of_allBlank hbl).append ?_ fun x hx y _ =>
        (apartFR_of_blank (hbl x (List.mem_of_getLast? hx)) y).1
      exact (HeadText.of_spells hspells (by decide) (by decide)).append_blanks hbl' hne hmods
    · obtain ⟨b, bl', rfl⟩ := List.exists_cons_of_ne_nil hne
      refine ⟨bl, sel, b, bl' ++ (mods ++ m.after), hbl, ⟨hspells, hrun⟩,
        hbl' b List.mem_cons_self, ?_⟩
      rw [← hs, htext]
      simp only [List.append_assoc, List.cons_append]
    · obtain ⟨y, hy⟩ := Option.ne_none_iff_exists'.1 (mt List.getLast?_eq_none_iff.1 hne)
      have hylast : m.text.getLast? = mods.getLast?.or (some y) := by
        rw [htext, List.getLast?_append, List.getLast?_append, List.getLast?_append, hy]
        cases mods.getLast? <;> rfl
      cases hmodsLast : mods.getLast? with
      | none => exact ⟨y, by rw [hylast, hmodsLast]; rfl, hbl' y (List.mem_of_getLast? hy)⟩
      | some x => exact ⟨x, by rw [hylast, hmodsLast]; rfl, hlast x hmodsLast⟩

/-- FROM does not start in the head of a statement. -/
theorem HeadText.noMatchIn {t : Bytes} (ht : HeadText t) {x : UInt8} (hlast : t.getLast? = some x)
    (hx : CharSet.blank.contains x.toNat = true) (r : Bytes) :
    Clause.fromPattern.NoMatchIn none t r := by
  intro a₁ y a₂ h
  rw [Option.eq_none_iff_forall_ne_some]
  intro m hm
  obtain ⟨c', hplaces, -⟩ := Pattern.places_of_findFrom? (Pattern.findFrom?_of_matchHere? hm)
  have htext := Pattern.text_of_matchHere? hm
  obtain ⟨-, -, -, hbefore, -⟩ := Pattern.leads_of_matchHere? hm
  have hfrom := (hplaces.wholeWord (by decide) (by decide)).1
  rw [hbefore, List.nil_append] at htext
  obtain ⟨f, u, hfu⟩ : ∃ f u, m.text = f :: u := by
    cases hnil : m.text with
    | nil => rw [hnil] at hfrom; exact absurd hfrom (by decide)
    | cons f u => exact ⟨f, u, rfl⟩
  obtain ⟨g, v, rfl⟩ : ∃ g v, u = g :: v := by
    cases u with
    | nil => rw [hfu] at hfrom; cases (List.cons.inj hfrom).2
    | cons g v => exact ⟨g, v, rfl⟩
  rw [hfu] at hfrom htext
  have hf : lowerByte f = 102 := (List.cons.inj hfrom).1
  have hg : lowerByte g = 114 := (List.cons.inj (List.cons.inj hfrom).2).1
  obtain ⟨rfl, hrest⟩ := List.cons.inj htext
  cases a₂ with
  | nil =>
    -- the head ends in a blank
    rw [h, List.getLast?_append] at hlast
    obtain rfl : f = x := Option.some.inj hlast
    exact forall_blank (P := fun f => lowerByte f ≠ 102) (by decide) hx hf
  | cons z a₂ =>
    obtain ⟨rfl, -⟩ := List.cons.inj hrest
    rw [h] at ht
    obtain ⟨-, hchain, -⟩ := List.isChain_append.1 ht.apart
    exact (List.isChain_cons.1 hchain).1 g rfl ⟨hf, hg⟩

/-- The first FROM behind the head of a statement is the first of the statement. -/
theorem findTop?_from {s : Bytes} {m : Match} (h : selectHeadPattern.find? s = some m) :
    findTop? Clause.fromPattern s
      = (findTop? Clause.fromPattern m.after).map fun f => { f with before := m.text ++ f.before } := by
  obtain ⟨hs, hhead, -, x, hlast, hx⟩ := find?_selectHead h
  have hfind := findTop?_append (p := Clause.fromPattern) (a := m.text) (b := m.after)
    (Pattern.consumes_wholeWord (by decide)) rfl rfl (fun y hy => by
      obtain rfl := Option.some.inj (hlast.symm.trans hy)
      exact ⟨(ascii_of_blank hx).1, (ascii_of_blank hx).2.2⟩)
    (depthAfter_plain hhead.plain 0) (hhead.noMatchIn hlast hx m.after)
  rwa [← hs] at hfind

theorem isSome_repeatGreedy {α : Type}
    (body : Pattern.Cursor → (Pattern.Cursor → Option α) → Option α)
    {k : Pattern.Cursor → Option α} (hk : ∀ c, (k c).isSome) (left : Bytes) (c : Pattern.Cursor) :
    (Pattern.repeatGreedy body k left c).isSome := by
  cases left with
  | nil => exact hk c
  | cons b left =>
    rw [Pattern.repeatGreedy]
    split
    · rfl
    · exact hk c

/-- A statement that starts with SELECT and a blank has a head. -/
theorem StartsSelect.find? {s : Bytes} (h : StartsSelect s) :
    ∃ m, selectHeadPattern.find? s = some m := by
  obtain ⟨bl, sel, b, rest, hbl, hsel, hb, rfl⟩ := h
  have hunblank := hsel.unblankHead (b :: rest)
  let mods : Pattern := .seqs [.many (.seqs [.keywords selectModifiers, .blanks1])]
  have hfind := Pattern.find?_atStart [.keyword "SELECT", .blanks1,
    .many (.seqs [.keywords selectModifiers, .blanks1])] (bl ++ (sel ++ b :: rest))
  have hmods : ∀ c : Pattern.Cursor, (mods.run c some).isSome := fun c =>
    isSome_repeatGreedy _ (fun _ => rfl) c.rest c
  have hblanks : ∀ c : Pattern.Cursor, c.rest = b :: rest →
      (Pattern.blanks1.run c fun c' => mods.run c' some).isSome := by
    intro c hc
    rw [Pattern.blanks1, Pattern.many1, Pattern.run, Pattern.run_one hc (ascii_of_blank hb).1,
      if_pos hb]
    exact isSome_repeatGreedy _ hmods _ _
  have hrun : ((Pattern.seqs [.keyword "SELECT", .blanks1,
      .many (.seqs [.keywords selectModifiers, .blanks1])]).run
        { prev := bl.getLast?, rest := sel ++ b :: rest, taken := bl.length } some).isSome := by
    have hkey := hsel.run (fun c => Pattern.blanks1.run c fun c' => mods.run c' some)
      { prev := bl.getLast?, rest := sel ++ b :: rest, taken := bl.length } (b :: rest) rfl
    have hnext := hblanks ((Pattern.Cursor.past
      { prev := bl.getLast?, rest := sel ++ b :: rest, taken := bl.length } sel (b :: rest))) rfl
    rw [← hkey] at hnext
    exact hnext
  have hstart := Pattern.run_atStart
    (Pattern.startsUnblank_keyword (s := "SELECT") (by decide) [.blanks1,
      .many (.seqs [.keywords selectModifiers, .blanks1])]) hbl hunblank
  rw [← hstart] at hrun
  obtain ⟨c, hc⟩ := Option.isSome_iff_exists.1 hrun
  rw [Pattern.matchHere?, hc] at hfind
  exact ⟨_, hfind⟩

/-- A statement that starts with SELECT is cut at its first FROM outside parentheses. -/
theorem StartsSelect.ofText? {s : Bytes} (h : StartsSelect s) {f : Match}
    (hf : findTop? Clause.fromPattern s = some f) :
    ∃ p, SelectParts.ofText? s = some p ∧ p.head ++ p.list = f.before ∧ p.tail = f.text ++ f.after := by
  obtain ⟨m, hm⟩ := h.find?
  rw [findTop?_from hm] at hf
  obtain ⟨f', hf', rfl⟩ := Option.map_eq_some_iff.1 hf
  exact ⟨⟨m.text, f'.before, f'.text ++ f'.after⟩, by rw [SelectParts.ofText?, hm, Option.map_some, hf'],
    rfl, rfl⟩

/-- A statement reads from a table if it starts with SELECT and has a FROM outside parentheses. -/
theorem readsTable_iff {s : Bytes} :
    readsTable s = true ↔ StartsSelect s ∧ ∃ f, findTop? Clause.fromPattern s = some f := by
  constructor
  · intro h
    rw [readsTable, Option.any_eq_true] at h
    obtain ⟨p, hp, htail⟩ := h
    obtain ⟨m, hm, rfl⟩ := Option.map_eq_some_iff.1 hp
    obtain ⟨-, -, hstart, -⟩ := find?_selectHead hm
    refine ⟨hstart, ?_⟩
    rw [findTop?_from hm]
    cases hfrom : findTop? Clause.fromPattern m.after with
    | none =>
      rw [hfrom] at htail
      exact absurd htail (by simp)
    | some f => exact ⟨_, rfl⟩
  · rintro ⟨hstart, f, hf⟩
    obtain ⟨p, hp, -, htail⟩ := hstart.ofText? hf
    obtain ⟨-, c', hplaces⟩ := Pattern.places_of_findTop? (Pattern.consumes_wholeWord (by decide)) hf
    have hne := hplaces.text_ne_nil (Pattern.consumes_wholeWord (by decide))
    rw [readsTable, hp, Option.any_some, htail]
    simp [hne]

end SqlDialect
