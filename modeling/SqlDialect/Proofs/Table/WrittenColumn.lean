import SqlDialect.Proofs.Identifier.TableName
import SqlDialect.Proofs.Pattern.Phrase
import SqlDialect.Proofs.Table.Body

set_option autoImplicit false

/-! # Columns as they are written

A column is written with its name in backticks, a type of letters and perhaps a list of numbers. In
the item the name stands bare if it can, and then it could open a key or a constraint. It opens none,
whatever the reserved words leave bare, if the item is not one of those that `ReadAsColumn` sets
apart. -/

namespace SqlDialect

open Bytes

/-- A column as it is written: blanks, a name in backticks, blanks, a type of letters, perhaps numbers
between parentheses, and blanks. -/
structure WrittenColumn where
  lead : Bytes
  name : Bytes
  gap : Bytes
  type : Bytes
  numbers : Option Bytes
  trail : Bytes
  lead_blank : ∀ b ∈ lead, isBlank b = true
  name_bare : needsQuoting name = false
  gap_ne : gap ≠ []
  gap_blank : AllBlank gap
  type_ne : type ≠ []
  type_letter : ∀ b ∈ type, (isLower b || isUpper b) = true
  numbers_byte : ∀ ns ∈ numbers, ∀ b ∈ ns, (isDigit b || b == comma || isBlank b) = true
  trail_blank : ∀ b ∈ trail, isBlank b = true

namespace WrittenColumn

variable (w : WrittenColumn)

/-- The numbers behind the type; empty if there are none. -/
def args : Bytes :=
  w.numbers.getD []

/-- The list of numbers with its parentheses, if there is one. -/
def argsText : Bytes :=
  if w.numbers.isSome then openParen :: (w.args ++ [closeParen]) else []

/-- The type with its numbers. -/
def typed : Bytes :=
  w.type ++ w.argsText

/-- How the column is written. -/
def text : Bytes :=
  w.lead ++ backtick :: (w.name ++ backtick :: (w.gap ++ (w.typed ++ w.trail)))

/-- The item that is read, with the name as it appears in the output. -/
def core : Bytes :=
  quoteIdent w.name ++ (w.gap ++ w.typed)

/-- The column that is meant. -/
def column (opts : TypeOptions) : Column :=
  let col : Column :=
    { name := quoteIdent w.name, dataType := w.type.map lowerByte, args := w.args }
  { col with attrs := oneLine (col.enumConstraint opts) }

/-- The item is read as a column. The reserved words do not know `FULLTEXT` and `SPATIAL`, which open a
key if a parenthesis follows, and a word that opens a constraint does so with a dollar sign behind it
as well. -/
def ReadAsColumn : Prop :=
  (w.numbers.isSome → w.name.map lowerByte ∉ [ascii "fulltext", ascii "spatial"]) ∧
    ∀ word ∈ [ascii "constraint$", ascii "foreign$", ascii "check$"], ¬ word <+: w.name.map lowerByte

instance : Decidable w.ReadAsColumn :=
  inferInstanceAs (Decidable (_ ∧ _))

/-! ## The item in the body -/

theorem nameWord : NameWord w.name where
  ne_nil := by
    intro hnil
    have hbare := w.name_bare
    rw [hnil] at hbare
    exact Bool.noConfusion hbare
  byte := isNameByte_of_needsQuoting w.name_bare

theorem type_byte {b : UInt8} (hb : b ∈ w.type) :
    (b < 128 ∧ isWord b = true) ∧ CharSet.letterAnyCase.contains b.toNat = true ∧
      (b ≠ backtick ∧ isParen b = false ∧ b ≠ comma ∧ isBlank b = false) := by
  have hletter := w.type_letter b hb
  have hword : isWord b = true := by rw [isWord, hletter, Bool.true_or, Bool.true_or]
  refine ⟨⟨ascii_of_isWord hword, hword⟩, ?_, ne_of_isWord hword rfl,
    isParen_of_other rfl rfl hword, ne_of_isWord hword rfl, not_isBlank_of_isWord hword⟩
  simp only [isLower, isUpper, Bool.or_eq_true, Bool.and_eq_true, decide_eq_true_eq,
    UInt8.le_iff_toNat_le] at hletter
  simp only [CharSet.contains, CharSet.letterAnyCase, List.any_cons, Bool.bne_false, Bool.or_eq_true,
    Bool.and_eq_true, decide_eq_true_eq]
  exact hletter.elim (fun hlower => Or.inr (Or.inl hlower)) Or.inl

theorem args_byte {b : UInt8} (hb : b ∈ w.args) :
    (b < 128 ∧ (CharSet.ofString ")").compl.contains b.toNat = true) ∧ b ≠ 95 ∧
      b ≠ backtick ∧ isParen b = false := by
  cases hnumbers : w.numbers with
  | none =>
    rw [args, hnumbers] at hb
    exact absurd hb List.not_mem_nil
  | some ns =>
    rw [args, hnumbers, Option.getD_some] at hb
    have hbyte := w.numbers_byte ns hnumbers b hb
    rw [Bool.or_eq_true, Bool.or_eq_true, beq_iff_eq] at hbyte
    rcases hbyte with (hdigit | rfl) | hblank
    · exact forall_isDigit (P := fun b =>
        (b < 128 ∧ (CharSet.ofString ")").compl.contains b.toNat = true) ∧ b ≠ 95 ∧
          b ≠ backtick ∧ isParen b = false) (by decide) hdigit
    · decide
    · exact forall_isBlank (P := fun b =>
        (b < 128 ∧ (CharSet.ofString ")").compl.contains b.toNat = true) ∧ b ≠ 95 ∧
          b ≠ backtick ∧ isParen b = false) (by decide) hblank

theorem gap_byte {b : UInt8} (hb : b ∈ w.gap) : b ≠ backtick ∧ isParen b = false ∧ b ≠ comma :=
  forall_blank (P := fun b => b ≠ backtick ∧ isParen b = false ∧ b ≠ comma) (by decide)
    (w.gap_blank b hb)

theorem argsText_byte {b : UInt8} (hb : b ∈ w.argsText) : b ≠ backtick := by
  rw [argsText] at hb
  split at hb
  · simp only [List.mem_cons, List.mem_append, List.not_mem_nil, or_false] at hb
    rcases hb with rfl | hb | rfl
    · decide
    · exact (w.args_byte hb).2.2.1
    · decide
  · exact absurd hb List.not_mem_nil

theorem plain_of_isBlank {b : UInt8} (hb : isBlank b = true) :
    b ≠ backtick ∧ isParen b = false ∧ b ≠ comma :=
  forall_isBlank (P := fun b => b ≠ backtick ∧ isParen b = false ∧ b ≠ comma) (by decide) hb

/-- What stands behind the name. -/
def behindName : Bytes :=
  w.gap ++ (w.typed ++ w.trail)

theorem backtick_notMem_behindName : backtick ∉ w.behindName := by
  intro hmem
  simp only [behindName, typed, List.mem_append] at hmem
  rcases hmem with h | (h | h) | h
  · exact (w.gap_byte h).1 rfl
  · exact (w.type_byte h).2.2.1 rfl
  · exact w.argsText_byte h rfl
  · exact (plain_of_isBlank (w.trail_blank _ h)).1 rfl

theorem backtick_notMem_lead : backtick ∉ w.lead :=
  fun hmem => (plain_of_isBlank (w.lead_blank _ hmem)).1 rfl

theorem backtick_notMem_name : backtick ∉ w.name :=
  fun hmem => (plain_of_isNameByte (w.nameWord.byte _ hmem)).2.2.1 rfl

theorem namesClosed_text : NamesClosed w.text := by
  have hname := List.count_eq_zero.2 w.backtick_notMem_name
  have hlead := List.count_eq_zero.2 w.backtick_notMem_lead
  have hbehind := List.count_eq_zero.2 w.backtick_notMem_behindName
  rw [behindName] at hbehind
  rw [NamesClosed, text, List.count_append, List.count_cons_self, List.count_append,
    List.count_cons_self, hname, hlead, hbehind]

theorem replaceBackticks_text : replaceBackticks w.text = w.lead ++ (w.core ++ w.trail) := by
  have hbehind : replaceBackticks w.behindName = w.behindName := by
    have happend := replaceBackticks_append w.backtick_notMem_behindName []
    rwa [List.append_nil, replaceBackticks_nil, List.append_nil] at happend
  rw [behindName] at hbehind
  rw [text, replaceBackticks_append w.backtick_notMem_lead,
    replaceBackticks_name w.backtick_notMem_name, hbehind, core]
  simp only [List.append_assoc]

theorem plain_front {b : UInt8} (hb : b ∈ w.lead ++ (quoteIdent w.name ++ (w.gap ++ w.type))) :
    isParen b = false ∧ b ≠ comma := by
  have hname : ∀ b ∈ quoteIdent w.name, isParen b = false ∧ b ≠ comma := by
    intro b hb
    rcases byte_of_mem_quoteIdent w.nameWord hb with rfl | hbyte
    · decide
    · exact forall_isNameByte (P := fun b => isParen b = false ∧ b ≠ comma)
        (fun _ hword => ⟨isParen_of_other rfl rfl hword, ne_of_isWord hword rfl⟩) (by decide) hbyte
  simp only [List.mem_append] at hb
  rcases hb with hb | hb | hb | hb
  · exact (plain_of_isBlank (w.lead_blank b hb)).2
  · exact hname b hb
  · exact (w.gap_byte hb).2
  · obtain ⟨hparen, hcomma, -⟩ := (w.type_byte hb).2.2.2
    exact ⟨hparen, hcomma⟩

theorem balanced_argsText : Balanced w.argsText := by
  rw [argsText]
  split
  · have hargs : parens w.args = [] := parens_eq_nil_iff.2 fun b hb => (w.args_byte hb).2.2.2
    exact (balanced_of_parens hargs).wrap
  · exact balanced_nil

theorem closed : ClosedItem w.text where
  names := w.namesClosed_text
  balanced := by
    have hfront : parens (w.lead ++ (quoteIdent w.name ++ (w.gap ++ w.type))) = [] :=
      parens_eq_nil_iff.2 fun b hb => (w.plain_front hb).1
    have htrail : parens w.trail = [] :=
      parens_eq_nil_iff.2 fun b hb => (plain_of_isBlank (w.trail_blank b hb)).2.1
    have hall := (balanced_of_parens hfront).append
      (w.balanced_argsText.append (balanced_of_parens htrail))
    rw [w.replaceBackticks_text, core, typed]
    simpa only [List.append_assoc] using hall

/-- The item is one part of the body, whatever commas stand between its parentheses. -/
theorem splitTop_item :
    splitTop (w.lead ++ (w.core ++ w.trail)) = [w.lead ++ (w.core ++ w.trail)] := by
  have hzero : ∀ {a : Bytes}, (∀ b ∈ a, isParen b = false ∧ b ≠ comma) → ∀ s,
      splitTopFrom 0 (a ++ s) = a.foldr consPart (splitTopFrom 0 s) :=
    fun ha => splitTopFrom_append_plain fun b hb => ⟨(ha b hb).1, fun hc => absurd hc (ha b hb).2⟩
  -- nothing outside the parentheses is a comma
  have htrail : splitTopFrom 0 w.trail = [w.trail] := by
    have hplain := hzero (fun b hb => (plain_of_isBlank (w.trail_blank b hb)).2) []
    rwa [List.append_nil, splitTopFrom, foldr_consPart_singleton, List.append_nil] at hplain
  have hargs : splitTopFrom 0 (w.argsText ++ w.trail) = [w.argsText ++ w.trail] := by
    rw [argsText]
    split
    · -- between the parentheses the depth is 1, where commas do not cut
      have hinside : splitTopFrom 1 (w.args ++ closeParen :: w.trail)
          = w.args.foldr consPart (splitTopFrom 1 (closeParen :: w.trail)) :=
        splitTopFrom_append_plain (fun b hb => ⟨(w.args_byte hb).2.2.2, fun _ => Nat.one_ne_zero⟩) _
      have hclose : splitTopFrom 1 (closeParen :: w.trail) = [closeParen :: w.trail] := by
        rw [splitTopFrom, if_neg (by decide), show stepDepth 1 closeParen = 0 from rfl, htrail]
        rfl
      rw [List.cons_append, List.append_assoc, List.singleton_append, splitTopFrom,
        if_neg (by decide), show stepDepth 0 openParen = 1 from rfl, hinside, hclose,
        foldr_consPart_singleton]
      rfl
    · exact htrail
  have hall : w.lead ++ (w.core ++ w.trail)
      = w.lead ++ (quoteIdent w.name ++ (w.gap ++ w.type)) ++ (w.argsText ++ w.trail) := by
    rw [core, typed]
    simp only [List.append_assoc]
  rw [splitTop, hall, hzero fun b hb => w.plain_front hb, hargs, foldr_consPart_singleton]

theorem core_head : ∃ x s, quoteIdent w.name = x :: s ∧ isBlank x = false := by
  have hbyte : ∀ b, isNameByte b = true → isBlank b = false := fun _ =>
    forall_isNameByte (P := fun b => isBlank b = false) (fun _ => not_isBlank_of_isWord) (by decide)
  rcases rendersWord_quoteIdent w.nameWord with heq | ⟨v, heq, -, -⟩
  · obtain ⟨x, s, hs⟩ := List.exists_cons_of_ne_nil w.nameWord.ne_nil
    exact ⟨x, s, heq.trans hs, hbyte x (w.nameWord.byte x (hs ▸ List.mem_cons_self))⟩
  · exact ⟨doubleQuote, _, heq, rfl⟩

theorem core_last : ∀ b ∈ w.core.getLast?, isBlank b = false := by
  intro b hb
  rw [core, typed, argsText] at hb
  split at hb
  · have hlast : ∀ a : Bytes, a ++ openParen :: (w.args ++ [closeParen])
        = a ++ openParen :: w.args ++ [closeParen] := by
      intro a
      simp only [List.append_assoc, List.cons_append]
    rw [← List.append_assoc, ← List.append_assoc, hlast, List.getLast?_concat] at hb
    obtain rfl := Option.some.inj hb
    rfl
  · rw [List.append_nil, List.getLast?_append, List.getLast?_append,
      List.getLast?_eq_some_getLast w.type_ne] at hb
    obtain rfl := Option.some.inj hb
    exact (w.type_byte (List.getLast_mem w.type_ne)).2.2.2.2.2

/-- The body has one item for the column. -/
theorem bodyItems_text : bodyItems (replaceBackticks w.text) = [w.core] := by
  obtain ⟨x, s, hname, hx⟩ := w.core_head
  have hne : w.core ≠ [] := by
    rw [core, hname]
    exact List.cons_ne_nil _ _
  have hleft : trimLeft (w.lead ++ (w.core ++ w.trail)) = w.core ++ w.trail := by
    refine dropWhile_padded w.lead_blank (fun b hb => ?_) hne _
    rw [core, hname] at hb
    obtain rfl := Option.some.inj hb
    exact hx
  have hright : trimRight (w.core ++ w.trail) = w.core := by
    have hpadded : (w.trail.reverse ++ (w.core.reverse ++ [])).dropWhile isBlank
        = w.core.reverse ++ [] :=
      dropWhile_padded (fun b hb => w.trail_blank b (List.mem_reverse.1 hb))
        (fun b hb => w.core_last b (by rwa [List.head?_reverse] at hb)) (by simpa using hne) []
    rw [List.append_nil] at hpadded
    rw [trimRight, dropTailWhile, List.reverse_append, hpadded, List.reverse_reverse]
  have hcore : (Spaced.ofText (w.lead ++ (w.core ++ w.trail))).core = w.core := by
    rw [Spaced.ofText, hleft, hright]
  have hkept : (!w.core.isEmpty) = true := by simpa using hne
  rw [w.replaceBackticks_text, bodyItems, items, w.splitTop_item, List.map_singleton,
    List.map_singleton, hcore]
  exact List.filter_eq_self.2 fun b hb => List.mem_singleton.1 hb ▸ hkept

/-! ## No key and no constraint -/

/-- The words that open a key or a constraint, but for `FULLTEXT` and `SPATIAL`. -/
def bodyWords : List String :=
  ["CONSTRAINT", "PRIMARY", "FOREIGN", "CHECK", "UNIQUE", "KEY", "INDEX"]

theorem reserved_of_mem_bodyWords : ∀ word ∈ bodyWords,
    Pattern.IsKeyword word ∧ (ascii word).map lowerByte ∈ reservedWords := by
  decide +kernel

/-- A name that stands bare is none of the reserved words. -/
theorem notMem_reservedWords (hbare : quoteIdent w.name = w.name) :
    w.name.map lowerByte ∉ reservedWords := by
  intro hmem
  have hcontains : reservedWords.contains (toLower w.name) = true := by
    rw [w.nameWord.toLower]
    exact List.contains_iff_mem.2 hmem
  have hquoted : quoteIdent w.name = doubleQuoted w.name ∨
      quoteIdent w.name = doubleQuote :: toLower w.name ++ [doubleQuote] := by
    rw [quoteIdent]
    split
    · exact Or.inl rfl
    · exact Or.inr rfl
  have hquote : doubleQuote ∈ w.name := by
    rw [← hbare]
    rcases hquoted with heq | heq <;> rw [heq] <;> exact List.mem_cons_self
  exact w.nameWord.quote_notMem hquote

theorem exists_typed : ∃ x s, w.typed = x :: s ∧ x < 128 ∧ isWord x = true := by
  obtain ⟨x, s, hs⟩ := List.exists_cons_of_ne_nil w.type_ne
  have hx := (w.type_byte (hs ▸ List.mem_cons_self : x ∈ w.type)).1
  exact ⟨x, s ++ w.argsText, by rw [typed, hs, List.cons_append], hx⟩

theorem exists_gap : ∃ g gs, w.gap = g :: gs ∧ CharSet.blank.contains g.toNat = true := by
  obtain ⟨g, gs, hg⟩ := List.exists_cons_of_ne_nil w.gap_ne
  exact ⟨g, gs, hg, w.gap_blank g (hg ▸ List.mem_cons_self)⟩

section

open Pattern

variable {w} {c c' : Cursor}

/-- No key opens in front of the type: a letter follows the blanks, and no parenthesis. -/
theorem not_leads_call {u : Bytes} (hu : openParen ∉ u) (hrest : c.rest = u ++ (w.gap ++ w.typed))
    {p : Pattern} (hp : p.avoids [9, 10, 12, 13, 32] = true) (ps : List Pattern) :
    ¬ Leads (seqs (p :: .blanks :: .text "(" :: ps)) c c' := by
  intro h
  obtain ⟨c₁, hfirst, h₁⟩ := leads_seqs_cons.1 h
  obtain ⟨c₂, hblanks, h₂⟩ := leads_seqs_cons.1 h₁
  obtain ⟨c₃, hparen, -⟩ := leads_seqs_cons.1 h₂
  obtain ⟨t, ht⟩ := hfirst.takes
  obtain ⟨bl, hbl, hbltakes⟩ := leads_blanks hblanks
  obtain ⟨g, gs, hgap, hg⟩ := w.exists_gap
  obtain ⟨x, s, htyped, hx⟩ := w.exists_typed
  have hopen : c₂.rest = openParen :: c₃.rest := (leads_text (by decide) hparen).rest
  have hgt : g ∉ t := fun hmem =>
    Bool.noConfusion (hg.symm.trans (unblank_of_leads hp hfirst ht g hmem))
  have hall : u ++ g :: (gs ++ w.typed) = t ++ (bl ++ openParen :: c₃.rest) := by
    rw [← hopen, ← hbltakes.rest, ← ht.rest, hrest, hgap, List.cons_append]
  -- what is taken first ends in front of the gap, and the blanks end where the gap does
  obtain ⟨a, rfl, ha⟩ := prefix_of_separator hgt hall
  have hopenNot : openParen ∉ a := fun hmem => hu (List.mem_append_right t hmem)
  obtain ⟨bl', rfl, hbl'⟩ := prefix_of_separator hopenNot ha
  have hgapBlank : AllBlank (g :: gs) := hgap ▸ w.gap_blank
  rw [htyped, ← List.cons_append] at hbl'
  obtain ⟨rfl, -⟩ := blank_append_inj hgapBlank (fun b hb => hbl b (List.mem_append_right a hb))
    (not_blank_of_isWord hx.2) (by decide) hbl'
  exact Bool.noConfusion hx.2

variable (w) in
/-- Behind the word at the start of the name stands a dollar sign or the gap. -/
theorem endsWord_behindWord : EndsWord (w.name.dropWhile isWord ++ (w.gap ++ w.typed)) := by
  intro x hx
  cases hleft : w.name.dropWhile isWord with
  | nil =>
    obtain ⟨g, gs, hgap, hg⟩ := w.exists_gap
    rw [hleft, hgap] at hx
    obtain rfl := Option.some.inj hx
    exact ⟨(ascii_of_blank hg).1, (ascii_of_blank hg).2.2⟩
  | cons y left =>
    rw [hleft] at hx
    obtain rfl := Option.some.inj hx
    have hmem : y ∈ w.name := (List.dropWhile_suffix _).subset (hleft ▸ List.mem_cons_self)
    have hne : w.name.dropWhile isWord ≠ [] := by
      rw [hleft]
      exact List.cons_ne_nil _ _
    have hhead := List.head_dropWhile_not isWord hne
    simp only [hleft, List.head_cons] at hhead
    exact ⟨(w.nameWord.solid.2 y hmem).1, hhead⟩

/-- A keyword at the item is the start of the bare name. -/
theorem exists_of_leads_keyword {word : String} (hword : IsKeyword word) (hrest : c.rest = w.core)
    (h : Leads (keyword word) c c') :
    ∃ t left, quoteIdent w.name = w.name ∧ w.name = t ++ left ∧
      t.map lowerByte = (ascii word).map lowerByte ∧ c.Takes t c' ∧
      c'.rest = left ++ (w.gap ++ w.typed) := by
  rcases rendersWord_quoteIdent w.nameWord with heq | ⟨v, heq, -, -⟩
  · have hsplit : c.rest = w.name.takeWhile isWord ++
        (w.name.dropWhile isWord ++ (w.gap ++ w.typed)) := by
      rw [hrest, core, heq]
      conv_lhs => rw [← List.takeWhile_append_dropWhile (p := isWord) (l := w.name)]
      rw [List.append_assoc]
    obtain ⟨t, t', hparts, hlower, htakes⟩ := leads_keyword_word hword
      (fun b hb => List.all_eq_true.1 List.all_takeWhile b hb) w.endsWord_behindWord hsplit h
    refine ⟨t, t' ++ w.name.dropWhile isWord, heq, ?_, hlower, htakes, ?_⟩
    · rw [← List.append_assoc, ← hparts, List.takeWhile_append_dropWhile]
    · have hall := htakes.rest
      rw [hsplit, hparts, List.append_assoc] at hall
      rw [← List.append_cancel_left hall, List.append_assoc]
  · -- no keyword starts with a quote
    refine absurd h (not_leads_keyword hword fun x hx => ?_)
    rw [hrest, core, heq] at hx
    obtain rfl := Option.some.inj hx
    decide

/-- A reserved word has no blank behind it: it does not stand bare as the whole name. -/
theorem not_leads_blanks1 {word : String} (hmem : word ∈ bodyWords) (hrest : c.rest = w.core)
    (h : Leads (keyword word) c c') (c'' : Cursor) : ¬ Leads .blanks1 c' c'' := by
  intro hblanks
  obtain ⟨hword, hreserved⟩ := reserved_of_mem_bodyWords word hmem
  obtain ⟨t, left, hbare, hname, hlower, -, hleft⟩ := exists_of_leads_keyword hword hrest h
  obtain ⟨bl, hne, hbl, htakes⟩ := leads_blanks1 hblanks
  cases left with
  | nil =>
    rw [List.append_nil] at hname
    refine w.notMem_reservedWords hbare ?_
    rw [hname, hlower]
    exact hreserved
  | cons x left =>
    obtain ⟨y, bl, rfl⟩ := List.exists_cons_of_ne_nil hne
    have hxy : x = y := by
      have hall := hleft.symm.trans htakes.rest
      rw [List.cons_append, List.cons_append] at hall
      exact (List.cons.inj hall).1
    have hx := forall_isNameByte (P := fun b => CharSet.blank.contains b.toNat = false)
      (fun _ => not_blank_of_isWord) (by decide) (w.nameWord.byte x (by rw [hname]; simp))
    rw [hxy, hbl y List.mem_cons_self] at hx
    exact Bool.noConfusion hx

/-- A word of its own that is not the whole name has a dollar sign behind it. -/
theorem exists_dollar {word : String} (hword : IsKeyword word)
    (hnot : quoteIdent w.name = w.name → w.name.map lowerByte ≠ (ascii word).map lowerByte)
    (hrest : c.rest = w.core) (h : Leads (keyword word) c c') (hedge : c'.atWordEdge = true) :
    ∃ left, c'.rest = 36 :: left ++ (w.gap ++ w.typed) ∧ openParen ∉ 36 :: left ∧
      (ascii word).map lowerByte ++ [36] <+: w.name.map lowerByte := by
  obtain ⟨t, left, hbare, hname, hlower, htakes, hleft⟩ := exists_of_leads_keyword hword hrest h
  cases left with
  | nil =>
    rw [List.append_nil] at hname
    exact absurd (by rw [hname, hlower]) (hnot hbare)
  | cons x left =>
    have hbyte : ∀ b ∈ x :: left, isNameByte b = true :=
      fun b hb => w.nameWord.byte b (by rw [hname]; exact List.mem_append_right t hb)
    have hne := map_lowerByte_ne_nil hword hlower
    have htword : IsWord t := hword.isWord.of_map_lowerByte hlower
    have hprev : c'.prev.any isWord = true := by
      rw [htakes.prev, List.getLast?_eq_some_getLast hne, Option.some_or, Option.any_some]
      exact htword.2 _ (List.getLast_mem hne)
    rw [Cursor.atWordEdge, hprev, hleft, List.cons_append, List.head?_cons, Option.any_some] at hedge
    have hdollar := hbyte x List.mem_cons_self
    rw [isNameByte_eq, show isWord x = false by simpa using hedge, Bool.false_or, beq_iff_eq] at hdollar
    subst hdollar
    refine ⟨left, hleft, fun hmem => Bool.noConfusion (hbyte openParen hmem), ?_⟩
    rw [hname, List.map_append, hlower, List.map_cons]
    exact ⟨left.map lowerByte, by simp [lowerByte, isUpper]⟩

/-- The item has no word CONSTRAINT with a name in front. -/
theorem leads_constraintLead (hrest : c.rest = w.core) (h : Leads constraintLead c c') : c' = c := by
  rcases leads_alt.1 h with hlead | hnone
  · obtain ⟨c₁, hkey, h₁⟩ := leads_seqs_cons.1 hlead
    obtain ⟨c₂, hopt, h₂⟩ := leads_seqs_cons.1 h₁
    have hblanks : ∀ c'', ¬ Leads .blanks1 c₁ c'' :=
      not_leads_blanks1 (by decide) hrest hkey
    rcases leads_alt.1 hopt with hname | hnone
    · obtain ⟨c₃, hblank, -⟩ := leads_seq.1 hname
      exact absurd hblank (hblanks c₃)
    · obtain rfl := leads_nothing.1 hnone
      obtain ⟨c₃, hblank, -⟩ := leads_seqs_cons.1 h₂
      exact absurd hblank (hblanks c₃)
  · exact leads_nothing.1 hnone

/-- Keywords of which none is the name take a part of it, up to a dollar sign. -/
theorem exists_rest_of_leads_kind {words : List String} {n : Nat} (hne : words ≠ [])
    (hwords : ∀ word ∈ words, IsKeyword word ∧ (quoteIdent w.name = w.name →
      w.name.map lowerByte ≠ (ascii word).map lowerByte))
    (hrest : c.rest = w.core)
    (h : Leads (seqs [group n (keywords words), .wordEdge, .blanks]) c c') :
    ∃ left, c'.rest = 36 :: left ++ (w.gap ++ w.typed) ∧ openParen ∉ 36 :: left := by
  obtain ⟨c₁, hkind, h₁⟩ := leads_seqs_cons.1 h
  obtain ⟨d, hkeys, rfl⟩ := leads_group.1 hkind
  obtain ⟨c₂, hedge, h₂⟩ := leads_seqs_cons.1 h₁
  obtain ⟨rfl, hedge'⟩ := leads_wordEdge.1 hedge
  obtain ⟨c₃, hblanks, hnil⟩ := leads_seqs_cons.1 h₂
  obtain rfl := leads_nothing.1 hnil
  obtain ⟨word, hword, hkey⟩ := leads_keywords hne hkeys
  obtain ⟨left, hleft, hopen, -⟩ :=
    exists_dollar (hwords word hword).1 (hwords word hword).2 hrest hkey hedge'
  -- a dollar sign is no blank
  obtain ⟨bl, hbl, htakes⟩ := leads_blanks hblanks
  have hall : 36 :: left ++ (w.gap ++ w.typed) = bl ++ c'.rest := hleft.symm.trans htakes.rest
  cases bl with
  | nil => exact ⟨left, hall.symm, hopen⟩
  | cons y bl =>
    obtain rfl : 36 = y := (List.cons.inj hall).1
    exact Bool.noConfusion (hbl 36 List.mem_cons_self)

theorem ne_of_mem_bodyWords {word : String} (hmem : word ∈ bodyWords) :
    quoteIdent w.name = w.name → w.name.map lowerByte ≠ (ascii word).map lowerByte :=
  fun hbare heq => w.notMem_reservedWords hbare (heq ▸ (reserved_of_mem_bodyWords word hmem).2)

variable (w)

/-- The item is no primary key. -/
theorem find?_primaryKeyPattern : primaryKeyPattern.find? w.core = none := by
  rw [Option.eq_none_iff_forall_ne_some]
  intro m hm
  obtain ⟨c', hleads, -⟩ := leads_of_textStart hm
  obtain ⟨c₁, hlead, h₁⟩ := leads_seqs_cons.1 hleads
  obtain rfl := leads_constraintLead rfl hlead
  obtain ⟨c₂, hphrase, -⟩ := leads_seqs_cons.1 h₁
  obtain ⟨c₃, hkey, h₃⟩ := leads_seqs_cons.1 hphrase
  obtain ⟨c₄, hblanks, -⟩ := leads_seqs_cons.1 h₃
  exact not_leads_blanks1 (by decide) rfl hkey c₄ hblanks

theorem openParen_notMem_core (hnumbers : w.numbers.isSome = false) : openParen ∉ w.core := by
  intro hmem
  have hfront : openParen ∈ w.lead ++ (quoteIdent w.name ++ (w.gap ++ w.type)) := by
    rw [core, typed, argsText, hnumbers, if_neg Bool.false_ne_true, List.append_nil] at hmem
    exact List.mem_append_right _ hmem
  exact Bool.noConfusion (w.plain_front hfront).1

variable {w}

/-- A pattern that ends with a parenthesis needs one. -/
theorem openParen_mem_of_leads {ps : List Pattern} (h : Leads (seqs (ps ++ [.text "("])) c c') :
    openParen ∈ c.rest := by
  obtain ⟨c₁, hps, hend⟩ := (leads_seqs_append ps _).1 h
  obtain ⟨c₂, hparen, -⟩ := leads_seqs_cons.1 hend
  obtain ⟨t, ht⟩ := hps.takes
  have hopen : c₁.rest = openParen :: c₂.rest := (leads_text (by decide) hparen).rest
  rw [ht.rest, hopen]
  exact List.mem_append_right _ List.mem_cons_self

/-- Behind the words that open a key there is a rest of the name without a parenthesis. -/
theorem exists_rest_of_leads_keyWords (h : w.ReadAsColumn) (hnumbers : w.numbers.isSome = true)
    {d : Cursor} (hrest : c.rest = w.core)
    (hkind : Leads (opt (seqs [group 2 (keywords ["UNIQUE", "FULLTEXT", "SPATIAL"]), .wordEdge,
      .blanks])) c d)
    (hkey : Leads (opt (seqs [group 3 (keywords ["KEY", "INDEX"]), .wordEdge, .blanks])) d c') :
    ∃ u, openParen ∉ u ∧ c'.rest = u ++ (w.gap ++ w.typed) := by
  have hkinds : ∀ word ∈ ["UNIQUE", "FULLTEXT", "SPATIAL"], IsKeyword word ∧
      (quoteIdent w.name = w.name → w.name.map lowerByte ≠ (ascii word).map lowerByte) := by
    have hdropped := h.1 hnumbers
    intro word hword
    simp only [List.mem_cons, List.not_mem_nil, or_false] at hword
    rcases hword with rfl | rfl | rfl
    · exact ⟨by decide, ne_of_mem_bodyWords (by decide)⟩
    · exact ⟨by decide, fun _ heq => hdropped (by rw [heq]; decide)⟩
    · exact ⟨by decide, fun _ heq => hdropped (by rw [heq]; decide)⟩
  have hkeys : ∀ word ∈ ["KEY", "INDEX"], IsKeyword word ∧ word ∈ bodyWords := by decide
  rcases leads_alt.1 hkind with hkind | hnone
  · obtain ⟨left, hleft, hopen⟩ := exists_rest_of_leads_kind (by decide) hkinds hrest hkind
    rcases leads_alt.1 hkey with hkey | hnone
    · -- a dollar sign starts no word
      obtain ⟨c₁, hgroup, -⟩ := leads_seqs_cons.1 hkey
      obtain ⟨c₂, hwords, -⟩ := leads_group.1 hgroup
      obtain ⟨word, hword, hkeyword⟩ := leads_keywords (by decide) hwords
      refine absurd hkeyword (not_leads_keyword (hkeys word hword).1 fun x hx => ?_)
      rw [hleft] at hx
      obtain rfl := Option.some.inj hx
      decide
    · obtain rfl := leads_nothing.1 hnone
      exact ⟨_, hopen, hleft⟩
  · obtain rfl := leads_nothing.1 hnone
    rcases leads_alt.1 hkey with hkey | hnone
    · obtain ⟨left, hleft, hopen⟩ := exists_rest_of_leads_kind (by decide)
        (fun word hword => ⟨(hkeys word hword).1, ne_of_mem_bodyWords (hkeys word hword).2⟩)
        hrest hkey
      exact ⟨_, hopen, hleft⟩
    · obtain rfl := leads_nothing.1 hnone
      refine ⟨quoteIdent w.name, fun hmem => ?_, hrest⟩
      have hfront : openParen ∈ w.lead ++ (quoteIdent w.name ++ (w.gap ++ w.type)) :=
        List.mem_append_right _ (List.mem_append_left _ hmem)
      exact Bool.noConfusion (w.plain_front hfront).1

/-- The item is no key of another kind. -/
theorem find?_keyClausePattern (h : w.ReadAsColumn) : keyClausePattern.find? w.core = none := by
  rw [Option.eq_none_iff_forall_ne_some]
  intro m hm
  obtain ⟨c', hleads, -⟩ := leads_of_textStart hm
  -- without numbers there is no parenthesis in the item, and a key needs one
  have hnumbers : w.numbers.isSome = true := by
    rw [← Bool.not_eq_false]
    intro hnone
    exact w.openParen_notMem_core hnone (@openParen_mem_of_leads _ _ [_, _, _, _, _] hleads)
  obtain ⟨c₁, hlead, h₁⟩ := leads_seqs_cons.1 hleads
  obtain rfl := leads_constraintLead rfl hlead
  obtain ⟨c₂, hkind, h₂⟩ := leads_seqs_cons.1 h₁
  obtain ⟨c₃, hkey, hcall⟩ := leads_seqs_cons.1 h₂
  obtain ⟨u, hu, hrest⟩ := exists_rest_of_leads_keyWords h hnumbers rfl hkind hkey
  exact not_leads_call hu hrest (by decide) [] hcall

theorem keyClause?_core (h : w.ReadAsColumn) : keyClause? w.core = none := by
  rw [keyClause?, find?_keyClausePattern h, Option.filter_none]

/-- The item is no constraint. -/
theorem occursIn_constraintPattern (h : w.ReadAsColumn) : constraintPattern.occursIn w.core = false := by
  rw [Pattern.occursIn, Option.isSome_eq_false_iff, Option.isNone_iff_eq_none,
    Option.eq_none_iff_forall_ne_some]
  intro m hm
  obtain ⟨c', hleads, -⟩ := leads_of_textStart hm
  obtain ⟨c₁, hkeys, h₁⟩ := leads_seqs_cons.1 hleads
  obtain ⟨c₂, hedge, -⟩ := leads_seqs_cons.1 h₁
  obtain ⟨-, hedge⟩ := leads_wordEdge.1 hedge
  obtain ⟨word, hword, hkey⟩ := leads_keywords (by decide) hkeys
  have hwords : ∀ word ∈ ["CONSTRAINT", "FOREIGN", "CHECK"], IsKeyword word ∧ word ∈ bodyWords ∧
      (ascii word).map lowerByte ++ [36] ∈ [ascii "constraint$", ascii "foreign$", ascii "check$"] := by
    decide
  obtain ⟨hkeyword, hmem, hopens⟩ := hwords word hword
  obtain ⟨left, -, -, hprefix⟩ :=
    exists_dollar hkeyword (ne_of_mem_bodyWords hmem) rfl hkey hedge
  exact h.2 _ hopens hprefix

end

end WrittenColumn

end SqlDialect
