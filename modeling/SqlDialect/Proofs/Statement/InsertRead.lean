import SqlDialect.Proofs.Statement.Cut
import SqlDialect.Proofs.Statement.InsertHead
import SqlDialect.Statement.Kind

set_option autoImplicit false

/-! # Reading the head of an INSERT statement

The head of an INSERT statement, without its backticks, is read as it was written: the table, the
columns in their order, and no IGNORE. A statement with such a head is of the kind for inserts. -/

namespace SqlDialect

open Bytes

namespace Pattern

/-- In front of a word of other length no keyword matches. -/
theorem not_leads_keyword_of_length {s : String} (hs : IsKeyword s) {c c' : Cursor} {w b : Bytes}
    (hw : IsWord w) (hb : EndsWord b) (hrest : c.rest = w ++ b)
    (hlen : w.length < (ascii s).length) : ¬ Leads (keyword s) c c' := by
  intro h
  obtain ⟨w₁, w₂, rfl, hw₁, -⟩ := leads_keyword_word hs hw.2 hb hrest h
  have hlower := congrArg List.length hw₁
  rw [List.length_map, List.length_map] at hlower
  rw [List.length_append] at hlen
  omega

end Pattern

namespace InsertHead

variable (h : InsertHead)

/-- What follows the table. -/
def afterTable (rest : Bytes) : Bytes :=
  openParen :: (h.list WrittenName.rendered ++ closeParen :: rest)

theorem rendered_append (rest : Bytes) :
    h.rendered ++ rest = h.lead ++ (h.insertWord ++ (h.gap ++ (h.intoWord ++ (h.tableLead ++
      (h.table.rendered ++ (h.tableTrail ++ h.afterTable rest)))))) := by
  simp [rendered, layout, afterTable]

section

open Pattern

/-- The table and what follows it. -/
def fromTable (rest : Bytes) : Bytes :=
  h.table.rendered ++ (h.tableTrail ++ h.afterTable rest)

/-- The word INTO and what follows it. -/
def fromInto (rest : Bytes) : Bytes :=
  h.intoWord ++ (h.tableLead ++ h.fromTable rest)

/-- The place in front of a head. -/
def start (rest : Bytes) : Cursor :=
  { prev := none, rest := h.rendered ++ rest }

/-- The place in front of INTO. -/
def atInto (rest : Bytes) : Cursor :=
  ((((h.start rest).past h.lead (h.insertWord ++ (h.gap ++ h.fromInto rest))).past h.insertWord
    (h.gap ++ h.fromInto rest)).past h.gap (h.fromInto rest)).record 1 (h.start rest)

/-- The place in front of the table. -/
def atTable (rest : Bytes) : Cursor :=
  ((h.atInto rest).past h.intoWord (h.tableLead ++ h.fromTable rest)).past h.tableLead
    (h.fromTable rest)

/-- The place in front of the list. -/
def atList (rest : Bytes) : Cursor :=
  (((h.atTable rest).past h.table.rendered (h.tableTrail ++ h.afterTable rest)).record 3
    (h.atTable rest)).past h.tableTrail (h.afterTable rest)

theorem startsSolid_fromTable (rest : Bytes) : StartsSolid (h.fromTable rest) := by
  obtain ⟨y, r, hr, hy⟩ := h.table.rendered_eq_cons
  intro x hx
  rw [fromTable, hr] at hx
  obtain rfl : y = x := Option.some.inj hx
  rcases hy with hy | rfl
  · exact ⟨ascii_of_isWord hy, not_blank_of_isWord hy⟩
  · decide

/-- A table name is read up to a blank or a parenthesis. -/
theorem tableByte {b : UInt8} (hb : isWord b = true ∨ b = doubleQuote) :
    b < 128 ∧ (CharSet.blank.union (CharSet.ofString "(")).compl.contains b.toNat = true := by
  revert hb
  exact forall_byte (P := fun b => isWord b = true ∨ b = doubleQuote →
    b < 128 ∧ (CharSet.blank.union (CharSet.ofString "(")).compl.contains b.toNat = true)
    (by decide +kernel) b

theorem tableEnd (rest : Bytes) : ∀ x, (h.tableTrail ++ h.afterTable rest).head? = some x →
    x < 128 ∧ (CharSet.blank.union (CharSet.ofString "(")).compl.contains x.toNat = false := by
  have hblank : ∀ {b : UInt8}, CharSet.blank.contains b.toNat = true →
      (CharSet.blank.union (CharSet.ofString "(")).compl.contains b.toNat = false :=
    forall_blank (P := fun b =>
      (CharSet.blank.union (CharSet.ofString "(")).compl.contains b.toNat = false) (by decide)
  intro x hx
  cases ht : h.tableTrail with
  | nil =>
    rw [ht] at hx
    obtain rfl : openParen = x := Option.some.inj hx
    decide
  | cons y t =>
    rw [ht] at hx
    obtain rfl : y = x := Option.some.inj hx
    have hy := h.tableTrail_blank y (by rw [ht]; exact List.mem_cons_self)
    exact ⟨(ascii_of_blank hy).1, hblank hy⟩

/-- No word that may stand in front of INTO does. -/
theorem not_leads_beforeInto {s : String} (hs : IsKeyword s) (hlen : 4 < (ascii s).length)
    (rest : Bytes) {c c' : Cursor} (hc : c.rest = h.fromInto rest) :
    ¬ Leads (keyword s) c c' := by
  have hlower := congrArg List.length h.intoWord_eq
  rw [List.length_map] at hlower
  refine not_leads_keyword_of_length hs h.intoWord_isWord
    (endsWord_of_blank h.tableLead_blank h.tableLead_ne _) hc ?_
  rw [hlower]
  exact hlen

/-- The pattern takes the head up to the list. -/
theorem run_insertPattern (rest : Bytes) :
    insertPattern.run (h.start rest) some = some (h.atList rest) := by
  have hstart : (h.start rest).prev.isNone = true := rfl
  rw [insertPattern, run_seqs_cons, run, if_pos hstart, run_seqs_cons, run_group, run_seqs_cons]
  apply run_blanks (h.rendered_append rest) h.lead_blank
    (startsSolid_of_isWord h.insertWord_isWord _)
  rw [run_seqs_cons, run_keyword (by decide) rfl (h.insertWord_eq.trans (by decide)), run_seqs_cons]
  apply run_blanks1 rfl h.gap_ne h.gap_blank (startsSolid_of_isWord h.intoWord_isWord _)
  rw [run_seqs_cons, run_opt_of_none, run_seqs_nil]
  rotate_left
  · -- LOW_PRIORITY, DELAYED and HIGH_PRIORITY
    apply run_eq_none
    intro c' hleads
    obtain ⟨c₁, hkeys, -⟩ := leads_seq.1 hleads
    rcases leads_alt.1 hkeys with hkey | hkeys
    · exact h.not_leads_beforeInto (by decide) (by decide) rest rfl hkey
    rcases leads_alt.1 hkeys with hkey | hkey
    · exact h.not_leads_beforeInto (by decide) (by decide) rest rfl hkey
    · exact h.not_leads_beforeInto (by decide) (by decide) rest rfl hkey
  rw [run_seqs_cons, run_opt_of_none, run_seqs_cons]
  rotate_left
  · -- IGNORE
    apply run_eq_none
    intro c' hleads
    obtain ⟨c₁, hignore, -⟩ := leads_group.1 hleads
    obtain ⟨c₂, hkey, -⟩ := leads_seq.1 hignore
    exact h.not_leads_beforeInto (by decide) (by decide) rest rfl hkey
  apply run_opt_of_some
  rw [run, run_keyword (by decide) rfl (h.intoWord_eq.trans (by decide))]
  apply run_blanks1 rfl h.tableLead_ne h.tableLead_blank (h.startsSolid_fromTable rest)
  rw [run_seqs_cons, run_group]
  apply run_many1_one rfl (h.table.renders.ne_nil h.table.plain.isWord)
    (fun b hb => tableByte (h.table.renders.byte h.table.plain.isWord b hb)) (h.tableEnd rest)
  rw [run_seqs_cons]
  exact run_blanks rfl h.tableTrail_blank (by
    intro x hx
    obtain rfl : openParen = x := Option.some.inj hx
    decide) rfl

theorem groups_atList (rest : Bytes) :
    (h.atList rest).groups =
      [⟨3, (h.lead ++ h.insertWord ++ h.gap ++ h.intoWord ++ h.tableLead).length,
          h.table.rendered.length⟩,
        ⟨1, 0, (h.lead ++ h.insertWord ++ h.gap).length⟩] := by
  simp only [atList, atTable, atInto, start, Cursor.past, Cursor.record, List.length_append,
    List.cons.injEq, Recorded.mk.injEq, true_and, and_true]
  omega

/-- What the head says: where the list starts, the words in front of INTO, and the table. -/
theorem find?_insertPattern (rest : Bytes) :
    ∃ m, insertPattern.find? (h.rendered ++ rest) = some m ∧ m.after = h.afterTable rest ∧
      m.group? 1 = some (h.lead ++ h.insertWord ++ h.gap) ∧ m.group? 2 = none ∧
      m.group? 3 = some h.table.rendered := by
  have hgroup₁ : Recorded.text ⟨1, 0, (h.lead ++ h.insertWord ++ h.gap).length⟩
      (h.rendered ++ rest) = h.lead ++ h.insertWord ++ h.gap := by
    rw [Recorded.text, h.rendered_append, ← List.append_assoc, ← List.append_assoc, List.drop_zero,
      List.take_left']
    rfl
  have hgroup₃ : Recorded.text
      ⟨3, (h.lead ++ h.insertWord ++ h.gap ++ h.intoWord ++ h.tableLead).length,
        h.table.rendered.length⟩ (h.rendered ++ rest) = h.table.rendered := by
    rw [Recorded.text, h.rendered_append, ← List.append_assoc, ← List.append_assoc,
      ← List.append_assoc, ← List.append_assoc, List.drop_left', List.take_left']
    · rfl
    · rfl
  have hhere : insertPattern.matchHere? none (h.rendered ++ rest) = some
      { before := []
        text := (h.rendered ++ rest).take (h.atList rest).taken
        after := h.afterTable rest
        groups := [(3, h.table.rendered), (1, h.lead ++ h.insertWord ++ h.gap)] } := by
    have hrun : insertPattern.run { prev := none, rest := h.rendered ++ rest } some
        = some (h.atList rest) := h.run_insertPattern rest
    rw [matchHere?, hrun, Option.map_some, groups_atList, List.map_cons, List.map_cons, hgroup₁,
      hgroup₃]
    rfl
  exact ⟨_, findFrom?_of_matchHere? hhere, rfl, rfl, rfl, rfl⟩

end

/-! ## The list of columns -/

theorem scanParen_plain {a : Bytes} (ha : ∀ b ∈ a, b ≠ openParen ∧ b ≠ closeParen) (pos : Nat)
    (r : Bytes) : scanParen 1 pos (a ++ closeParen :: r) = some (pos + a.length) := by
  induction a generalizing pos with
  | nil => rfl
  | cons b a ih =>
    obtain ⟨⟨hopen, hclose⟩, ha⟩ := List.forall_mem_cons.1 ha
    rw [List.cons_append, scanParen, if_neg hopen, if_neg hclose, ih ha, List.length_cons]
    congr 1
    omega

theorem splitParen?_plain {a : Bytes} (ha : ∀ b ∈ a, b ≠ openParen ∧ b ≠ closeParen) (r : Bytes) :
    splitParen? (a ++ closeParen :: r) = some (a, r) := by
  rw [splitParen?, scanParen_plain ha]
  simp

/-- A text without commas and parentheses is a part of its own. -/
theorem splitTop_plain {a : Bytes} (ha : ∀ b ∈ a, b ≠ openParen ∧ b ≠ closeParen ∧ b ≠ comma) :
    splitTop a = [a] ∧ depthAfter 0 a = 0 := by
  induction a with
  | nil => exact ⟨rfl, rfl⟩
  | cons b a ih =>
    obtain ⟨⟨hopen, hclose, hcomma⟩, ha⟩ := List.forall_mem_cons.1 ha
    have hdepth : stepDepth 0 b = 0 := by rw [stepDepth, if_neg hopen, if_neg hclose]
    obtain ⟨hpart, hclosed⟩ := ih ha
    rw [splitTop] at hpart ⊢
    rw [splitTopFrom, if_neg (fun h => hcomma h.1), hdepth, hpart, depthAfter, List.foldl_cons, hdepth]
    exact ⟨rfl, hclosed⟩

theorem mem_join {sep b : UInt8} {parts : List Bytes} (hb : b ∈ join [sep] parts) :
    b = sep ∨ ∃ a ∈ parts, b ∈ a := by
  induction parts with
  | nil => simp [join] at hb
  | cons a parts ih =>
    cases parts with
    | nil => exact Or.inr ⟨a, List.mem_cons_self, by simpa [join] using hb⟩
    | cons next parts =>
      rw [join_cons_cons, List.mem_append, List.mem_append, List.mem_singleton] at hb
      rcases hb with hb | rfl | hb
      · exact Or.inr ⟨a, List.mem_cons_self, hb⟩
      · exact Or.inl rfl
      · rcases ih hb with rfl | ⟨a', ha', hb⟩
        · exact Or.inl rfl
        · exact Or.inr ⟨a', List.mem_cons_of_mem _ ha', hb⟩

/-- The bytes of a listed name are blanks, word bytes and quotes. -/
theorem listedName_byte {col : ListedName} {b : UInt8} (hb : b ∈ col.layout WrittenName.rendered) :
    b ≠ openParen ∧ b ≠ closeParen ∧ b ≠ comma := by
  have hblank : ∀ {t : Bytes}, AllBlank t → b ∈ t →
      b ≠ openParen ∧ b ≠ closeParen ∧ b ≠ comma := by
    intro t ht hmem
    refine ⟨?_, ?_, ?_⟩ <;>
    · rintro rfl
      exact absurd (ht _ hmem) (by decide)
  rw [ListedName.layout, List.mem_append, List.mem_append] at hb
  rcases hb with hb | hb | hb
  · exact hblank col.lead_blank hb
  · rcases col.name.renders.byte col.name.plain.isWord b hb with hword | rfl
    · refine ⟨?_, ?_, ?_⟩ <;>
      · rintro rfl
        exact absurd hword (by decide)
    · decide
  · exact hblank col.trail_blank hb

/-- Between its blanks a listed name is rendered. -/
theorem normalizeName_listedName (col : ListedName) :
    normalizeName (trimSpace (col.layout WrittenName.rendered)) = quoteIdent col.name.name := by
  have hblank : ∀ {t : Bytes}, AllBlank t → ∀ b ∈ t, b < 128 ∧ isSpace b.toNat = true :=
    fun ht b hb => ⟨(ascii_of_blank (ht b hb)).1, (ascii_of_blank (ht b hb)).2.1⟩
  have hname : ∀ b ∈ col.name.rendered, b < 128 ∧ isSpace b.toNat = false := by
    intro b hb
    rcases col.name.renders.byte col.name.plain.isWord b hb with hword | rfl
    · exact ⟨ascii_of_isWord hword, not_isSpace_of_isWord hword⟩
    · decide
  rw [ListedName.layout, trimSpace_padded (hblank col.lead_blank) hname
    (col.name.renders.ne_nil col.name.plain.isWord) (hblank col.trail_blank),
    col.name.normalizeName_rendered]

/-- A column is not the word SELECT, so it opens no query. -/
theorem not_leads_select {n : WrittenName} (hn : ReadAsName n.name) {b : Bytes} (hb : EndsWord b)
    {c c' : Pattern.Cursor} (hc : c.rest = n.rendered ++ b) :
    ¬ Pattern.Leads (.seq (.keyword "SELECT") .blanks1) c c' := by
  intro h
  obtain ⟨c₁, hkey, hblanks⟩ := Pattern.leads_seq.1 h
  rcases n.renders with hplain | ⟨v, hquoted, -, -⟩
  · rw [hplain] at hc
    obtain ⟨w₁, w₂, hw, hw₁, htakes⟩ :=
      Pattern.leads_keyword_word (by decide) n.plain.isWord.2 hb hc hkey
    obtain ⟨t, hne, ht, htakes'⟩ := Pattern.leads_blanks1 hblanks
    have hrest : w₂ ++ b = t ++ c'.rest := by
      have hall := htakes.rest
      rw [hc, hw, List.append_assoc] at hall
      rw [List.append_cancel_left hall, htakes'.rest]
    cases w₂ with
    | nil =>
      rw [List.append_nil] at hw
      exact hn "SELECT" (by decide) (by rw [hw, hw₁])
    | cons y w₂ =>
      obtain ⟨z, t, rfl⟩ := List.exists_cons_of_ne_nil hne
      obtain ⟨rfl, -⟩ := List.cons.inj hrest
      have hword := n.plain.isWord.2 y (by rw [hw]; simp)
      have hblank := ht y List.mem_cons_self
      rw [not_blank_of_isWord hword] at hblank
      exact Bool.noConfusion hblank
  · refine Pattern.not_leads_keyword (by decide) ?_ hkey
    rw [hc, hquoted]
    exact endsWord_of_separator (t := []) (by simp [AllBlank]) (by decide)

open Pattern in
/-- The list is no query. -/
theorem not_occursIn_list : selectHeadPattern.occursIn (h.list WrittenName.rendered) = false := by
  rw [occursIn, Option.isSome_eq_false_iff, Option.isNone_iff_eq_none,
    Option.eq_none_iff_forall_ne_some]
  intro m hm
  obtain ⟨c', hleads, -⟩ := leads_of_textStart hm
  obtain ⟨c₂, hblanks, hleads₂⟩ := leads_seqs_cons.1 hleads
  obtain ⟨c₃, hkey, hleads₃⟩ := leads_seqs_cons.1 hleads₂
  obtain ⟨c₄, hblanks1, -⟩ := leads_seqs_cons.1 hleads₃
  obtain ⟨t', ht', htakes⟩ := leads_blanks hblanks
  obtain ⟨col, r, hcol, hlist, hr⟩ := h.list_eq WrittenName.rendered
  obtain ⟨y, r', hname, hy⟩ := col.name.rendered_eq_cons
  have hyblank : CharSet.blank.contains y.toNat = false := by
    rcases hy with hy | rfl
    · exact not_blank_of_isWord hy
    · decide
  have hends : EndsWord (col.trail ++ r) := by
    rcases hr with rfl | ⟨r', rfl⟩
    · intro x hx
      rw [List.append_nil] at hx
      have hx := ascii_of_blank (col.trail_blank x (List.mem_of_head? hx))
      exact ⟨hx.1, hx.2.2⟩
    · exact endsWord_of_separator col.trail_blank (by decide)
  have heq : col.lead ++ y :: (r' ++ (col.trail ++ r)) = t' ++ c₂.rest := by
    rw [← htakes.rest, hlist, hname]
    rfl
  obtain ⟨t'', hlead, hrest₂⟩ := blank_append_eq ht' hyblank heq
  cases t'' with
  | nil =>
    refine not_leads_select (h.columns_readAsName col hcol) hends ?_ (.seq hkey hblanks1)
    rw [hrest₂, hname]
    rfl
  | cons z t'' =>
    refine not_leads_keyword (by decide) ?_ hkey
    rw [hrest₂]
    refine endsWord_of_blank ?_ (List.cons_ne_nil _ _) _
    exact fun b hb => col.lead_blank b (by rw [hlead]; exact List.mem_append_right _ hb)

/-- The columns are read in their order. -/
theorem columnsOf?_afterTable (rest : Bytes) :
    Insert.columnsOf? (h.afterTable rest) = some (h.columnNames.map quoteIdent) := by
  have hparts : ∀ a ∈ h.columns.map (ListedName.layout WrittenName.rendered),
      ∀ b ∈ a, b ≠ openParen ∧ b ≠ closeParen ∧ b ≠ comma := by
    intro a ha b hb
    obtain ⟨col, -, rfl⟩ := List.mem_map.1 ha
    exact listedName_byte hb
  have hlist : ∀ b ∈ h.list WrittenName.rendered, b ≠ openParen ∧ b ≠ closeParen := by
    intro b hb
    rcases mem_join hb with rfl | ⟨a, ha, hb⟩
    · decide
    · exact ⟨(hparts a ha b hb).1, (hparts a ha b hb).2.1⟩
  have hne : h.columns.map (ListedName.layout WrittenName.rendered) ≠ [] := by
    simpa using h.columns_ne
  have hsplit : splitTop (h.list WrittenName.rendered)
      = h.columns.map (ListedName.layout WrittenName.rendered) := by
    rw [list, splitTop_join hne fun a ha => (splitTop_plain (hparts a (List.dropLast_subset _ ha))).2,
      flatMap_splitTop fun a ha => (splitTop_plain (hparts a ha)).1]
  rw [afterTable, Insert.columnsOf?, if_pos rfl, splitParen?_plain hlist, Option.map_some]
  dsimp only
  rw [h.not_occursIn_list, if_neg Bool.false_ne_true, hsplit, columnNames,
    List.map_map, List.map_map]
  simp only [Function.comp_def, normalizeName_listedName]

/-- What a head says, in front of `rest`. -/
def read (rest : Bytes) : Insert :=
  { table := h.table.rendered
    columns := h.columnNames.map quoteIdent
    ignore := false
    withoutIgnore := h.rendered ++ rest }

/-- A head is read as it was written. -/
theorem ofText?_rendered (rest : Bytes) :
    Insert.ofText? (h.rendered ++ rest) = some (h.read rest) := by
  obtain ⟨m, hm, hafter, hgroup₁, hgroup₂, hgroup₃⟩ := h.find?_insertPattern rest
  have hdrop : (h.lead ++ h.insertWord ++ h.gap)
      ++ (h.rendered ++ rest).drop (h.lead ++ h.insertWord ++ h.gap).length = h.rendered ++ rest := by
    rw [h.rendered_append, ← List.append_assoc, ← List.append_assoc, List.drop_left']
    rfl
  simp only [Insert.ofText?, hm, hafter, h.columnsOf?_afterTable, Match.group, hgroup₁, hgroup₂,
    hgroup₃, Option.bind_eq_bind, Option.bind_some, Option.getD_some, Option.getD_none,
    List.length_nil, Nat.add_zero, hdrop]
  rfl

end InsertHead

/-! ## The kind of the statement -/

theorem words_blank_append {a : Bytes} (ha : AllBlank a) (s : Bytes) : words (a ++ s) = words s := by
  induction a with
  | nil => rfl
  | cons b a ih =>
    obtain ⟨hb, ha⟩ := List.forall_mem_cons.1 ha
    rw [List.cons_append, words_cons_space ⟨(ascii_of_blank hb).1, (ascii_of_blank hb).2.1⟩, ih ha]

/-- Blanks in front of a word are no comment. -/
theorem dropComment?_blank_append {a w : Bytes} (ha : AllBlank a) (hw : IsWord w) (s : Bytes) :
    dropComment? (a ++ (w ++ s)) = none := by
  have hhead : ∀ x, (a ++ (w ++ s)).head? = some x →
      CharSet.blank.contains x.toNat = true ∨ isWord x = true := by
    intro x hx
    cases a with
    | cons b a =>
      obtain rfl : b = x := Option.some.inj hx
      exact Or.inl (ha b List.mem_cons_self)
    | nil =>
      obtain ⟨b, w, rfl⟩ := List.exists_cons_of_ne_nil hw.1
      obtain rfl : b = x := Option.some.inj hx
      exact Or.inr (hw.2 b List.mem_cons_self)
  have hother : ∀ {b : UInt8} (t : Bytes), CharSet.blank.contains b.toNat = false → isWord b = false →
      dropLead? (b :: t) (a ++ (w ++ s)) = none := by
    intro b t hblank hword
    cases htext : a ++ (w ++ s) with
    | nil => rfl
    | cons x r =>
      rw [htext] at hhead
      rw [dropLead?, if_neg]
      rintro rfl
      rcases hhead _ rfl with h | h
      · exact absurd h (by simp [hblank])
      · exact absurd h (by simp [hword])
  have hstart : ∀ {b : UInt8} (t : Bytes), CharSet.blank.contains b.toNat = false →
      isWord b = false → startsWith (a ++ (w ++ s)) (b :: t) = false := by
    intro b t hblank hword
    rw [startsWith, hother t hblank hword]
    rfl
  have hopen : dropLead? (ascii "/*") (a ++ (w ++ s)) = none :=
    hother (b := 47) (ascii "*") (by decide) rfl
  have hdash : startsWith (a ++ (w ++ s)) (ascii "--") = false :=
    hstart (b := 45) (ascii "-") (by decide) rfl
  have hhash : startsWith (a ++ (w ++ s)) (ascii "#") = false :=
    hstart (b := 35) [] (by decide) rfl
  rw [dropComment?, hopen, hdash, hhash]
  rfl

theorem skipLeadingComments_blank_append {a w : Bytes} (ha : AllBlank a) (hw : IsWord w)
    (s : Bytes) : ∃ a', AllBlank a' ∧ skipLeadingComments (a ++ (w ++ s)) = a' ++ (w ++ s) := by
  have hsuffix : a.dropWhile isBlank <:+ a := List.dropWhile_suffix _
  have hblank : AllBlank (a.dropWhile isBlank) := fun b hb => ha b (hsuffix.mem hb)
  have hword : ∀ b ∈ w, isBlank b = false := fun b hb => not_isBlank_of_isWord (hw.2 b hb)
  have htrim : trimLeft (a ++ (w ++ s)) = a.dropWhile isBlank ++ (w ++ s) := by
    obtain ⟨x, w, rfl⟩ := List.exists_cons_of_ne_nil hw.1
    rw [trimLeft, List.dropWhile_append]
    split
    · rename_i hempty
      rw [List.isEmpty_iff.1 hempty, List.cons_append, List.dropWhile_cons,
        hword x List.mem_cons_self]
      rfl
    · rfl
  refine ⟨_, hblank, ?_⟩
  unfold skipLeadingComments
  split
  · rename_i rest hrest
    rw [htrim, dropComment?_blank_append hblank hw] at hrest
    cases hrest
  · exact htrim

/-- A statement with the head is an INSERT. -/
theorem InsertHead.ofStatement_text (h : InsertHead) (rest : Bytes) :
    Kind.ofStatement (h.text ++ rest) = .insert := by
  obtain ⟨x, gap, hgap⟩ := List.exists_cons_of_ne_nil h.gap_ne
  have hx := ascii_of_blank (h.gap_blank x (by rw [hgap]; exact List.mem_cons_self))
  have hword := h.insertWord_isWord
  obtain ⟨s, hs⟩ : ∃ s, (shield (h.text ++ rest)).1 = h.lead ++ (h.insertWord ++ x :: s) := by
    rw [h.shield_text, text, layout, hgap]
    simp only [List.append_assoc, List.cons_append]
    exact ⟨_, rfl⟩
  obtain ⟨a, ha, hskip⟩ := skipLeadingComments_blank_append h.lead_blank hword (x :: s)
  have hupper : toUpper h.insertWord = ascii "INSERT" := by
    rw [← toUpper_map_lowerByte hword.ascii, h.insertWord_eq]
    decide
  rw [Kind.ofStatement, Kind.ofShielded, hs, hskip, words_blank_append ha,
    words_word_append hword ⟨hx.1, hx.2.1⟩, List.take_succ_cons, List.map_cons, hupper]
  rfl

end SqlDialect
