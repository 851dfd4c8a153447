import SqlDialect.Proofs.Table.Options
import SqlDialect.Proofs.Table.WrittenColumn

set_option autoImplicit false

/-! # Written columns are read

The definition of a written column is cut where its parts end: behind the name, behind the type and
behind the numbers. So the item is read as the column that is written (`WrittenColumn.ofText_core`),
and this column is put out as it is rendered, with no placeholder in it. -/

namespace SqlDialect

open Bytes

namespace WrittenColumn

variable (w : WrittenColumn)

/-! ## The definition -/

section

open Pattern

variable {w} {α : Type} {k : Cursor → Option α} {c : Cursor} {r : α}

/-- A name in quotes, as a definition has it. -/
def quotedName : Pattern :=
  .seqs [.text "\"", .many (.alt (.one (CharSet.ofString "\"").compl) (.text "\"\"")), .text "\""]

/-- A bare name is read up to the blanks. -/
theorem run_name_bare (hrest : c.rest = w.name ++ (w.gap ++ w.typed))
    (hk : k (c.past w.name (w.gap ++ w.typed)) = some r) :
    (alt quotedName (.many1 (.one CharSet.blank.compl))).run c k = some r := by
  have hnone : quotedName.run c k = none := by
    refine run_eq_none fun c' h => ?_
    obtain ⟨x, s, hs⟩ := List.exists_cons_of_ne_nil w.nameWord.ne_nil
    obtain ⟨c₁, hopen, -⟩ := leads_seqs_cons.1 h
    have hall : c.rest = doubleQuote :: c₁.rest := (leads_text (by decide) hopen).rest
    rw [hrest, hs] at hall
    obtain rfl : x = doubleQuote := (List.cons.inj hall).1
    exact w.nameWord.quote_notMem (hs ▸ List.mem_cons_self)
  have hbyte : ∀ b, isNameByte b = true → b < 128 ∧ CharSet.blank.compl.contains b.toNat = true :=
    forall_byte (P := fun b => isNameByte b = true →
      b < 128 ∧ CharSet.blank.compl.contains b.toNat = true) (by decide +kernel)
  have hblank : ∀ b : UInt8, CharSet.blank.contains b.toNat = true →
      CharSet.blank.compl.contains b.toNat = false := fun _ =>
    forall_blank (P := fun b => CharSet.blank.compl.contains b.toNat = false) (by decide)
  obtain ⟨g, gs, hgap, hg⟩ := w.exists_gap
  rw [run_alt_of_none hnone]
  refine run_many1_one hrest w.nameWord.ne_nil (fun x hx => hbyte x (w.nameWord.byte x hx))
    (fun x hx => ?_) hk
  rw [hgap] at hx
  obtain rfl := Option.some.inj hx
  exact ⟨(ascii_of_blank hg).1, hblank g hg⟩

/-- A name in quotes is read up to its closing quote. -/
theorem run_name_quoted {v : Bytes} (hv : NameWord v)
    (hrest : c.rest = doubleQuote :: v ++ [doubleQuote] ++ (w.gap ++ w.typed))
    (hk : k (c.past (doubleQuote :: v ++ [doubleQuote]) (w.gap ++ w.typed)) = some r) :
    (alt quotedName (.many1 (.one CharSet.blank.compl))).run c k = some r := by
  have hbyte : ∀ b, isNameByte b = true →
      b < 128 ∧ (CharSet.ofString "\"").compl.contains b.toNat = true :=
    forall_byte (P := fun b => isNameByte b = true →
      b < 128 ∧ (CharSet.ofString "\"").compl.contains b.toNat = true) (by decide +kernel)
  have hopen : c.rest = ascii "\"" ++ (v ++ (doubleQuote :: (w.gap ++ w.typed))) := by
    rw [hrest]
    simp only [List.append_assoc, List.cons_append, List.nil_append]
    rfl
  apply run_alt_of_some
  rw [quotedName, run_seqs_cons, run_text (by decide) hopen, run_seqs_cons]
  refine run_many rfl (fun x hx d u k' r' hd hk' => ?_) (fun d k' hd => ?_) ?_
  · obtain ⟨hascii, hset⟩ := hbyte x (hv.byte x hx)
    refine run_alt_of_some ?_
    rw [run_one hd hascii, if_pos hset, hk']
  · -- the quote does not stand twice: the gap is behind it
    obtain ⟨g, gs, hgap, hg⟩ := w.exists_gap
    have hone : (one (CharSet.ofString "\"").compl).run d k' = none := by
      rw [run_one hd (by decide)]
      rfl
    rw [run_alt_of_none hone]
    refine run_eq_none fun d' h => ?_
    have hall : d.rest = doubleQuote :: doubleQuote :: d'.rest := (leads_text (by decide) h).rest
    rw [hd, hgap] at hall
    obtain rfl : g = doubleQuote := (List.cons.inj (List.cons.inj hall).2).1
    exact Bool.noConfusion hg
  · rw [run_seqs_cons, run_text (s := "\"") (by decide) rfl, run_seqs_nil, Cursor.past_past,
      Cursor.past_past]
    exact hk

/-- The name is read up to its closing quote or to the blanks. -/
theorem run_name (hrest : c.rest = quoteIdent w.name ++ (w.gap ++ w.typed))
    (hk : k (c.past (quoteIdent w.name) (w.gap ++ w.typed)) = some r) :
    (alt quotedName (.many1 (.one CharSet.blank.compl))).run c k = some r := by
  rcases rendersWord_quoteIdent w.nameWord with heq | ⟨v, heq, hv, -⟩
  · rw [heq] at hrest hk
    exact run_name_bare hrest hk
  · rw [heq] at hrest hk
    exact run_name_quoted hv hrest hk

/-- The type is read up to its numbers. -/
theorem run_type {s : Bytes} (hrest : c.rest = w.type ++ s)
    (hs : ∀ x ∈ s.head?, x = openParen) (hk : k (c.past w.type s) = some r) :
    (seq (.many1 (.one CharSet.letterAnyCase))
      (.opt (.seq .blanks1 (.keywords ["precision", "varying"])))).run c k = some r := by
  rw [run]
  refine run_many1_one hrest w.type_ne
    (fun x hx => ⟨(w.type_byte hx).1.1, (w.type_byte hx).2.1⟩) (fun x hx => ?_) ?_
  · rw [hs x hx]
    decide
  · refine (run_opt_of_none (run_eq_none fun c' h => ?_)).trans hk
    obtain ⟨c₁, hblanks, -⟩ := leads_seq.1 h
    obtain ⟨bl, hne, hbl, htakes⟩ := leads_blanks1 hblanks
    obtain ⟨y, bl, rfl⟩ := List.exists_cons_of_ne_nil hne
    have hall : s = y :: bl ++ c₁.rest := htakes.rest
    have hy := hs y (by rw [hall]; rfl)
    rw [hy] at hbl
    exact Bool.noConfusion (hbl openParen List.mem_cons_self)

variable (w) in
/-- The place behind the numbers. -/
def behindArgs (c : Cursor) : Cursor :=
  if w.numbers.isSome then
    (((c.past [openParen] (w.args ++ [closeParen])).past w.args [closeParen]).record 3
      (c.past [openParen] (w.args ++ [closeParen]))).past [closeParen] []
  else c

/-- The numbers are read up to the closing parenthesis. -/
theorem run_args (hrest : c.rest = w.argsText) (hk : k (w.behindArgs c) = some r) :
    (opt (seqs [.text "(", .group 3 (.many (.one (CharSet.ofString ")").compl)), .text ")"])).run c k
      = some r := by
  rw [argsText] at hrest
  rw [behindArgs] at hk
  split at hrest
  · rename_i hnumbers
    rw [if_pos hnumbers] at hk
    have hopen : c.rest = ascii "(" ++ (w.args ++ [closeParen]) := hrest
    apply run_opt_of_some
    rw [run_seqs_cons, run_text (by decide) hopen, run_seqs_cons, run_group]
    refine run_many_one rfl (fun x hx => (w.args_byte hx).1) (fun x hx => ?_) ?_
    · obtain rfl := Option.some.inj hx
      decide
    · rw [run_seqs_cons, run_text (s := ")") (by decide) rfl, run_seqs_nil]
      exact hk
  · rename_i hnumbers
    rw [if_neg hnumbers] at hk
    refine (run_opt_of_none (run_eq_none fun c' h => ?_)).trans hk
    obtain ⟨c₁, hopen, -⟩ := leads_seqs_cons.1 h
    have hall : c.rest = openParen :: c₁.rest := (leads_text (by decide) hopen).rest
    exact List.cons_ne_nil _ _ (hall.symm.trans hrest)

variable (w)

/-- The place in front of the item. -/
def start : Cursor :=
  { prev := none, rest := w.core }

/-- The place behind the name. -/
def atGap : Cursor :=
  (w.start.past (quoteIdent w.name) (w.gap ++ w.typed)).record 1 w.start

/-- The place in front of the type. -/
def atType : Cursor :=
  w.atGap.past w.gap w.typed

/-- The place in front of the numbers. -/
def atArgs : Cursor :=
  (w.atType.past w.type w.argsText).record 2 w.atType

/-- The place behind the item. -/
def atEnd : Cursor :=
  (w.behindArgs w.atArgs).record 4 (w.behindArgs w.atArgs)

theorem rest_behindArgs : (w.behindArgs w.atArgs).rest = [] := by
  rw [behindArgs]
  split
  · rfl
  · rename_i hnumbers
    show w.argsText = []
    rw [argsText, if_neg hnumbers]

theorem head_argsText : ∀ x ∈ w.argsText.head?, x = openParen := by
  intro x hx
  rw [argsText] at hx
  split at hx
  · exact (Option.some.inj hx).symm
  · cases hx

theorem atWordEdge_atArgs : w.atArgs.atWordEdge = true := by
  have hprev : w.atArgs.prev.any isWord = true := by
    show ((w.type.getLast?).or _).any isWord = true
    rw [List.getLast?_eq_some_getLast w.type_ne, Option.some_or, Option.any_some]
    exact (w.type_byte (List.getLast_mem w.type_ne)).1.2
  have hnext : w.atArgs.rest.head?.any isWord = false := by
    show w.argsText.head?.any isWord = false
    cases hhead : w.argsText.head? with
    | none => rfl
    | some x => rw [w.head_argsText x hhead]; rfl
  rw [Cursor.atWordEdge, hprev, hnext]
  rfl

/-- The item is a definition of the column, up to its end. -/
theorem run_definitionPattern :
    Column.definitionPattern.run w.start some = some w.atEnd := by
  obtain ⟨x, s, htyped, hx⟩ := w.exists_typed
  have hsolid : StartsSolid w.typed := by
    intro y hy
    rw [htyped] at hy
    obtain rfl := Option.some.inj hy
    exact ⟨hx.1, not_blank_of_isWord hx.2⟩
  have hargs : StartsSolid w.argsText := fun y hy => by
    rw [w.head_argsText y hy]
    decide
  have hend := w.rest_behindArgs
  have hstart : w.start.prev.isNone = true := rfl
  -- one step for each part of the pattern, in the order of the text
  rw [Column.definitionPattern, run_seqs_cons, run, if_pos hstart, run_seqs_cons, run_group]
  refine run_name rfl ?_
  rw [run_seqs_cons]
  refine run_blanks1 (t := w.gap) (s := w.typed) rfl w.gap_ne w.gap_blank hsolid ?_
  rw [run_seqs_cons, run_group]
  refine run_type (s := w.argsText) rfl w.head_argsText ?_
  rw [run_seqs_cons, run]
  refine (if_pos w.atWordEdge_atArgs).trans ?_
  rw [run_seqs_cons]
  refine run_blanks (t := []) (s := w.argsText) rfl (by simp [AllBlank]) hargs ?_
  refine (congrArg (fun c => Pattern.run _ c some) (Cursor.past_nil rfl)).trans ?_
  rw [run_seqs_cons]
  refine run_args rfl ?_
  rw [run_seqs_cons, run_group]
  refine run_many_one (t := []) (s := []) hend (by simp) (by simp) ?_
  have hlast : w.atEnd.rest.isEmpty = true := by
    rw [List.isEmpty_iff]
    exact hend
  refine (congrArg (fun c => Pattern.run _ (Cursor.record c 4 _) some) (Cursor.past_nil hend)).trans ?_
  rw [run_seqs_cons, run]
  exact if_pos hlast

/-- What the groups of the definition record, the latest first. -/
theorem groups_atEnd : (w.atEnd.groups.map fun g => (g.number, g.text w.core))
    = (4, []) :: ((if w.numbers.isSome then [(3, w.args)] else []) ++
      [(2, w.type), (1, quoteIdent w.name)]) := by
  have hname : w.start.Takes (quoteIdent w.name) w.atGap := (Cursor.takes_past rfl).record 1 _
  have hgap : w.start.Takes (quoteIdent w.name ++ w.gap) w.atType :=
    hname.trans (Cursor.takes_past rfl)
  have htype : w.atType.Takes w.type w.atArgs := (Cursor.takes_past rfl).record 2 _
  have hfront : (w.atArgs.groups.map fun g => (g.number, g.text w.core))
      = [(2, w.type), (1, quoteIdent w.name)] :=
    congrArg₂ (fun a b => [(2, a), (1, b)]) (text_recorded rfl hgap htype 2)
      (text_recorded rfl (.refl w.start) hname 1)
  have hnumbers : ((w.behindArgs w.atArgs).groups.map fun g => (g.number, g.text w.core))
      = (if w.numbers.isSome then [(3, w.args)] else []) ++ [(2, w.type), (1, quoteIdent w.name)] := by
    rw [behindArgs]
    split
    · rename_i hsome
      have hrest : w.atArgs.rest = [openParen] ++ (w.args ++ [closeParen]) := by
        show w.argsText = _
        rw [argsText, if_pos hsome]
        rfl
      have hopen := (hgap.trans htype).trans (Cursor.takes_past hrest)
      exact congrArg₂ (fun a b => (3, a) :: b)
        (text_recorded rfl hopen (Cursor.takes_past rfl) 3) hfront
    · exact hfront
  rw [atEnd, Cursor.record, List.map_cons, hnumbers, Recorded.text, Nat.sub_self, List.take_zero]

/-- The parts of the definition are those that are written. -/
theorem exists_definition : ∃ m, Column.definitionPattern.find? w.core = some m ∧
    m.group 1 = quoteIdent w.name ∧ m.group 2 = w.type ∧ m.group 3 = w.args ∧ m.group 4 = [] := by
  have hhere : Column.definitionPattern.matchHere? none w.core = some
      { before := [], text := w.core.take w.atEnd.taken, after := w.atEnd.rest,
        groups := w.atEnd.groups.map fun g => (g.number, g.text w.core) } := by
    rw [matchHere?]
    exact congrArg (Option.map _) w.run_definitionPattern
  rw [w.groups_atEnd] at hhere
  refine ⟨_, findFrom?_of_matchHere? hhere, ?_⟩
  cases hnumbers : w.numbers with
  | none => exact ⟨rfl, rfl, by rw [args, hnumbers]; rfl, rfl⟩
  | some ns => exact ⟨rfl, rfl, rfl, rfl⟩

end

/-- A column is read under the name that it has in the output. -/
theorem normalizeName_quoteIdent : normalizeName (quoteIdent w.name) = quoteIdent w.name := by
  rcases rendersWord_quoteIdent w.nameWord with heq | ⟨v, heq, -, -⟩
  · cases hplaceholder : isPlaceholder w.name with
    | true => rw [heq, normalizeName_of_isPlaceholder hplaceholder]
    | false => rw [heq, normalizeName_of_nameWord w.nameWord hplaceholder, heq]
  · rw [heq]
    exact normalizeName_of_quoted rfl

theorem canonicalType_type : canonicalType w.type = w.type.map lowerByte := by
  have hword : IsWord w.type := ⟨w.type_ne, fun b hb => (w.type_byte hb).1.2⟩
  rw [canonicalType, oneLine_solid hword.solid, hword.toLower]

end WrittenColumn

namespace Column

/-- Without attributes a definition says nothing but name, type and arguments. -/
theorem ofMatch_of_plain {m : Match} (h : m.group 4 = []) :
    leftAttrs m = [] ∧ ofMatch m = { name := normalizeName (m.group 1)
                                     dataType := canonicalType (m.group 2)
                                     args := m.group 3 } := by
  have herase : ∀ p : Pattern, p.erase [] = [] := fun p => p.rewriteFrom_nil _ none
  have hauto : autoIncrementPattern.occursIn [] = false := by decide
  have hleft : leftAttrs m = [] := by
    simp only [leftAttrs, h, List.foldl_cons, List.foldl_nil, herase, hauto]
    rfl
  have hsign : signPattern.occursIn [] = false := by decide
  have hnotNull : notNullPattern.occursIn [] = false := by decide
  have hcollate : collatePattern.find? [] = none := by decide
  have hdefault : defaultPattern.find? [] = none := by decide
  refine ⟨hleft, ?_⟩
  simp only [ofMatch, hleft, h, List.foldl_cons, List.foldl_nil, herase, hauto, hsign, hnotNull,
    hcollate, hdefault]
  rfl

end Column

namespace WrittenColumn

variable {w : WrittenColumn} (h : w.ReadAsColumn)
include h

/-- **A written column is read as itself.** -/
theorem ofText_core (lits : LiteralTable) (opts : TypeOptions) :
    TableItem.ofText lits opts w.core = .column (w.column opts) := by
  obtain ⟨m, hm, hname, htype, hargs, hrest⟩ := w.exists_definition
  obtain ⟨hleft, hmatch⟩ := Column.ofMatch_of_plain hrest
  rw [hname, htype, hargs, w.normalizeName_quoteIdent, w.canonicalType_type] at hmatch
  have hdefault : Column.newDefault? m lits opts = none := by
    rw [Column.newDefault?, hmatch]
    rfl
  have hcolumn : Column.ofText? w.core lits opts false = some (w.column opts) := by
    rw [Column.ofText?_eq, hm, Option.map_some, Column.defaultedAttrs, hdefault, hleft, hmatch]
    rfl
  rw [TableItem.ofText, w.find?_primaryKeyPattern, keyClause?_core h, hcolumn]
  simp only [occursIn_constraintPattern h]
  rfl

end WrittenColumn

/-! ## The column in the output -/

/-- The type of a column has an underscore only from its name or its arguments. -/
theorem Column.underscore_notMem_targetType {col : Column} (htype : (95 : UInt8) ∉ col.dataType)
    (hname : (95 : UInt8) ∉ canonicalType col.dataType) (hargs : (95 : UInt8) ∉ col.args)
    (opts : TypeOptions) : (95 : UInt8) ∉ col.targetType opts := by
  have hlist : ∀ {a b : Bytes}, (95 : UInt8) ∉ a → (95 : UInt8) ∉ b →
      (95 : UInt8) ∉ a ++ ascii "(" ++ b ++ ascii ")" := by
    intro a b ha hb
    simp only [List.mem_append, not_or]
    exact ⟨⟨⟨ha, by decide⟩, hb⟩, by decide⟩
  have hwords : (95 : UInt8) ∉ (words col.args).flatten := by
    intro hmem
    obtain ⟨v, hv, hb⟩ := List.mem_flatten.1 hmem
    exact hargs (mem_of_mem_words hv hb)
  rw [targetType]
  repeat' refine iteInduction (motive := fun t => (95 : UInt8) ∉ t) (fun _ => ?_) (fun _ => ?_)
  all_goals first
    | decide
    | exact hname
    | exact htype
    | exact hlist (by decide) hwords
    | exact hlist hname hwords
    | exact hlist htype hargs

/-- The constraint for an enumeration on one line. -/
theorem Column.oneLine_enumCheck {name : Bytes} (hname : Solid (openParen :: name)) (args : Bytes) :
    oneLine (ascii " CHECK (" ++ name ++ ascii " IN (" ++ args ++ ascii "))")
      = ascii "CHECK (" ++ (name ++ 32 :: (ascii "IN " ++
          oneLine (openParen :: (args ++ [closeParen, closeParen])))) := by
  have hblank : (32 : UInt8) < 128 ∧ isSpace (32 : UInt8).toNat = true := by decide
  have htext : ascii " CHECK (" ++ name ++ ascii " IN (" ++ args ++ ascii "))"
      = 32 :: (ascii "CHECK" ++ 32 :: (openParen :: name ++ 32 :: (ascii "IN" ++
          32 :: (openParen :: (args ++ [closeParen, closeParen]))))) := by
    simp only [List.append_assoc]
    rfl
  obtain ⟨tail, htail⟩ := oneLine_solid_append (args ++ [closeParen, closeParen])
  have hlast := htail [openParen] (by decide)
  have hne : words (openParen :: (args ++ [closeParen, closeParen])) ≠ [] := by
    refine words_ne_nil ?_
    rw [← List.singleton_append, hlast]
    exact List.cons_ne_nil _ _
  obtain ⟨v, vs, hvs⟩ := List.exists_cons_of_ne_nil hne
  rw [htext, oneLine, words_cons_space hblank, words_append_blank hblank, words_append_blank hblank,
    words_append_blank hblank, words_solid (by decide), words_solid hname, words_solid (by decide),
    oneLine, hvs]
  simp only [List.singleton_append, join_cons_cons]
  rfl

namespace WrittenColumn

variable (w : WrittenColumn)

theorem underscore_notMem_typeFor (opts : TypeOptions) :
    (95 : UInt8) ∉ (w.column opts).typeFor opts false := by
  have hword : IsWord (w.type.map lowerByte) :=
    IsWord.map_lowerByte ⟨w.type_ne, fun b hb => (w.type_byte hb).1.2⟩
  have htype : (95 : UInt8) ∉ w.type.map lowerByte := by
    intro hmem
    obtain ⟨b, hb, hlower⟩ := List.mem_map.1 hmem
    obtain rfl := lowerByte_eq_underscore.1 hlower
    exact absurd (w.type_letter 95 hb) (by decide)
  have hcanonical : canonicalType (w.type.map lowerByte) = w.type.map lowerByte := by
    rw [canonicalType, oneLine_solid hword.solid, hword.toLower, map_lowerByte_idem]
  have hargs : (95 : UInt8) ∉ w.args := fun hmem => (w.args_byte hmem).2.1 rfl
  exact @Column.underscore_notMem_targetType (w.column opts) htype (hcanonical.symm ▸ htype) hargs opts

/-- The name in the output stays in one word with a parenthesis in front. -/
theorem solid_paren_name : Solid (openParen :: quoteIdent w.name) := by
  refine ⟨List.cons_ne_nil _ _, List.forall_mem_cons.2 ⟨by decide, fun b hb => ?_⟩⟩
  rcases byte_of_mem_quoteIdent w.nameWord hb with rfl | hbyte
  · decide
  · exact (plain_of_isNameByte hbyte).1

theorem restore_attrs (hname : containsText w.name marker = false) (opts : TypeOptions)
    (lits : LiteralTable) : restore (w.column opts).attrs lits = (w.column opts).attrs := by
  have hquote : doubleQuote ∉ w.name := w.nameWord.quote_notMem
  have hlist : containsText (ascii "IN " ++
      oneLine (openParen :: (w.args ++ [closeParen, closeParen]))) marker = false := by
    refine containsText_marker_of_notMem fun hmem => ?_
    rcases List.mem_append.1 hmem with h | h
    · exact absurd h (by decide)
    rcases mem_of_mem_oneLine h with h | h
    · exact absurd h (by decide)
    simp only [List.mem_cons, List.mem_append, List.not_mem_nil, or_false] at h
    rcases h with h | h | h | h
    · exact absurd h (by decide)
    · exact (w.args_byte h).2.1 rfl
    · exact absurd h (by decide)
    · exact absurd h (by decide)
  rw [column]
  dsimp only
  rw [Column.enumConstraint]
  split
  · have hcheck : ∀ s : Bytes, ascii "CHECK (" ++ s = ascii "CHECK " ++ openParen :: s := fun s => rfl
    rw [Column.oneLine_enumCheck w.solid_paren_name, hcheck,
      restore_unmarked_append rfl lits (by decide), restore_quoteIdent hquote hname lits rfl,
      restore_of_unmarked lits hlist]
  · rfl

/-- No placeholder stands in the column, if there is none in its name. -/
theorem restore_render (hname : containsText w.name marker = false) (opts : TypeOptions)
    (lits : LiteralTable) :
    restore ((w.column opts).render opts) lits = (w.column opts).render opts := by
  have hquote : doubleQuote ∉ w.name := w.nameWord.quote_notMem
  have htype := containsText_marker_of_notMem (w.underscore_notMem_typeFor opts)
  have hblank : ascii " " = [32] := rfl
  rw [Column.render]
  split
  · rw [hblank, List.append_assoc, List.singleton_append]
    exact (restore_quoteIdent hquote hname lits rfl _).trans
      (congrArg (quoteIdent w.name ++ 32 :: ·) (restore_of_unmarked lits htype))
  · have hrest : restore ((w.column opts).typeFor opts false ++ 32 :: (w.column opts).attrs) lits
        = (w.column opts).typeFor opts false ++ 32 :: (w.column opts).attrs := by
      rw [restore_unmarked_append rfl lits htype, w.restore_attrs hname]
    simp only [hblank, List.append_assoc, List.singleton_append]
    exact (restore_quoteIdent hquote hname lits rfl _).trans
      (congrArg (quoteIdent w.name ++ 32 :: ·) hrest)

end WrittenColumn

end SqlDialect
