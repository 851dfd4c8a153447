import SqlDialect.Proofs.Identifier.Names
import SqlDialect.Proofs.Literal.Separate
import SqlDialect.Proofs.Literal.Stray
import SqlDialect.Proofs.Text.OneLine

set_option autoImplicit false

/-! # Table names in statements and in the catalog

A table name is a segment, or two segments with a dot between them: a schema and a table. A segment
is a bare word, a name between double quotes, or the placeholder of a literal between double quotes.
The catalog knows the table by its table segment alone (`TableName.entry`), and statements get there
in three ways, by cutting off the schema of the name as it is written, of the name as it appears in
the output, or not at all. The first way always finds the entry (`entry_of_written`), the second if
no bare schema stands in front of a quoted table (`entry_of_rendered`), and the third only for names
that the catalog itself can cut (`entry_of_whole`). -/

namespace SqlDialect

open Bytes

/-! ## Words that may stand bare -/

/-- A word of the bytes that bare names consist of. -/
structure NameWord (w : Bytes) : Prop where
  ne_nil : w ≠ []
  byte : ∀ b ∈ w, isNameByte b = true

theorem plain_of_isNameByte {b : UInt8} (hb : isNameByte b = true) :
    (b < 128 ∧ isSpace b.toNat = false) ∧ b ≠ doubleQuote ∧ b ≠ backtick ∧ b ≠ 46 ∧
      isNameByte (lowerByte b) = true :=
  forall_byte (P := fun b => isNameByte b = true →
    (b < 128 ∧ isSpace b.toNat = false) ∧ b ≠ doubleQuote ∧ b ≠ backtick ∧ b ≠ 46 ∧
      isNameByte (lowerByte b) = true) (by decide +kernel) b hb

namespace NameWord

variable {w : Bytes} (h : NameWord w)
include h

theorem solid : Solid w :=
  ⟨h.ne_nil, fun b hb => (plain_of_isNameByte (h.byte b hb)).1⟩

theorem toLower : toLower w = w.map lowerByte :=
  toLower_ascii h.solid.ascii

theorem map_lowerByte : NameWord (w.map lowerByte) := by
  refine ⟨mt List.map_eq_nil_iff.1 h.ne_nil, fun b hb => ?_⟩
  obtain ⟨x, hx, rfl⟩ := List.mem_map.1 hb
  exact (plain_of_isNameByte (h.byte x hx)).2.2.2.2

theorem quote_notMem : doubleQuote ∉ w :=
  fun hmem => (plain_of_isNameByte (h.byte _ hmem)).2.1 rfl

theorem dot_notMem : (46 : UInt8) ∉ w :=
  fun hmem => (plain_of_isNameByte (h.byte _ hmem)).2.2.2.1 rfl

theorem head?_ne {q : UInt8} (hq : isNameByte q = false) : w.head? ≠ some q := by
  intro hhead
  have hmem : q ∈ w := List.mem_of_head? hhead
  exact Bool.noConfusion (hq.symm.trans (h.byte q hmem))

theorem getLast?_ne {q : UInt8} (hq : isNameByte q = false) : w.getLast? ≠ some q := by
  intro hlast
  have hmem : q ∈ w := List.mem_of_getLast? hlast
  exact Bool.noConfusion (hq.symm.trans (h.byte q hmem))

end NameWord

/-- The word itself, or the word in some letter case between double quotes. -/
def RendersWord (text w : Bytes) : Prop :=
  text = w ∨
    ∃ v, text = doubleQuote :: v ++ [doubleQuote] ∧ NameWord v ∧ v.map lowerByte = w.map lowerByte

theorem rendersWord_quoteIdent {w : Bytes} (hw : NameWord w) : RendersWord (quoteIdent w) w := by
  rw [quoteIdent]
  split
  · exact Or.inr ⟨w, by rw [doubleQuoted, replaceAll_of_notMem hw.quote_notMem], hw, rfl⟩
  split
  · refine Or.inr ⟨Bytes.toLower w, rfl, ?_, ?_⟩
    · rw [hw.toLower]
      exact hw.map_lowerByte
    · rw [hw.toLower, map_lowerByte_idem]
  · exact Or.inl rfl

/-- A rendered name has bytes of names, and perhaps quotes around them. -/
theorem byte_of_mem_quoteIdent {w : Bytes} (hw : NameWord w) {b : UInt8} (hb : b ∈ quoteIdent w) :
    b = doubleQuote ∨ isNameByte b = true := by
  rcases rendersWord_quoteIdent hw with heq | ⟨v, heq, hv, -⟩
  · rw [heq] at hb
    exact Or.inr (hw.byte b hb)
  · rw [heq] at hb
    simp only [List.cons_append, List.mem_cons, List.mem_append, List.not_mem_nil, or_false] at hb
    rcases hb with hb | hb | hb
    · exact Or.inl hb
    · exact Or.inr (hv.byte b hb)
    · exact Or.inl hb

/-! ## The catalog's names -/

namespace KeyCatalog

theorem trimSpace_solid {v : Bytes} (hv : Solid v) : trimSpace v = v := by
  have hnil : ∀ b ∈ ([] : Bytes), b < 128 ∧ isSpace b.toNat = true :=
    fun b hb => absurd hb List.not_mem_nil
  have hpad := trimSpace_padded hnil hv.2 hv.1 hnil
  rwa [List.nil_append, List.append_nil] at hpad

theorem unquoteName_of_nameWord {w : Bytes} (hw : NameWord w) :
    unquoteName w = w.map lowerByte := by
  rw [unquoteName, trimSpace_solid hw.solid]
  have hquote : (w.head? == some 34) = false := beq_eq_false_iff_ne.2 (hw.head?_ne rfl)
  have htick : (w.head? == some 96) = false := beq_eq_false_iff_ne.2 (hw.head?_ne rfl)
  simp [hquote, htick, hw.toLower]

theorem unquoteName_of_quoted {v : Bytes} (hv : NameWord v) :
    unquoteName (doubleQuote :: v ++ [doubleQuote]) = v.map lowerByte := by
  have hsolid : Solid (doubleQuote :: v ++ [doubleQuote]) := by
    refine ⟨List.cons_ne_nil _ _, fun b hb => ?_⟩
    simp only [List.cons_append, List.mem_cons, List.mem_append, List.not_mem_nil, or_false] at hb
    rcases hb with rfl | hb | rfl
    · decide
    · exact hv.solid.2 b hb
    · decide
  have hlast : (doubleQuote :: v ++ [doubleQuote]).getLast? = some 34 := List.getLast?_concat
  have hinside : ((doubleQuote :: v ++ [doubleQuote]).drop 1).dropLast = v :=
    List.dropLast_concat
  rw [unquoteName, trimSpace_solid hsolid, hlast, hinside, ← hv.toLower]
  simp [doubleQuote]

theorem tableName_of_nameWord {w : Bytes} (hw : NameWord w) : tableName w = w.map lowerByte := by
  rw [tableName, cutLast?_eq_none hw.dot_notMem]
  exact unquoteName_of_nameWord hw

theorem cutLast?_append {sep : UInt8} {s : Bytes} (h : sep ∉ s) (a : Bytes) :
    cutLast? sep (a ++ sep :: s) = some (a, s) := by
  induction a with
  | nil =>
    rw [List.nil_append, cutLast?, cutLast?_eq_none h]
    exact if_pos rfl
  | cons b a ih => rw [List.cons_append, cutLast?, ih]

/-- Behind its last dot a name that ends in a rendered word is known by the word. -/
theorem tableName_append_rendered {text w : Bytes} (hw : NameWord w) (h : RendersWord text w)
    (a : Bytes) : tableName (a ++ 46 :: text.map lowerByte) = w.map lowerByte := by
  rcases h with rfl | ⟨v, rfl, hv, hlower⟩
  · rw [tableName, cutLast?_append hw.map_lowerByte.dot_notMem]
    show unquoteName (text.map lowerByte) = _
    rw [unquoteName_of_nameWord hw.map_lowerByte, map_lowerByte_idem]
  · have hquoted : (doubleQuote :: v ++ [doubleQuote]).map lowerByte
        = doubleQuote :: v.map lowerByte ++ [doubleQuote] := by
      rw [List.map_append, List.map_cons]
      rfl
    have hdot : (46 : UInt8) ∉ doubleQuote :: v.map lowerByte ++ [doubleQuote] := by
      simp only [List.cons_append, List.mem_cons, List.mem_append, List.not_mem_nil, or_false,
        not_or]
      exact ⟨by decide, hv.map_lowerByte.dot_notMem, by decide⟩
    rw [hquoted, tableName, cutLast?_append hdot]
    show unquoteName (doubleQuote :: v.map lowerByte ++ [doubleQuote]) = _
    rw [unquoteName_of_quoted hv.map_lowerByte, map_lowerByte_idem, hlower]

end KeyCatalog

/-! ## Placeholders as names -/

theorem not_isPlaceholder_of_dot {s : Bytes} (h : (46 : UInt8) ∈ s) : isPlaceholder s = false := by
  rw [isPlaceholder, Option.isSome_eq_false_iff, Option.isNone_iff_eq_none]
  by_contra hsome
  obtain ⟨n, hn⟩ := Option.ne_none_iff_exists'.1 hsome
  obtain ⟨digits, rfl, hdigits⟩ := eq_append_of_placeholderIndex? hn
  rcases List.mem_append.1 h with hmarker | h
  · exact absurd hmarker (by decide)
  rcases List.mem_append.1 h with hdigit | hend
  · exact absurd (hdigits _ hdigit) (by decide)
  · exact absurd hend (by decide)

theorem nameWord_placeholder (n : Nat) : NameWord (placeholder n) := by
  refine ⟨?_, fun b hb => isNameByte_of_isWord (isWord_of_mem_placeholder hb)⟩
  rw [placeholder]
  simp [marker, ascii]

theorem head?_placeholder (n : Nat) : (placeholder n).head? = some 95 :=
  rfl

/-- A placeholder appears in the output as it is, until its literal comes back. -/
theorem quoteIdent_placeholder (n : Nat) : quoteIdent (placeholder n) = placeholder n := by
  have hhead := head?_placeholder n
  have hbytes := (nameWord_placeholder n).byte
  have hlower : Bytes.toLower (placeholder n) = placeholder n := by
    rw [(nameWord_placeholder n).toLower]
    exact (List.map_congr_left fun b hb => lowerByte_of_mem_placeholder hb).trans (List.map_id _)
  have hother : ∀ names : List Bytes, (∀ w ∈ names, w.head? ≠ some 95) →
      names.contains (placeholder n) = false := by
    intro names hnames
    rw [List.contains_eq_mem, decide_eq_false_iff_not]
    exact fun hmem => hnames _ hmem hhead
  have hbare : needsQuoting (placeholder n) = false := by
    obtain ⟨s, hs⟩ := List.head?_eq_some_iff.1 hhead
    rw [hs] at hbytes ⊢
    have hrest : s.all isNameByte = true :=
      List.all_eq_true.2 fun b hb => hbytes b (List.mem_cons_of_mem _ hb)
    rw [needsQuoting, hrest]
    rfl
  rw [quoteIdent, hother caseSensitiveNames (by decide), hbare, hlower,
    hother reservedWords (by decide)]
  rfl

/-! ## Names without their quotes -/

theorem lookup?_of_isPlaceholder {s : Bytes} (h : isPlaceholder s = false) (lits : LiteralTable) :
    lits.lookup? s = none := by
  rw [isPlaceholder, Option.isSome_eq_false_iff, Option.isNone_iff_eq_none] at h
  rw [LiteralTable.lookup?, h]
  rfl

theorem bareName_of_nameWord {w : Bytes} (hw : NameWord w) (hplain : isPlaceholder w = false)
    (lits : LiteralTable) : bareName w lits = w.map lowerByte := by
  have hquote : (w.head? == some doubleQuote) = false :=
    beq_eq_false_iff_ne.2 (hw.head?_ne rfl)
  rw [bareName, lookup?_of_isPlaceholder hplain]
  simp [unquoted?, hquote, hw.toLower]

theorem bareName_of_quoted (v : Bytes) (lits : LiteralTable) :
    bareName (doubleQuote :: v ++ [doubleQuote]) lits = v := by
  have hnone : lits.lookup? (doubleQuote :: v ++ [doubleQuote]) = none :=
    lookup?_of_dropLead? (dropLead?_marker_doubleQuote _) lits
  have hinside : unquoted? (doubleQuote :: v ++ [doubleQuote]) = some v := by
    simp [unquoted?, List.getLast?_cons]
  rw [bareName, hnone, hinside]
  rfl

/-- The catalog knows a word as it appears in the output by its lower-case form. -/
theorem tableName_bareName_quoteIdent {w : Bytes} (hw : NameWord w)
    (hplain : isPlaceholder w = false) (lits : LiteralTable) :
    KeyCatalog.tableName (bareName (quoteIdent w) lits) = w.map lowerByte := by
  rcases rendersWord_quoteIdent hw with heq | ⟨v, heq, hv, hlower⟩
  · rw [heq, bareName_of_nameWord hw hplain, KeyCatalog.tableName_of_nameWord hw.map_lowerByte,
      map_lowerByte_idem]
  · rw [heq, bareName_of_quoted, KeyCatalog.tableName_of_nameWord hv, hlower]

theorem toLower_append_ascii {x : UInt8} (hx : x < 128) (a s : Bytes) :
    Bytes.toLower (a ++ x :: s) = Bytes.toLower a ++ Bytes.toLower (x :: s) := by
  rw [Bytes.toLower, Utf8.glyphs_append_ascii hx, List.flatMap_append]
  rfl

/-- A qualified name that is not taken for quoted as a whole is cut by the catalog. -/
theorem tableName_bareName_qualified {a text w : Bytes} (hw : NameWord w)
    (htext : RendersWord text w) (ha : a ≠ [])
    (hopen : ¬ (a.head? = some doubleQuote ∧ text.getLast? = some doubleQuote))
    (lits : LiteralTable) :
    KeyCatalog.tableName (bareName (a ++ 46 :: text) lits) = w.map lowerByte := by
  have hne : text ≠ [] := by
    rcases htext with rfl | ⟨v, rfl, -, -⟩
    · exact hw.ne_nil
    · exact List.cons_ne_nil _ _
  have hascii : ∀ b ∈ 46 :: text, b < 128 := by
    refine List.forall_mem_cons.2 ⟨by decide, fun b hb => ?_⟩
    rcases htext with rfl | ⟨v, rfl, hv, -⟩
    · exact hw.solid.ascii b hb
    · simp only [List.cons_append, List.mem_cons, List.mem_append, List.not_mem_nil, or_false] at hb
      rcases hb with rfl | hb | rfl
      · decide
      · exact hv.solid.ascii b hb
      · decide
  have hnone : lits.lookup? (a ++ 46 :: text) = none :=
    lookup?_of_isPlaceholder
      (not_isPlaceholder_of_dot (List.mem_append_right _ List.mem_cons_self)) lits
  have hlast : (a ++ 46 :: text).getLast? = text.getLast? := by
    rw [List.getLast?_append, List.getLast?_cons]
    cases hlast : text.getLast? with
    | none => exact absurd (List.getLast?_eq_none_iff.1 hlast) hne
    | some y => simp
  have hunquoted : unquoted? (a ++ 46 :: text) = none := by
    rw [unquoted?, head?_append_left ha, hlast, if_neg]
    simp only [Bool.and_eq_true, beq_iff_eq, not_and, and_imp]
    exact fun _ hhead hend => hopen ⟨hhead, hend⟩
  rw [bareName, hnone, hunquoted]
  show KeyCatalog.tableName (Bytes.toLower (a ++ 46 :: text)) = _
  rw [toLower_append_ascii (by decide), toLower_ascii hascii]
  exact KeyCatalog.tableName_append_rendered hw htext _

/-! ## The last segment -/

/-- Walking back over the text from a place outside quotes ends outside quotes, and meets no dot
outside them. -/
def Closed (t : Bytes) : Prop :=
  ∀ seen r, lastSegment.go false seen (t.reverse ++ r) = lastSegment.go false (t ++ seen) r

theorem closed_of_nameWord {w : Bytes} (hw : NameWord w) : Closed w := by
  have hgo : ∀ (t seen r : Bytes), doubleQuote ∉ t → (46 : UInt8) ∉ t →
      lastSegment.go false seen (t ++ r) = lastSegment.go false (t.reverse ++ seen) r := by
    intro t
    induction t with
    | nil => exact fun _ _ _ _ => rfl
    | cons b t ih =>
      intro seen r hquote hdot
      rw [List.mem_cons, not_or] at hquote hdot
      rw [List.cons_append, lastSegment.go, if_neg (Ne.symm hquote.1),
        if_neg fun h => hdot.1 h.1.symm, ih _ _ hquote.2 hdot.2]
      simp
  intro seen r
  have hreverse := hgo w.reverse seen r (mt List.mem_reverse.1 hw.quote_notMem)
    (mt List.mem_reverse.1 hw.dot_notMem)
  rwa [List.reverse_reverse] at hreverse

/-- Between quotes every quote is doubled, so the walk stays between them. -/
theorem closed_doubleQuoted (name : Bytes) : Closed (doubleQuoted name) := by
  have hinside : ∀ (name seen r : Bytes),
      lastSegment.go true seen
          ((replaceAll [doubleQuote] [doubleQuote, doubleQuote] name).reverse ++ r)
        = lastSegment.go true
          (replaceAll [doubleQuote] [doubleQuote, doubleQuote] name ++ seen) r := by
    intro name
    induction name with
    | nil => exact fun _ _ => rfl
    | cons b name ih =>
      intro seen r
      rw [replaceAll_cons, List.reverse_append, List.append_assoc, ih]
      split
      · rfl
      · rename_i hb
        rw [List.reverse_singleton, List.singleton_append, List.singleton_append, lastSegment.go,
          if_neg hb, if_neg (by simp)]
        rfl
  intro seen r
  rw [doubleQuoted, List.reverse_append, List.reverse_singleton, List.reverse_cons,
    List.append_assoc, List.append_assoc, List.singleton_append, lastSegment.go, if_pos rfl]
  show lastSegment.go true (doubleQuote :: seen) _ = _
  rw [hinside, List.singleton_append, lastSegment.go, if_pos rfl]
  simp

theorem closed_of_rendersWord {text w : Bytes} (hw : NameWord w) (h : RendersWord text w) :
    Closed text := by
  rcases h with rfl | ⟨v, rfl, hv, -⟩
  · exact closed_of_nameWord hw
  · have hclosed := closed_doubleQuoted v
    rwa [doubleQuoted, replaceAll_of_notMem hv.quote_notMem] at hclosed

theorem Closed.lastSegment {t : Bytes} (h : Closed t) : lastSegment t = t := by
  have hgo := h [] []
  rw [List.append_nil, List.append_nil] at hgo
  rw [SqlDialect.lastSegment, hgo, lastSegment.go]

/-- The last segment of a qualified name is what stands behind the dot. -/
theorem Closed.lastSegment_append {t : Bytes} (h : Closed t) (a : Bytes) :
    SqlDialect.lastSegment (a ++ 46 :: t) = t := by
  rw [SqlDialect.lastSegment, List.reverse_append, List.reverse_cons, List.append_assoc, h,
    List.append_nil, List.singleton_append, lastSegment.go, if_neg (by decide), if_pos (by simp)]

/-! ## Names as they appear in the output -/

theorem normalizeName_of_quoted {s : Bytes} (h : s.head? = some doubleQuote) :
    normalizeName s = s := by
  rw [normalizeName, h]
  simp

theorem normalizeName_of_isPlaceholder {s : Bytes} (h : isPlaceholder s = true) :
    normalizeName s = s := by
  rw [normalizeName, h]
  simp

theorem normalizeName_of_nameWord {w : Bytes} (hw : NameWord w) (hplain : isPlaceholder w = false) :
    normalizeName w = quoteIdent w := by
  have hempty : w.isEmpty = false := by simpa using hw.ne_nil
  have hquote : (w.head? == some doubleQuote) = false :=
    beq_eq_false_iff_ne.2 (hw.head?_ne rfl)
  have hdot : w.contains 46 = false := by simpa using hw.dot_notMem
  rw [normalizeName, hempty, hquote, hplain, hdot]
  rfl

theorem splitOnByte_of_notMem {sep : UInt8} {s : Bytes} (h : sep ∉ s) : splitOnByte sep s = [s] := by
  induction s with
  | nil => rfl
  | cons b s ih =>
    rw [List.mem_cons, not_or] at h
    rw [splitOnByte, ih h.2]
    exact if_neg (Ne.symm h.1)

theorem splitOnByte_append_cons {sep : UInt8} {a : Bytes} (ha : sep ∉ a) (s : Bytes) :
    splitOnByte sep (a ++ sep :: s) = a :: splitOnByte sep s := by
  obtain ⟨part, parts, hs⟩ := List.exists_cons_of_ne_nil (splitOnByte_ne_nil sep s)
  induction a with
  | nil =>
    rw [List.nil_append, splitOnByte, hs]
    exact if_pos rfl
  | cons b a ih =>
    rw [List.mem_cons, not_or] at ha
    rw [List.cons_append, splitOnByte, ih ha.2]
    exact if_neg (Ne.symm ha.1)

/-- Without quotes a qualified name is rendered segment by segment. -/
theorem normalizeName_qualified {a w : Bytes} (ha : NameWord a) (hw : NameWord w) :
    normalizeName (a ++ 46 :: w) = quoteIdent a ++ 46 :: quoteIdent w := by
  have hempty : (a ++ 46 :: w).isEmpty = false := by simp
  have hquote : ((a ++ 46 :: w).head? == some doubleQuote) = false := by
    rw [head?_append_left ha.ne_nil]
    exact beq_eq_false_iff_ne.2 (ha.head?_ne rfl)
  have hplain : isPlaceholder (a ++ 46 :: w) = false :=
    not_isPlaceholder_of_dot (List.mem_append_right _ List.mem_cons_self)
  have hdot : (a ++ 46 :: w).contains 46 = true := by simp
  have hquotes : (a ++ 46 :: w).contains doubleQuote = false := by
    rw [List.contains_eq_mem, decide_eq_false_iff_not, List.mem_append, List.mem_cons, not_or,
      not_or]
    exact ⟨ha.quote_notMem, by decide, hw.quote_notMem⟩
  rw [normalizeName, hempty, hquote, hplain, hdot, hquotes,
    splitOnByte_append_cons ha.dot_notMem, splitOnByte_of_notMem hw.dot_notMem]
  simp [join, List.intercalate]

/-! ## Segments and names -/

/-- A segment of a table name. -/
inductive NameSegment where
  /-- A bare word. -/
  | bare (word : Bytes)
  /-- A name between double quotes in the text. -/
  | quoted (name : Bytes)
  /-- A literal between double quotes, for which a placeholder stands. -/
  | literal (body : Bytes)
deriving Repr, DecidableEq

namespace NameSegment

/-- The segment without its quotes. -/
def inside : NameSegment → Bytes
  | bare word => word.map lowerByte
  | quoted name => replaceAll [doubleQuote] [doubleQuote, doubleQuote] name
  | literal body => body

/-- The text that stands for the segment. -/
def Written (lits : LiteralTable) : NameSegment → Bytes → Prop
  | bare word, s => s = word ∧ NameWord word ∧ isPlaceholder word = false
  | quoted name, s => s = doubleQuoted name
  | literal body, s => (∃ n, s = placeholder n) ∧ (lits.lookup? s).map Literal.body = some body

variable {lits : LiteralTable} {g : NameSegment} {s : Bytes}

theorem Written.closed (h : g.Written lits s) : Closed s := by
  cases g with
  | bare word =>
    obtain ⟨rfl, hw, -⟩ := h
    exact closed_of_nameWord hw
  | quoted name =>
    obtain rfl := h
    exact closed_doubleQuoted name
  | literal body =>
    obtain ⟨⟨n, rfl⟩, -⟩ := h
    exact closed_of_nameWord (nameWord_placeholder n)

theorem Written.bareName (h : g.Written lits s) : bareName s lits = g.inside := by
  cases g with
  | bare word =>
    obtain ⟨rfl, hw, hplain⟩ := h
    exact bareName_of_nameWord hw hplain lits
  | quoted name =>
    obtain rfl := h
    exact bareName_of_quoted _ lits
  | literal body =>
    obtain ⟨-, hbody⟩ := h
    obtain ⟨l, hl, rfl⟩ := Option.map_eq_some_iff.1 hbody
    rw [SqlDialect.bareName, hl]
    rfl

/-- The segment as it appears in the output: closed, and known to the catalog like the segment. -/
structure Rendered (lits : LiteralTable) (g : NameSegment) (s : Bytes) : Prop where
  closed : Closed s
  tableName : KeyCatalog.tableName (SqlDialect.bareName s lits) = KeyCatalog.tableName g.inside

theorem Written.rendered (h : g.Written lits s) : g.Rendered lits s :=
  ⟨h.closed, by rw [h.bareName]⟩

/-- Outside quotes a segment is a word, and stays the same segment when it is quoted. -/
theorem Written.unquoted (hg : ∀ name, g ≠ quoted name) (h : g.Written lits s) :
    NameWord s ∧ g.Rendered lits (quoteIdent s) := by
  cases g with
  | bare word =>
    obtain ⟨rfl, hw, hplain⟩ := h
    refine ⟨hw, closed_of_rendersWord hw (rendersWord_quoteIdent hw), ?_⟩
    rw [tableName_bareName_quoteIdent hw hplain, inside,
      KeyCatalog.tableName_of_nameWord hw.map_lowerByte, map_lowerByte_idem]
  | quoted name => exact absurd rfl (hg name)
  | literal body =>
    have hrendered := Written.rendered h
    obtain ⟨⟨n, rfl⟩, -⟩ := h
    rw [quoteIdent_placeholder]
    exact ⟨nameWord_placeholder n, hrendered⟩

theorem Written.isPlaceholder {body : Bytes} (h : (literal body).Written lits s) :
    isPlaceholder s = true := by
  by_contra hplain
  rw [Bool.not_eq_true] at hplain
  have hbody := h.2
  rw [lookup?_of_isPlaceholder hplain] at hbody
  cases hbody

/-- A segment without a schema is the same segment in the output. -/
theorem Written.rendered_normalizeName (h : g.Written lits s) :
    g.Rendered lits (normalizeName s) := by
  have hrendered := h.rendered
  cases g with
  | bare word =>
    have hunquoted := (Written.unquoted (fun _ => NameSegment.noConfusion) h).2
    obtain ⟨rfl, hw, hplain⟩ := h
    rwa [normalizeName_of_nameWord hw hplain]
  | quoted name =>
    obtain rfl := h
    rwa [normalizeName_of_quoted rfl]
  | literal body => rwa [normalizeName_of_isPlaceholder h.isPlaceholder]

end NameSegment

/-- A table name: its schema, if one is given, and the table. -/
structure TableName where
  schema : Option NameSegment := none
  table : NameSegment
deriving Repr, DecidableEq

namespace TableName

/-- The text that stands for the name. -/
def Written (lits : LiteralTable) (n : TableName) (s : Bytes) : Prop :=
  match n.schema with
  | none => n.table.Written lits s
  | some schema => ∃ a t, schema.Written lits a ∧ n.table.Written lits t ∧ s = a ++ 46 :: t

/-- The name under which the catalog knows the table. -/
def entry (n : TableName) : Bytes :=
  KeyCatalog.tableName n.table.inside

/-- The output has the segments of the name: a table in quotes has its schema in quotes too, so that
the name is taken for quoted as a whole and kept. -/
def KeepsSegments : TableName → Prop
  | ⟨some (.bare _), .quoted _⟩ | ⟨some (.literal _), .quoted _⟩ => False
  | _ => True

/-- The catalog can cut the name as it appears in the output: behind a schema the table is a bare
word, and not both of them get quotes. -/
def CutByCatalog : TableName → Prop
  | ⟨none, _⟩ => True
  | ⟨some (.bare schema), .bare word⟩ =>
    ¬ ((quoteIdent schema).head? = some doubleQuote ∧ (quoteIdent word).head? = some doubleQuote)
  | ⟨some _, .bare _⟩ => True
  | ⟨some _, _⟩ => False

variable {lits : LiteralTable} {n : TableName} {s : Bytes}

theorem Written.lastSegment (h : n.Written lits s) : n.table.Written lits (lastSegment s) := by
  obtain ⟨schema, table⟩ := n
  cases schema with
  | none =>
    have hclosed := NameSegment.Written.closed (g := table) h
    rwa [hclosed.lastSegment]
  | some schema =>
    obtain ⟨a, t, -, ht, rfl⟩ := h
    rwa [ht.closed.lastSegment_append]

/-- Behind the schema of the name as it is written stands the table. -/
theorem entry_of_written (h : n.Written lits s) :
    KeyCatalog.tableName (bareName (SqlDialect.lastSegment s) lits) = n.entry := by
  rw [h.lastSegment.bareName, entry]

/-- The parts of a qualified name in the output, with the schema in quotes or outside them. -/
theorem normalizeName_cases {schema table : NameSegment} {a t : Bytes}
    (ha : schema.Written lits a) (ht : table.Written lits t)
    (hkeeps : KeepsSegments ⟨some schema, table⟩) :
    ((∃ name, schema = .quoted name) ∧ normalizeName (a ++ 46 :: t) = a ++ 46 :: t) ∨
      ((∀ name, schema ≠ .quoted name) ∧ (∀ name, table ≠ .quoted name) ∧
        normalizeName (a ++ 46 :: t) = quoteIdent a ++ 46 :: quoteIdent t) := by
  have hunquoted : (∀ name, schema ≠ .quoted name) →
      (∀ name, schema ≠ .quoted name) ∧ (∀ name, table ≠ .quoted name) ∧
        normalizeName (a ++ 46 :: t) = quoteIdent a ++ 46 :: quoteIdent t := by
    intro hschema
    have htable : ∀ name, table ≠ .quoted name := by
      rintro name rfl
      cases schema with
      | quoted other => exact hschema other rfl
      | bare _ => exact hkeeps
      | literal _ => exact hkeeps
    exact ⟨hschema, htable, normalizeName_qualified (ha.unquoted hschema).1 (ht.unquoted htable).1⟩
  cases schema with
  | quoted name =>
    left
    obtain rfl := ha
    exact ⟨⟨name, rfl⟩, normalizeName_of_quoted rfl⟩
  | bare _ => exact Or.inr (hunquoted fun _ => NameSegment.noConfusion)
  | literal _ => exact Or.inr (hunquoted fun _ => NameSegment.noConfusion)

/-- Behind the schema of the name as it appears in the output stands the table. -/
theorem entry_of_rendered (h : n.Written lits s) (hkeeps : n.KeepsSegments) :
    KeyCatalog.tableName (bareName (SqlDialect.lastSegment (normalizeName s)) lits) = n.entry := by
  obtain ⟨schema, table⟩ := n
  cases schema with
  | none =>
    have hrendered := NameSegment.Written.rendered_normalizeName (g := table) h
    rw [hrendered.closed.lastSegment, hrendered.tableName, entry]
  | some schema =>
    obtain ⟨a, t, ha, ht, rfl⟩ := h
    rcases normalizeName_cases ha ht hkeeps with ⟨-, hname⟩ | ⟨-, htable, hname⟩
    · rw [hname, ht.closed.lastSegment_append, ht.rendered.tableName, entry]
    · have hrendered := (ht.unquoted htable).2
      rw [hname, hrendered.closed.lastSegment_append, hrendered.tableName, entry]

/-- The catalog finds the table in the whole name as it appears in the output. -/
theorem entry_of_whole (h : n.Written lits s) (hcut : n.CutByCatalog) :
    KeyCatalog.tableName (bareName (normalizeName s) lits) = n.entry := by
  obtain ⟨schema, table⟩ := n
  cases schema with
  | none => exact (NameSegment.Written.rendered_normalizeName (g := table) h).tableName
  | some schema =>
    obtain ⟨a, t, ha, ht, rfl⟩ := h
    cases table with
    | quoted name => exact absurd hcut (by cases schema <;> exact id)
    | literal body => exact absurd hcut (by cases schema <;> exact id)
    | bare word =>
      have hkeeps : KeepsSegments ⟨some schema, .bare word⟩ := by cases schema <;> exact trivial
      have hentry : entry ⟨some schema, .bare word⟩ = word.map lowerByte := by
        obtain ⟨-, hw, -⟩ := ht
        rw [entry, NameSegment.inside, KeyCatalog.tableName_of_nameWord hw.map_lowerByte,
          map_lowerByte_idem]
      rcases normalizeName_cases ha ht hkeeps with ⟨⟨name, rfl⟩, hname⟩ | ⟨hschema, -, hname⟩
      · obtain rfl := ha
        obtain ⟨rfl, hw, -⟩ := ht
        rw [hname, hentry]
        refine tableName_bareName_qualified hw (Or.inl rfl) (List.cons_ne_nil _ _) ?_ lits
        exact fun hquotes => hw.getLast?_ne rfl hquotes.2
      · obtain ⟨rfl, hw, -⟩ := ht
        have hrenders := rendersWord_quoteIdent hw
        rw [hname, hentry]
        have ha' := (ha.unquoted hschema).1
        refine tableName_bareName_qualified hw hrenders ?_ ?_ lits
        · rcases rendersWord_quoteIdent ha' with heq | ⟨v, heq, -, -⟩
          · rw [heq]
            exact ha'.ne_nil
          · rw [heq]
            exact List.cons_ne_nil _ _
        · rintro ⟨hhead, hlast⟩
          -- what ends in a quote starts with one, so both segments would be in quotes
          have hquoted : (quoteIdent t).head? = some doubleQuote := by
            rcases hrenders with heq | ⟨v, heq, -, -⟩
            · rw [heq] at hlast
              exact absurd hlast (hw.getLast?_ne rfl)
            · rw [heq]
              rfl
          cases schema with
          | quoted name => exact hschema name rfl
          | bare other =>
            obtain ⟨rfl, -, -⟩ := ha
            exact hcut ⟨hhead, hquoted⟩
          | literal body =>
            obtain ⟨⟨k, rfl⟩, -⟩ := ha
            rw [quoteIdent_placeholder, head?_placeholder] at hhead
            exact absurd hhead (by decide)

end TableName

end SqlDialect
