import SqlDialect.Proofs.Identifier.Names
import SqlDialect.Proofs.Pattern.Ends
import SqlDialect.Proofs.Text.Bytes
import SqlDialect.Query.Call
import SqlDialect.Query.Operator
import SqlDialect.Statement.Insert

set_option autoImplicit false

/-! # The head of an INSERT statement through the rules

A head `INSERT INTO table (column, …)` whose names are words, bare or between backticks, comes
through the rules that run before the one for upserts with nothing changed but its backticks,
whatever follows it (`InsertHead.converted`), and it is then read as it was written
(`InsertHead.ofText?_rendered`).

A pattern that opens with a word is a bystander of such a head if it opens with no word of the head,
or if what it goes on with cannot follow a name there. A pattern that is a bystander starts no match
in the head, so replacing what it matches keeps the head. -/

namespace SqlDialect

open Bytes

/-! ## Heads as they are written -/

/-- The words that a name must not be: the rules read them as operators, calls or queries. -/
def ruleWords : List String :=
  ["SELECT", "LIKE", "REGEXP", "RLIKE", "IFNULL", "SUBSTRING_INDEX", "UNIX_TIMESTAMP"]

/-- The name is none of the words that the rules read in a way of their own. -/
def ReadAsName (name : Bytes) : Prop :=
  ∀ word ∈ ruleWords, name.map lowerByte ≠ (ascii word).map lowerByte

instance (name : Bytes) : Decidable (ReadAsName name) :=
  inferInstanceAs (Decidable (∀ word ∈ ruleWords, _))

/-- A name in a list, between its blanks. -/
structure ListedName where
  lead : Bytes
  name : WrittenName
  trail : Bytes
  lead_blank : AllBlank lead
  trail_blank : AllBlank trail

/-- The head of an INSERT statement that lists its columns. -/
structure InsertHead where
  lead : Bytes
  insertWord : Bytes
  gap : Bytes
  intoWord : Bytes
  tableLead : Bytes
  table : WrittenName
  tableTrail : Bytes
  columns : List ListedName
  insertWord_eq : insertWord.map lowerByte = ascii "insert"
  intoWord_eq : intoWord.map lowerByte = ascii "into"
  lead_blank : AllBlank lead
  gap_blank : AllBlank gap
  gap_ne : gap ≠ []
  tableLead_blank : AllBlank tableLead
  tableLead_ne : tableLead ≠ []
  tableTrail_blank : AllBlank tableTrail
  columns_ne : columns ≠ []
  table_readAsName : ReadAsName table.name
  columns_readAsName : ∀ col ∈ columns, ReadAsName col.name.name

namespace ListedName

/-- The name between its blanks, written by `f`. -/
def layout (f : WrittenName → Bytes) (col : ListedName) : Bytes :=
  col.lead ++ (f col.name ++ col.trail)

end ListedName

namespace InsertHead

/-- The list of columns, each name written by `f`. -/
def list (h : InsertHead) (f : WrittenName → Bytes) : Bytes :=
  join [comma] (h.columns.map (ListedName.layout f))

/-- The head, each name written by `f`. -/
def layout (h : InsertHead) (f : WrittenName → Bytes) : Bytes :=
  h.lead ++ (h.insertWord ++ (h.gap ++ (h.intoWord ++ (h.tableLead ++ (f h.table ++
    (h.tableTrail ++ ([openParen] ++ (h.list f ++ [closeParen]))))))))

/-- The head as it is written. -/
def text (h : InsertHead) : Bytes :=
  h.layout WrittenName.text

/-- The head without backticks. -/
def rendered (h : InsertHead) : Bytes :=
  h.layout WrittenName.rendered

/-- The words of the columns. -/
def columnNames (h : InsertHead) : List Bytes :=
  h.columns.map (·.name.name)

end InsertHead

/-! ## Bytes of the head -/

theorem isWord_of_map_lowerByte {word : Bytes} {s : String} (hs : Pattern.IsKeyword s)
    (h : word.map lowerByte = ascii s) : IsWord word := by
  have hword : IsWord (ascii s) := by
    refine ⟨?_, ?_⟩
    · rw [ascii, ne_eq, List.map_eq_nil_iff]
      exact hs.1
    · intro b hb
      obtain ⟨ch, hch, rfl⟩ := List.mem_map.1 hb
      exact (hs.2 ch hch).2
  have hlower : word.map lowerByte = (ascii s).map lowerByte := by
    rw [← h, map_lowerByte_idem]
  exact hword.of_map_lowerByte hlower

/-! ## Literals and backticks -/

/-- Whatever follows it, the text `a` is no part of a literal, and without backticks it is `a'`. -/
structure Unticks (a a' : Bytes) : Prop where
  ofText : ∀ s, Shielding.ofText (a ++ s) = (Shielding.ofText s).keep a
  replaceBackticks : ∀ s, replaceBackticks (a ++ s) = a' ++ replaceBackticks s

theorem Unticks.append {a a' b b' : Bytes} (ha : Unticks a a') (hb : Unticks b b') :
    Unticks (a ++ b) (a' ++ b') where
  ofText s := by
    rw [List.append_assoc, ha.ofText, hb.ofText]
    simp [Shielding.keep]
  replaceBackticks s := by
    rw [List.append_assoc, ha.replaceBackticks, hb.replaceBackticks, List.append_assoc]

theorem unticks_of_plain {a : Bytes}
    (h : ∀ b ∈ a, b ≠ singleQuote ∧ b ≠ doubleQuote ∧ b ≠ backtick) : Unticks a a where
  ofText s := by
    induction a with
    | nil => rfl
    | cons b a ih =>
      obtain ⟨⟨hsingle, hdouble, htick⟩, ha⟩ := List.forall_mem_cons.1 h
      rw [List.cons_append, Shielding.ofText, if_neg (not_or.2 ⟨hsingle, hdouble⟩), if_neg htick,
        ih ha]
      rfl
  replaceBackticks s := replaceBackticks_append (fun hmem => (h _ hmem).2.2 rfl) s

/-- Blanks and word bytes are no quotes. -/
theorem plain_of_isWord {b : UInt8} (hb : isWord b = true) :
    b ≠ singleQuote ∧ b ≠ doubleQuote ∧ b ≠ backtick := by
  refine ⟨?_, ?_, ?_⟩ <;>
  · rintro rfl
    exact absurd hb (by decide)

theorem unticks_of_isWord {a : Bytes} (h : IsWord a) : Unticks a a :=
  unticks_of_plain fun b hb => plain_of_isWord (h.2 b hb)

theorem unticks_of_allBlank {a : Bytes} (h : AllBlank a) : Unticks a a := by
  refine unticks_of_plain fun b hb => ⟨?_, ?_, ?_⟩ <;>
  · rintro rfl
    exact absurd (h _ hb) (by decide)

theorem throughByte_of_notMem {q : UInt8} {a : Bytes} (h : q ∉ a) (s : Bytes) :
    throughByte q (a ++ q :: s) = (a ++ [q], s) := by
  induction a with
  | nil => simp [throughByte]
  | cons b a ih =>
    rw [List.mem_cons, not_or] at h
    rw [List.cons_append, throughByte, if_neg (Ne.symm h.1), ih h.2]
    rfl

theorem WrittenName.unticks (n : WrittenName) : Unticks n.text n.rendered where
  ofText s := by
    rw [WrittenName.text]
    split
    · have hname : backtick ∉ n.name := n.plain.isWord.notMem rfl
      rw [List.cons_append, List.append_assoc, List.singleton_append, Shielding.ofText,
        if_neg (by decide), if_pos rfl, throughByte_of_notMem hname]
    · exact (unticks_of_isWord n.plain.isWord).ofText s
  replaceBackticks s := n.replaceBackticks_text s

theorem ListedName.unticks (col : ListedName) :
    Unticks (col.layout WrittenName.text) (col.layout WrittenName.rendered) :=
  (unticks_of_allBlank col.lead_blank).append
    (col.name.unticks.append (unticks_of_allBlank col.trail_blank))

theorem unticks_join (cols : List ListedName) :
    Unticks (join [comma] (cols.map (ListedName.layout WrittenName.text)))
      (join [comma] (cols.map (ListedName.layout WrittenName.rendered))) := by
  induction cols with
  | nil => exact unticks_of_plain (by simp [join])
  | cons col cols ih =>
    cases cols with
    | nil => simpa [join] using col.unticks
    | cons next cols =>
      have hcomma : Unticks [comma] [comma] := unticks_of_plain (by decide)
      rw [List.map_cons, List.map_cons, List.map_cons, List.map_cons, join_cons_cons,
        join_cons_cons]
      exact col.unticks.append (hcomma.append ih)

namespace InsertHead

variable (h : InsertHead)

theorem insertWord_isWord : IsWord h.insertWord :=
  isWord_of_map_lowerByte (by decide) h.insertWord_eq

theorem intoWord_isWord : IsWord h.intoWord :=
  isWord_of_map_lowerByte (by decide) h.intoWord_eq

theorem unticks : Unticks h.text h.rendered := by
  have hopen : Unticks [openParen] [openParen] := unticks_of_plain (by decide)
  have hclose : Unticks [closeParen] [closeParen] := unticks_of_plain (by decide)
  exact (unticks_of_allBlank h.lead_blank).append <|
    (unticks_of_isWord h.insertWord_isWord).append <|
    (unticks_of_allBlank h.gap_blank).append <|
    (unticks_of_isWord h.intoWord_isWord).append <|
    (unticks_of_allBlank h.tableLead_blank).append <| h.table.unticks.append <|
    (unticks_of_allBlank h.tableTrail_blank).append <| hopen.append <|
    (unticks_join h.columns).append hclose

/-- The literals of the statement are those behind the head. -/
theorem shield_text (rest : Bytes) :
    shield (h.text ++ rest) = (h.text ++ (shield rest).1, (shield rest).2) := by
  rw [shield, h.unticks.ofText]
  simp [shield, Shielding.text, Shielding.literals, Shielding.keep]

end InsertHead

/-! ## Bystanders -/

/-- The bytes that part the names of a head, blanks apart. -/
def separators : List UInt8 :=
  [doubleQuote, comma, closeParen, openParen]

theorem separator_byte {x : UInt8} (hx : x ∈ separators) :
    x < 128 ∧ isWord x = false ∧ CharSet.blank.contains x.toNat = false := by
  revert x
  decide

theorem endsWord_of_separator {t r : Bytes} {x : UInt8} (ht : AllBlank t) (hx : x ∈ separators) :
    EndsWord (t ++ x :: r) := by
  intro y hy
  cases t with
  | nil =>
    obtain rfl : x = y := Option.some.inj hy
    exact ⟨(separator_byte hx).1, (separator_byte hx).2.1⟩
  | cons z t =>
    obtain rfl : z = y := Option.some.inj hy
    have hz := ascii_of_blank (ht z List.mem_cons_self)
    exact ⟨hz.1, hz.2.2⟩

/-- What may follow a name in the head: behind blanks there is a separator, and if it opens a list,
the list is not empty. -/
def FollowsName (b : Bytes) : Prop :=
  ∃ t x r, b = t ++ x :: r ∧ AllBlank t ∧ x ∈ separators ∧
    (x = openParen → ∃ t' y r', r = t' ++ y :: r' ∧ AllBlank t' ∧
      (isWord y = true ∨ y = doubleQuote))

theorem FollowsName.endsWord {b : Bytes} (h : FollowsName b) : EndsWord b := by
  obtain ⟨t, x, r, rfl, ht, hx, -⟩ := h
  exact endsWord_of_separator ht hx

theorem endsWord_of_blank {t : Bytes} (ht : AllBlank t) (hne : t ≠ []) (s : Bytes) :
    EndsWord (t ++ s) := by
  obtain ⟨x, t, rfl⟩ := List.exists_cons_of_ne_nil hne
  intro y hy
  obtain rfl : x = y := Option.some.inj hy
  have hx := ascii_of_blank (ht x List.mem_cons_self)
  exact ⟨hx.1, hx.2.2⟩

/-- A rendered name starts with a word byte or a quote. -/
theorem WrittenName.rendered_eq_cons (n : WrittenName) :
    ∃ y r, n.rendered = y :: r ∧ (isWord y = true ∨ y = doubleQuote) := by
  obtain ⟨y, r, hr⟩ := List.exists_cons_of_ne_nil (n.renders.ne_nil n.plain.isWord)
  exact ⟨y, r, hr, n.renders.byte n.plain.isWord y (by rw [hr]; exact List.mem_cons_self)⟩

namespace InsertHead

variable (h : InsertHead)

/-- The list starts with the first column. -/
theorem list_eq (f : WrittenName → Bytes) :
    ∃ col r, col ∈ h.columns ∧ h.list f = col.lead ++ (f col.name ++ (col.trail ++ r)) ∧
      (r = [] ∨ ∃ r', r = comma :: r') := by
  obtain ⟨col, cols, hcols⟩ := List.exists_cons_of_ne_nil h.columns_ne
  refine ⟨col, ?_⟩
  rw [list, hcols]
  cases cols with
  | nil =>
    exact ⟨[], List.mem_cons_self, by simp [join, ListedName.layout], Or.inl rfl⟩
  | cons next cols =>
    refine ⟨comma :: join [comma] ((next :: cols).map (ListedName.layout f)),
      List.mem_cons_self, ?_, Or.inr ⟨_, rfl⟩⟩
    rw [List.map_cons, List.map_cons, join_cons_cons, ListedName.layout, List.append_assoc,
      List.append_assoc]
    rfl

theorem followsName_table (b : Bytes) :
    FollowsName (h.tableTrail ++ (([openParen] ++ (h.list WrittenName.rendered ++ [closeParen]))
      ++ b)) := by
  obtain ⟨col, r, -, hlist, -⟩ := h.list_eq WrittenName.rendered
  obtain ⟨y, r', hname, hy⟩ := col.name.rendered_eq_cons
  refine ⟨h.tableTrail, openParen, _, rfl, h.tableTrail_blank, by decide, fun _ => ?_⟩
  refine ⟨col.lead, y, r' ++ (col.trail ++ r) ++ [closeParen] ++ b, ?_, col.lead_blank, hy⟩
  rw [hlist, hname]
  simp

theorem ascii_getLast? : ∀ x, h.rendered.getLast? = some x → x < 128 := by
  intro x hx
  have hlast : h.rendered.getLast? = some closeParen := by
    simp only [rendered, layout, ← List.append_assoc]
    exact List.getLast?_concat
  obtain rfl : closeParen = x := Option.some.inj (hlast.symm.trans hx)
  decide

end InsertHead

namespace Pattern

/-- No keyword follows a name. -/
theorem not_leads_blanks1_keywords {s₁ s₂ : String} (hs₁ : IsKeyword s₁) (hs₂ : IsKeyword s₂)
    {c c' : Cursor} (hc : FollowsName c.rest) :
    ¬ Leads (.seq .blanks1 (.keywords [s₁, s₂])) c c' := by
  intro h
  obtain ⟨c₁, hblanks, hkeys⟩ := leads_seq.1 h
  obtain ⟨t', -, ht', htakes⟩ := leads_blanks1 hblanks
  obtain ⟨t, x, r, hrest, ht, hx, -⟩ := hc
  have hends : EndsWord c₁.rest := by
    obtain ⟨t'', rfl, hrest₁⟩ :=
      blank_append_eq ht' (separator_byte hx).2.2 (hrest.symm.trans htakes.rest)
    rw [hrest₁]
    exact endsWord_of_separator (fun b hb => ht b (List.mem_append_right _ hb)) hx
  rcases leads_alt.1 hkeys with hkey | hkey
  · exact not_leads_keyword hs₁ hends hkey
  · exact not_leads_keyword hs₂ hends hkey

/-- No empty list follows a name. -/
theorem not_leads_emptyCall {c c' : Cursor} (hc : FollowsName c.rest) :
    ¬ Leads (.seq .blanks (.seq (.text "(") (.seq .blanks (.text ")")))) c c' := by
  intro h
  obtain ⟨c₁, hblanks, h⟩ := leads_seq.1 h
  obtain ⟨c₂, hopen, h⟩ := leads_seq.1 h
  obtain ⟨c₃, hblanks', hclose⟩ := leads_seq.1 h
  obtain ⟨u, hu, htakes⟩ := leads_blanks hblanks
  obtain ⟨u', hu', htakes'⟩ := leads_blanks hblanks'
  have hrest : c.rest = u ++ openParen :: c₂.rest := by
    rw [htakes.rest, (leads_text (by decide) hopen).rest]
    rfl
  have hrest' : c₂.rest = u' ++ closeParen :: c'.rest := by
    rw [htakes'.rest, (leads_text (by decide) hclose).rest]
    rfl
  obtain ⟨t, x, r, hname, ht, hx, hlist⟩ := hc
  obtain ⟨rfl, rfl⟩ := blank_append_inj ht hu (separator_byte hx).2.2 (by decide)
    (hname.symm.trans hrest)
  obtain ⟨t', y, r', hr, ht', hy⟩ := hlist rfl
  have hyblank : CharSet.blank.contains y.toNat = false := by
    rcases hy with hy | rfl
    · exact not_blank_of_isWord hy
    · decide
  obtain ⟨rfl, -⟩ := blank_append_inj ht' hu' hyblank (by decide) (hr.symm.trans hrest')
  revert hy
  decide

/-- The pattern opens with no word of a head, or goes on in a way in which no name of a head is
followed. -/
structure Bystander (p : Pattern) (openings : List (String × Pattern)) : Prop where
  leadRun : p.leadRun? = none
  opens : p.Opens openings
  isKeyword : ∀ o ∈ openings, IsKeyword o.1
  outsideWords : ∀ o ∈ openings, OutsideWords o.2
  notHead : ∀ o ∈ openings, ∀ w ∈ ["insert", "into"], (ascii o.1).map lowerByte ≠ ascii w
  notName : ∀ o ∈ openings, o.1 ∈ ruleWords ∨
    ∀ c c' : Cursor, FollowsName c.rest → ¬ Leads o.2 c c'

namespace Bystander

variable {p : Pattern} {openings : List (String × Pattern)} (hp : p.Bystander openings)

include hp

theorem keys : ∀ o ∈ openings, IsKeyword o.1 ∧ OutsideWords o.2 :=
  fun o ho => ⟨hp.isKeyword o ho, hp.outsideWords o ho⟩

theorem noMatchIn_blank {a : Bytes} (ha : AllBlank a) (prev : Option UInt8) (b : Bytes) :
    p.NoMatchIn prev a b :=
  hp.opens.noMatchIn_separator hp.isKeyword
    (fun x hx => ⟨(ascii_of_blank (ha x hx)).1, (ascii_of_blank (ha x hx)).2.2⟩) prev b

theorem noMatchIn_separator {x : UInt8} (hx : x ∈ separators) (prev : Option UInt8) (b : Bytes) :
    p.NoMatchIn prev [x] b := by
  refine hp.opens.noMatchIn_separator hp.isKeyword (fun y hy => ?_) prev b
  obtain rfl := List.mem_singleton.1 hy
  exact ⟨(separator_byte hx).1, (separator_byte hx).2.1⟩

/-- No match starts in the words INSERT and INTO. -/
theorem noMatchIn_headWord {w : Bytes} {s : String} (hs : s ∈ ["insert", "into"])
    (hw : w.map lowerByte = ascii s) (hword : IsWord w) {b : Bytes} (hb : EndsWord b)
    (prev : Option UInt8) : p.NoMatchIn prev w b := by
  refine hp.opens.noMatchIn_word hp.keys hword hb prev ?_
  intro o ho heq
  exact absurd (heq.symm.trans hw) (hp.notHead o ho s hs)

/-- No match starts in a name. -/
theorem noMatchIn_name {n : WrittenName} (hn : ReadAsName n.name) {b : Bytes} (hb : FollowsName b)
    (prev : Option UInt8) : p.NoMatchIn prev n.rendered b := by
  have hother : ∀ {w b : Bytes}, w.map lowerByte = n.name.map lowerByte → FollowsName b →
      ∀ o ∈ openings, w.map lowerByte = (ascii o.1).map lowerByte →
        ∀ c c' : Cursor, c.rest = b → ¬ Leads o.2 c c' := by
    intro w b hw hb o ho heq c c' hc
    rcases hp.notName o ho with hmem | hnext
    · exact absurd (hw.symm.trans heq) (hn o.1 hmem)
    · exact hnext c c' (hc ▸ hb)
  rcases n.renders with hplain | ⟨v, hquoted, hv, hlower⟩
  · rw [hplain]
    exact hp.opens.noMatchIn_word hp.keys n.plain.isWord hb.endsWord prev (hother rfl hb)
  · -- the word between the quotes is followed by the closing one
    have hclose : FollowsName ([doubleQuote] ++ b) :=
      ⟨[], doubleQuote, b, rfl, by simp [AllBlank], by decide, fun h => absurd h (by decide)⟩
    rw [hquoted, List.cons_append, ← List.singleton_append, noMatchIn_append, noMatchIn_append]
    refine ⟨hp.noMatchIn_separator (by decide) _ _, ?_, hp.noMatchIn_separator (by decide) _ _⟩
    exact hp.opens.noMatchIn_word hp.keys hv hclose.endsWord _ (hother hlower hclose)

theorem noMatchIn_listedName {col : ListedName} (hcol : ReadAsName col.name.name) {x : UInt8}
    (hx : x ∈ [comma, closeParen]) (prev : Option UInt8) (b : Bytes) :
    p.NoMatchIn prev (col.layout WrittenName.rendered) (x :: b) := by
  have hsep : x ∈ separators ∧ x ≠ openParen := by
    revert x
    decide
  have hfollows : FollowsName (col.trail ++ x :: b) :=
    ⟨col.trail, x, b, rfl, col.trail_blank, hsep.1, fun h => absurd h hsep.2⟩
  rw [ListedName.layout, noMatchIn_append, noMatchIn_append]
  exact ⟨hp.noMatchIn_blank col.lead_blank _ _, hp.noMatchIn_name hcol hfollows _,
    hp.noMatchIn_blank col.trail_blank _ _⟩

theorem noMatchIn_list {cols : List ListedName} (hcols : ∀ col ∈ cols, ReadAsName col.name.name)
    (prev : Option UInt8) (b : Bytes) :
    p.NoMatchIn prev (join [comma] (cols.map (ListedName.layout WrittenName.rendered)))
      (closeParen :: b) := by
  induction cols generalizing prev with
  | nil => exact noMatchIn_nil p prev _
  | cons col cols ih =>
    obtain ⟨hcol, hcols⟩ := List.forall_mem_cons.1 hcols
    cases cols with
    | nil =>
      have h := hp.noMatchIn_listedName hcol (x := closeParen) (by decide) prev b
      simpa [join] using h
    | cons next cols =>
      rw [List.map_cons, List.map_cons, join_cons_cons, noMatchIn_append, noMatchIn_append]
      exact ⟨hp.noMatchIn_listedName hcol (by decide) _ _,
        hp.noMatchIn_separator (by decide) _ _, ih hcols _⟩

/-- No match starts in a head. -/
theorem noMatchIn_rendered (h : InsertHead) (prev : Option UInt8) (b : Bytes) :
    p.NoMatchIn prev h.rendered b := by
  simp only [InsertHead.rendered, InsertHead.layout, noMatchIn_append]
  refine ⟨hp.noMatchIn_blank h.lead_blank _ _,
    hp.noMatchIn_headWord (s := "insert") (by decide) h.insertWord_eq h.insertWord_isWord ?_ _,
    hp.noMatchIn_blank h.gap_blank _ _,
    hp.noMatchIn_headWord (s := "into") (by decide) h.intoWord_eq h.intoWord_isWord ?_ _,
    hp.noMatchIn_blank h.tableLead_blank _ _,
    hp.noMatchIn_name h.table_readAsName ?_ _,
    hp.noMatchIn_blank h.tableTrail_blank _ _,
    hp.noMatchIn_separator (by decide) _ _,
    hp.noMatchIn_list h.columns_readAsName _ _,
    hp.noMatchIn_separator (by decide) _ _⟩
  · rw [List.append_assoc]
    exact endsWord_of_blank h.gap_blank h.gap_ne _
  · rw [List.append_assoc]
    exact endsWord_of_blank h.tableLead_blank h.tableLead_ne _
  · rw [List.append_assoc, List.append_assoc]
    exact h.followsName_table _

/-- Replacing what the pattern matches keeps a head. -/
theorem replaceWith_rendered (f : Match → Bytes) (h : InsertHead) (s : Bytes) :
    ∃ s', p.replaceWith f (h.rendered ++ s) = h.rendered ++ s' := by
  rw [replaceWith_eq]
  exact rewriteFrom_skip hp.leadRun f h.ascii_getLast? (hp.noMatchIn_rendered h none s)

/-- Rewriting the calls whose head the pattern matches keeps the head of the statement. -/
theorem mapCalls_rendered (f : Bytes → Bytes) (h : InsertHead) (s : Bytes) :
    ∃ s', mapCalls p f (h.rendered ++ s) = h.rendered ++ s' := by
  have hfind : p.find? (h.rendered ++ s)
      = (p.findFrom? 0 (h.rendered.getLast?.or none) s).map
          fun m => { m with before := h.rendered ++ m.before } :=
    findFrom?_skip hp.leadRun h.ascii_getLast? (hp.noMatchIn_rendered h none s)
  rw [mapCalls]
  split
  · exact ⟨s, rfl⟩
  · rename_i m hm
    rw [hfind, Option.map_eq_some_iff] at hm
    obtain ⟨m', -, rfl⟩ := hm
    split
    · exact ⟨s, rfl⟩
    · exact ⟨_, by rw [List.append_assoc, List.append_assoc]⟩

end Bystander

/-! ## The rules before the one for upserts -/

theorem Bystander.of_one {p q : Pattern} {s : String} (leadRun : p.leadRun? = none)
    (opens : p.Opens [(s, q)]) (isKeyword : IsKeyword s) (outsideWords : OutsideWords q)
    (notHead : ∀ w ∈ ["insert", "into"], (ascii s).map lowerByte ≠ ascii w)
    (notName : s ∈ ruleWords ∨ ∀ c c' : Cursor, FollowsName c.rest → ¬ Leads q c c') :
    p.Bystander [(s, q)] :=
  ⟨leadRun, opens, List.forall_mem_singleton.2 isKeyword, List.forall_mem_singleton.2 outsideWords,
    List.forall_mem_singleton.2 notHead, List.forall_mem_singleton.2 notName⟩

theorem bystander_like : likePattern.Bystander [("LIKE", seqs [wordEdge])] :=
  .of_one rfl (opens_keyword _ _) (by decide) (outsideWords_wordEdge _) (by decide)
    (Or.inl (by decide))

theorem bystander_notRegexp : notRegexpPattern.Bystander
    [("NOT", seqs [blanks1, keywords ["REGEXP", "RLIKE"], wordEdge])] := by
  refine .of_one rfl (opens_keyword _ _) (by decide) (outsideWords_blanks1 _) (by decide)
    (Or.inr fun c c' hc h => ?_)
  obtain ⟨c₁, hblanks, h₁⟩ := leads_seqs_cons.1 h
  obtain ⟨c₂, hkeys, -⟩ := leads_seqs_cons.1 h₁
  exact not_leads_blanks1_keywords (by decide) (by decide) hc (.seq hblanks hkeys)

theorem bystander_regexp : regexpPattern.Bystander
    [("REGEXP", seqs [wordEdge]), ("RLIKE", seqs [wordEdge])] where
  leadRun := rfl
  opens := opens_keywords (List.cons_ne_nil _ _) _
  isKeyword := by decide
  outsideWords := List.forall_mem_cons.2
    ⟨outsideWords_wordEdge _, List.forall_mem_singleton.2 (outsideWords_wordEdge _)⟩
  notHead := by decide
  notName := fun o ho => Or.inl (by revert o; decide)

theorem bystander_callHead {s : String} (hs : IsKeyword s) (hmem : s ∈ ruleWords)
    (hhead : ∀ w ∈ ["insert", "into"], (ascii s).map lowerByte ≠ ascii w) :
    (callHead s).Bystander [(s, seqs [blanks, text "("])] :=
  .of_one rfl (opens_keyword _ _) hs (outsideWords_call _) hhead (Or.inl hmem)

theorem bystander_emptyCall {s : String} (hs : IsKeyword s)
    (hhead : ∀ w ∈ ["insert", "into"], (ascii s).map lowerByte ≠ ascii w) :
    (emptyCall s).Bystander
      [(s, .seq blanks (.seq (text "(") (.seq blanks (text ")"))))] := by
  refine .of_one rfl ?_ hs (outsideWords_call _) hhead
    (Or.inr fun c c' hc => not_leads_emptyCall hc)
  intro c c' h
  obtain ⟨c₁, hhead, h₁⟩ := leads_seqs_cons.1 h
  obtain ⟨c₂, hblanks, h₂⟩ := leads_seqs_cons.1 h₁
  obtain ⟨c₃, hclose, -⟩ := leads_seqs_cons.1 h₂
  obtain ⟨c₄, hedge, hhead₁⟩ := leads_seqs_cons.1 hhead
  obtain ⟨rfl, hedge⟩ := leads_wordEdge.1 hedge
  obtain ⟨c₅, hkey, hhead₂⟩ := leads_seqs_cons.1 hhead₁
  obtain ⟨c₆, hblanks', hhead₃⟩ := leads_seqs_cons.1 hhead₂
  obtain ⟨c₇, hopen, hhead₄⟩ := leads_seqs_cons.1 hhead₃
  obtain rfl := leads_nothing.1 hhead₄
  exact ⟨hedge, _, List.mem_singleton.2 rfl, c₅, c₃, hkey,
    .seq hblanks' (.seq hopen (.seq hblanks hclose))⟩

end Pattern

/-- The text of a statement when the rule for upserts is reached. -/
def textAtUpsert (s : Bytes) : Bytes :=
  convertFunctions (regexpToTilde (likeToILike (replaceBackticks s)))

/-- A head comes through the rules before the one for upserts with nothing changed but its
backticks. -/
theorem InsertHead.converted (h : InsertHead) (s : Bytes) :
    ∃ s', textAtUpsert (h.text ++ s) = h.rendered ++ s' := by
  rw [textAtUpsert, h.unticks.replaceBackticks]
  obtain ⟨s₁, h₁⟩ := Pattern.bystander_like.replaceWith_rendered (fun _ => ascii "ILIKE") h
    (replaceBackticks s)
  obtain ⟨s₂, h₂⟩ := Pattern.bystander_notRegexp.replaceWith_rendered (fun _ => ascii "!~") h s₁
  obtain ⟨s₃, h₃⟩ := Pattern.bystander_regexp.replaceWith_rendered (fun _ => ascii "~") h s₂
  obtain ⟨s₄, h₄⟩ := (Pattern.bystander_callHead (s := "SUBSTRING_INDEX") (by decide) (by decide)
    (by decide)).replaceWith_rendered (fun _ => ascii "split_part(") h s₃
  obtain ⟨s₅, h₅⟩ := (Pattern.bystander_emptyCall (s := "UTC_TIMESTAMP") (by decide)
    (by decide)).replaceWith_rendered (fun _ => ascii "CURRENT_TIMESTAMP AT TIME ZONE 'UTC'") h s₄
  obtain ⟨s₆, h₆⟩ := (Pattern.bystander_callHead (s := "IFNULL") (by decide) (by decide)
    (by decide)).replaceWith_rendered (fun _ => ascii "COALESCE(") h s₅
  obtain ⟨s₇, h₇⟩ := (Pattern.bystander_emptyCall (s := "RAND") (by decide)
    (by decide)).replaceWith_rendered (fun _ => ascii "RANDOM()") h s₆
  obtain ⟨s₈, h₈⟩ := (Pattern.bystander_callHead (s := "UNIX_TIMESTAMP") (by decide) (by decide)
    (by decide)).mapCalls_rendered convertFunctions.epochOf h s₇
  refine ⟨s₈, ?_⟩
  simp only [likeToILike, regexpToTilde, convertFunctions, Pattern.replace, h₁, h₂, h₃, h₄, h₅, h₆,
    h₇, h₈]

end SqlDialect
