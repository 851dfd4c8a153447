import SqlDialect.Identifier.Bare
import SqlDialect.Proofs.Identifier.Names
import SqlDialect.Proofs.Pattern.Phrase
import SqlDialect.Proofs.Pattern.Preference

set_option autoImplicit false

/-! # Quoting bare names part by part

A match is one of four words and stands by itself (`word_of_bareNameMatch`), so what quoting makes of
a text can be followed word by word: `quoteFrom left s` is what it makes of `s` behind `left`. A byte
that is no word byte stays (`quoteFrom_cons`), and so does a word, unless it is one of the four and is
used as a name (`quoteFrom_word`, `quoteFrom_name`). A word that is already rendered as a name stays as
it is. -/

namespace SqlDialect

open Bytes

/-- What quoting bare names makes of a text behind `left`. -/
def quoteFrom (left s : Bytes) : Bytes :=
  quoteMatches left (bareNamePattern.allFrom left.getLast? s) ++
    (((bareNamePattern.allFrom left.getLast? s).getLast?.map Match.after).getD s)

theorem quoteBareIdentifiers_eq (s : Bytes) : quoteBareIdentifiers s = quoteFrom [] s :=
  rfl

/-- What is written for a match behind `left`. -/
def writtenFor (left : Bytes) (m : Match) : Bytes :=
  match bareNameFor? (left ++ m.before) m.text m.after with
  | some name => doubleQuote :: name ++ [doubleQuote]
  | none => m.text

theorem quoteMatches_cons (left : Bytes) (m : Match) (ms : List Match) :
    quoteMatches left (m :: ms)
      = m.before ++ writtenFor left m ++ quoteMatches (left ++ m.before ++ m.text) ms :=
  rfl

/-! ## Matches -/

/-- The words that may be names to quote. -/
def bareWords : List String :=
  ["id", "date", "time", "timestamp"]

/-- The text is one of the words that may be names to quote, in any letter case. -/
def MayBeName (w : Bytes) : Prop :=
  ∃ s ∈ bareWords, w.map lowerByte = ascii s

instance (w : Bytes) : Decidable (MayBeName w) :=
  inferInstanceAs (Decidable (∃ _ ∈ _, _))

theorem isWord_of_mayBeName {w : Bytes} (h : MayBeName w) : IsWord w := by
  obtain ⟨s, hs, hlower⟩ := h
  have hwords : ∀ s ∈ bareWords, IsWord (ascii s) := by decide
  exact isWord_of_lower (hwords s hs) hlower

/-- A match is one of the words, between two word edges. -/
theorem leads_bareNamePattern {c c' : Pattern.Cursor} (h : Pattern.Leads bareNamePattern c c') :
    c.atWordEdge = true ∧ c'.atWordEdge = true ∧
      ∃ s ∈ bareWords, Pattern.Leads (.keyword s) c c' := by
  obtain ⟨hkeys, hedge, hend⟩ := Pattern.leads_edged.1 h
  exact ⟨hedge, hend, Pattern.leads_keywords (List.cons_ne_nil _ _) hkeys⟩

theorem isKeyword_of_mem {s : String} (hs : s ∈ bareWords) :
    Pattern.IsKeyword s ∧ Pattern.AsciiHead s := by
  revert s
  decide

theorem consumes_bareNamePattern : bareNamePattern.Consumes := by
  intro c c' h
  obtain ⟨-, -, w, hw, hkey⟩ := leads_bareNamePattern h
  exact Pattern.consumes_keyword (isKeyword_of_mem hw).1 _ _ hkey

theorem startsAscii_bareNamePattern : bareNamePattern.StartsAscii := by
  intro c c' h
  obtain ⟨-, -, w, hw, hkey⟩ := leads_bareNamePattern h
  exact Pattern.leads_keyword_head (isKeyword_of_mem hw).2 hkey

/-- A spelling of TIMESTAMP is one in ASCII, or starts with a spelling of TIME that no word byte
follows: its S may be the long one. -/
theorem spells_timestamp {t : Bytes} (h : Pattern.Spells "timestamp".toList t) :
    t.map lowerByte = ascii "timestamp" ∨
      ∃ u x v, t = u ++ x :: v ∧ u.map lowerByte = ascii "time" ∧ isWord x = false := by
  obtain ⟨u, v, rfl, hu, hv⟩ := Pattern.Spells.exists_append "time".toList "stamp".toList h
  have htime : u.map lowerByte = ascii "time" := hu.map_lowerByte (by decide)
  obtain ⟨v₁, v₂, rfl, hv₁, hv₂⟩ := Pattern.Spells.exists_append "s".toList "tamp".toList hv
  have htamp : v₂.map lowerByte = ascii "tamp" := hv₂.map_lowerByte (by decide)
  cases hv₁ with
  | ascii hx hch hnil =>
    cases hnil
    refine Or.inl ?_
    rw [List.map_append, List.map_append, htime, htamp, List.map_singleton, hch]
    decide
  | @wide _ _ b _ _ _ hwide hnil =>
    cases hnil
    refine Or.inr ⟨u, b, _, rfl, htime, Bool.eq_false_iff.2 fun hword => ?_⟩
    exact absurd (ascii_of_isWord hword) (UInt8.not_lt.2 (hwide b List.mem_cons_self))

/-- TIME matches in front of a byte that is no word byte. -/
theorem leads_time {c : Pattern.Cursor} {u r : Bytes} {x : UInt8} (hrest : c.rest = u ++ x :: r)
    (hu : u.map lowerByte = ascii "time") (hx : isWord x = false) :
    ∃ c', Pattern.Leads (.seq (.keyword "time") (.seqs [.wordEdge])) c c' := by
  have hkey := Pattern.retakes_keyword (s := "time") (by decide) hu c (x :: r) hrest
  have hlast := isWord_last (isWord_of_mayBeName ⟨"time", by decide, hu⟩) []
  obtain ⟨y, hy, hyword⟩ := (Option.any_eq_true _ _).1 hlast
  rw [List.nil_append] at hy
  refine ⟨_, .seq hkey (Pattern.leads_seqs_cons.2 ⟨_, .wordEdge ?_, .nothing _⟩)⟩
  rw [Pattern.Cursor.atWordEdge, Pattern.Cursor.past, hy, Option.some_or, Option.any_some, hyword,
    List.head?_cons, Option.any_some, hx]
  rfl

theorem time_mem_of_split {l₁ l₂ : List String} (h : bareWords = l₁ ++ "timestamp" :: l₂) :
    "time" ∈ l₁ := by
  rcases l₁ with _ | ⟨_, _ | ⟨_, _ | ⟨_, l₁⟩⟩⟩ <;> simp_all [bareWords]

/-- A match is one of the words and stands by itself. -/
theorem word_of_bareNameMatch {prev : Option UInt8} {s : Bytes} {m : Match}
    (h : bareNamePattern.matchHere? prev s = some m) :
    MayBeName m.text ∧ m.before = [] ∧ s = m.text ++ m.after ∧ prev.any isWord = false ∧
      m.after.head?.any isWord = false := by
  obtain ⟨r, hrun, htakes, hbefore, hafter⟩ := Pattern.exists_run_of_matchHere? h
  obtain ⟨c, hstart, hkeys⟩ := Pattern.run_seq_some hrun
  obtain ⟨rfl, -⟩ := Pattern.leads_wordEdge.1 hstart
  have hne : bareWords ≠ [] := List.cons_ne_nil _ _
  obtain ⟨l₁, w, l₂, hsplit, hleads, hfirst⟩ := Pattern.run_keywords_cases hne hkeys
  obtain ⟨c₂, hkey, hend⟩ := Pattern.leads_seq.1 hleads
  obtain ⟨c₃, hend, hnil⟩ := Pattern.leads_seqs_cons.1 hend
  obtain rfl := Pattern.leads_nothing.1 hnil
  obtain ⟨rfl, hend⟩ := Pattern.leads_wordEdge.1 hend
  have hw : w ∈ bareWords := by rw [hsplit]; simp
  have hascii : ∀ s ∈ bareWords, ∀ ch ∈ s.toList, ch.toNat < 128 := by decide
  obtain ⟨t, htakes', hspells, -⟩ := Pattern.leads_keyword_spells (hascii w hw) hkey
  obtain rfl := htakes.unique htakes'
  obtain rfl : s = m.text ++ m.after := by
    rw [hafter]
    exact htakes.rest
  have hname : MayBeName m.text := by
    refine ⟨w, hw, ?_⟩
    by_cases htime : w = "timestamp"
    · subst htime
      rcases spells_timestamp hspells with hlower | ⟨u, x, v, huv, hu, hx⟩
      · exact hlower
      · -- then TIME matches, which is tried before TIMESTAMP
        have hrest : m.text ++ m.after = u ++ x :: (v ++ m.after) := by rw [huv]; simp
        obtain ⟨c', hc'⟩ := leads_time (c := { prev, rest := m.text ++ m.after }) hrest hu hx
        exact absurd hc' (hfirst _ (time_mem_of_split hsplit) c')
    · have hplain : ∀ s ∈ bareWords, s ≠ "timestamp" →
          (∀ ch ∈ s.toList, Pattern.AsciiSet (CharSet.anyCase ch)) ∧
            s.toList.map (fun ch => lowerByte (charByte ch)) = ascii s := by decide
      rw [hspells.map_lowerByte (hplain w hw htime).1, (hplain w hw htime).2]
  have hword := isWord_of_mayBeName hname
  have hhead := isWord_head hword []
  rw [List.append_nil] at hhead
  have hall := Pattern.leads_of_run hrun
  exact ⟨hname, hbefore, rfl,
    Pattern.edges_of_edged (a := []) hall htakes hhead (isWord_last hword [])⟩

/-- One of the words matches where it stands by itself. -/
theorem matchHere?_of_mayBeName {prev : Option UInt8} {w b : Bytes} (hw : MayBeName w)
    (hprev : prev.any isWord = false) (hb : b.head?.any isWord = false) :
    ∃ m, bareNamePattern.matchHere? prev (w ++ b) = some m ∧ m.before = [] ∧ m.text = w ∧
      m.after = b := by
  obtain ⟨s, hs, hlower⟩ := id hw
  have hword := isWord_of_mayBeName hw
  obtain ⟨x, hx, hxword⟩ := (Option.any_eq_true _ _).1 (isWord_head hword [])
  obtain ⟨y, hy, hyword⟩ := (Option.any_eq_true _ _).1 (isWord_last hword [])
  rw [List.append_nil] at hx
  have hfold : ∀ s ∈ bareWords, (ascii s).map lowerByte = ascii s := by decide
  have hretakes : (Pattern.keywords bareWords).Retakes w := fun d r hd =>
    Pattern.leads_keywords_of_mem hs
      (Pattern.retakes_keyword (isKeyword_of_mem hs).1 (by rw [hlower, hfold s hs]) d r hd)
  have hleads : ∃ c', Pattern.Leads (.edged (.keywords bareWords)) (.behind prev [] (w ++ b)) c' :=
    Pattern.leads_edged_of_retakes hretakes hx hxword hy hyword hprev hb
  obtain ⟨m, hm⟩ := Option.isSome_iff_exists.1 (Pattern.isSome_matchHere?_iff.2 hleads)
  obtain ⟨hname, hbefore, htext, -, hafter⟩ := word_of_bareNameMatch hm
  obtain ⟨rfl, rfl⟩ := isWord_append_inj hword hb (isWord_of_mayBeName hname) hafter htext
  exact ⟨m, hm, hbefore, rfl, rfl⟩

/-- Only a word can match that stands by itself and is one of the four. -/
theorem mayBeName_of_match {prev : Option UInt8} {w b : Bytes} (hw : IsWord w)
    (hb : b.head?.any isWord = false) {m : Match}
    (h : bareNamePattern.matchHere? prev (w ++ b) = some m) :
    MayBeName w ∧ prev.any isWord = false := by
  obtain ⟨hname, -, htext, hprev, hafter⟩ := word_of_bareNameMatch h
  obtain ⟨rfl, -⟩ := isWord_append_inj hw hb (isWord_of_mayBeName hname) hafter htext
  exact ⟨hname, hprev⟩

theorem matchHere?_eq_none {x : UInt8} (hx : isWord x = false) (prev : Option UInt8) (s : Bytes) :
    bareNamePattern.matchHere? prev (x :: s) = none := by
  rw [Option.eq_none_iff_forall_ne_some]
  intro m hm
  obtain ⟨hname, -, htext, -⟩ := word_of_bareNameMatch hm
  have hhead := isWord_head (isWord_of_mayBeName hname) m.after
  rw [← htext, List.head?_cons, Option.any_some, hx] at hhead
  exact Bool.noConfusion hhead

theorem length_after_of_findFrom? {prev : Option UInt8} {s : Bytes} {m : Match}
    (h : bareNamePattern.findFrom? 0 prev s = some m) : m.after.length < s.length :=
  consumes_bareNamePattern.after_lt h

/-- No word byte stands in front of a match or behind it. -/
theorem word_of_findFrom? {skip : Nat} {prev : Option UInt8} {s : Bytes} {m : Match}
    (h : bareNamePattern.findFrom? skip prev s = some m) :
    MayBeName m.text ∧ m.before.getLast?.any isWord = false ∧ m.after.head?.any isWord = false := by
  obtain ⟨hname, -, -, hprev, hafter⟩ := word_of_bareNameMatch (Pattern.matchHere?_of_findFrom? h)
  refine ⟨hname, ?_, hafter⟩
  cases hlast : m.before.getLast? with
  | none => rfl
  | some x => rwa [hlast, Option.some_or] at hprev

/-! ## Following the text -/

/-- Quoting goes on behind the first match. -/
theorem quoteFrom_eq (left s : Bytes) :
    quoteFrom left s
      = match bareNamePattern.findFrom? 0 left.getLast? s with
        | none => s
        | some m => m.before ++ writtenFor left m ++ quoteFrom (left ++ m.before ++ m.text) m.after := by
  rw [quoteFrom, Pattern.allFrom]
  cases hm : bareNamePattern.findFrom? 0 left.getLast? s with
  | none => rfl
  | some m =>
    have hne := (isWord_of_mayBeName (word_of_findFrom? hm).1).1
    have hlast : (left ++ m.before ++ m.text).getLast? = m.text.getLast? := by
      rw [List.getLast?_append, List.getLast?_eq_some_getLast hne, Option.some_or]
    dsimp only
    rw [if_pos (length_after_of_findFrom? hm), quoteMatches_cons, quoteFrom, hlast,
      List.getLast?_cons]
    cases (bareNamePattern.allFrom m.text.getLast? m.after).getLast? <;> simp

/-- A text in which no match starts stays as it is. -/
theorem quoteFrom_skip {left a b : Bytes} (hno : bareNamePattern.NoMatchIn left.getLast? a b) :
    quoteFrom left (a ++ b) = a ++ quoteFrom (left ++ a) b := by
  have hlast : (left ++ a).getLast? = a.getLast?.or left.getLast? := List.getLast?_append
  rw [quoteFrom_eq, quoteFrom_eq (left ++ a), hlast,
    Pattern.findFrom?_append startsAscii_bareNamePattern consumes_bareNamePattern rfl hno]
  cases bareNamePattern.findFrom? 0 (a.getLast?.or left.getLast?) b with
  | none => rfl
  | some m =>
    simp only [Option.map_some, writtenFor, List.append_assoc]

@[simp] theorem quoteFrom_nil (left : Bytes) : quoteFrom left [] = [] := by
  have hnone : bareNamePattern.findFrom? 0 left.getLast? [] = none :=
    Pattern.findFrom?_eq_none consumes_bareNamePattern (Pattern.noMatchIn_nil _ _ _)
  rw [quoteFrom_eq, hnone]

/-- Bytes that are no word bytes stay. -/
theorem quoteFrom_separators {a : Bytes} (ha : ∀ x ∈ a, isWord x = false) (left b : Bytes) :
    quoteFrom left (a ++ b) = a ++ quoteFrom (left ++ a) b := by
  refine quoteFrom_skip fun a₁ x a₂ hsplit => ?_
  exact matchHere?_eq_none (ha x (by rw [hsplit]; simp)) _ _

theorem quoteFrom_cons {x : UInt8} (hx : isWord x = false) (left s : Bytes) :
    quoteFrom left (x :: s) = x :: quoteFrom (left ++ [x]) s :=
  quoteFrom_separators (a := [x]) (by simpa using hx) left s

/-- A word stays, unless it is one of the words to quote and is used as a name. -/
theorem quoteFrom_word {left w b : Bytes} (hw : IsWord w) (hb : b.head?.any isWord = false)
    (hkeep : left.getLast?.any isWord = false → MayBeName w → bareNameFor? left w b = none) :
    quoteFrom left (w ++ b) = w ++ quoteFrom (left ++ w) b := by
  cases hm : bareNamePattern.matchHere? left.getLast? (w ++ b) with
  | some m =>
    obtain ⟨hname, hleft⟩ := mayBeName_of_match hw hb hm
    obtain ⟨m', hm', hbefore, htext, hafter⟩ := matchHere?_of_mayBeName hname hleft hb
    obtain rfl : m = m' := Option.some.inj (hm.symm.trans hm')
    rw [quoteFrom_eq, Pattern.findFrom?_of_matchHere? hm]
    dsimp only
    rw [writtenFor, hbefore, htext, hafter, List.append_nil, hkeep hleft hname]
    rfl
  | none =>
    refine quoteFrom_skip fun a₁ x a₂ ha => ?_
    cases hlast : a₁.getLast? with
    | none =>
      obtain rfl := List.getLast?_eq_none_iff.1 hlast
      rw [ha] at hm
      exact hm
    | some y =>
      -- inside the word there is no edge
      rw [Option.eq_none_iff_forall_ne_some]
      intro m hm'
      obtain ⟨-, -, -, hprev, -⟩ := word_of_bareNameMatch hm'
      have hy : isWord y = true := hw.2 y (by rw [ha]; simp [List.mem_of_getLast? hlast])
      rw [Option.some_or, Option.any_some, hy] at hprev
      exact Bool.noConfusion hprev

/-- A word that is used as a name gets quotes around it. -/
theorem quoteFrom_name {left w b name : Bytes} (hw : MayBeName w)
    (hleft : left.getLast?.any isWord = false) (hb : b.head?.any isWord = false)
    (hname : bareNameFor? left w b = some name) :
    quoteFrom left (w ++ b) = doubleQuote :: name ++ [doubleQuote] ++ quoteFrom (left ++ w) b := by
  obtain ⟨m, hm, hbefore, htext, hafter⟩ := matchHere?_of_mayBeName hw hleft hb
  rw [quoteFrom_eq, Pattern.findFrom?_of_matchHere? hm]
  dsimp only
  rw [writtenFor, hbefore, htext, hafter, List.append_nil, hname]
  rfl

/-- What is written in front of a separator does not change the separator, nor what is written
behind it. -/
theorem quoteFrom_separator {x : UInt8} (hx : isWord x = false) (left a b : Bytes) :
    ∃ a', quoteFrom left (a ++ x :: b) = a' ++ x :: quoteFrom (left ++ a ++ [x]) b := by
  induction a using induction_words generalizing left with
  | nil => exact ⟨[], by rw [List.nil_append, quoteFrom_cons hx, List.append_nil]; rfl⟩
  | byte y a hy ih =>
    obtain ⟨a', ha'⟩ := ih (left ++ [y])
    refine ⟨y :: a', ?_⟩
    rw [List.cons_append, quoteFrom_cons hy, ha', List.append_assoc left [y], List.singleton_append]
    rfl
  | word w a hw ha ih =>
    obtain ⟨a', ha'⟩ := ih (left ++ w)
    have hhead : (a ++ x :: b).head?.any isWord = false := by
      cases a with
      | nil => exact hx
      | cons y a => exact ha
    rw [List.append_assoc left w] at ha'
    by_cases hkeep : left.getLast?.any isWord = false → MayBeName w →
        bareNameFor? left w (a ++ x :: b) = none
    · refine ⟨w ++ a', ?_⟩
      rw [List.append_assoc w, quoteFrom_word hw hhead hkeep, ha', List.append_assoc w]
    · simp only [Classical.not_imp, ← Option.isSome_iff_ne_none] at hkeep
      obtain ⟨hleft, hname, hsome⟩ := hkeep
      obtain ⟨name, hfor⟩ := Option.isSome_iff_exists.1 hsome
      refine ⟨doubleQuote :: name ++ [doubleQuote] ++ a', ?_⟩
      rw [List.append_assoc w, quoteFrom_name hname hleft hhead hfor, ha', List.append_assoc _ a']

theorem bareNameFor?_of_quote {left : Bytes} (h : left.getLast? = some doubleQuote)
    (w b : Bytes) : bareNameFor? left w b = none := by
  simp [bareNameFor?, h]

/-- What is written for a word that is used as a name. -/
def nameWritten (word : Bytes) : Bytes :=
  if word = ascii "ID" then word else Bytes.toLower word

theorem bareNameFor?_eq_some {left word right name : Bytes}
    (h : bareNameFor? left word right = some name) : name = nameWritten word := by
  have hid : Bytes.toLower (ascii "ID") = ascii "id" := by decide
  have hcase : ∀ w ∈ caseSensitiveNames, w = ascii "ID" := by decide
  rw [bareNameFor?] at h
  rw [nameWritten]
  grind

theorem isWord_nameWritten {w : Bytes} (hw : IsWord w) : IsWord (nameWritten w) := by
  rw [nameWritten]
  split
  · exact hw
  · rw [hw.toLower]
    exact hw.map_lowerByte

/-- A word between double quotes stays. -/
theorem quoteFrom_quoted {v : Bytes} (hv : IsWord v) (left b : Bytes) :
    quoteFrom left (doubleQuote :: v ++ [doubleQuote] ++ b)
      = doubleQuote :: v ++ [doubleQuote]
        ++ quoteFrom (left ++ (doubleQuote :: v ++ [doubleQuote])) b := by
  have hquote : (left ++ [doubleQuote]).getLast? = some doubleQuote := List.getLast?_concat
  have hkeep := bareNameFor?_of_quote hquote v (doubleQuote :: b)
  have hword : quoteFrom (left ++ [doubleQuote]) (v ++ doubleQuote :: b)
      = v ++ quoteFrom (left ++ [doubleQuote] ++ v) (doubleQuote :: b) :=
    quoteFrom_word hv rfl fun _ _ => hkeep
  calc quoteFrom left (doubleQuote :: v ++ [doubleQuote] ++ b)
      = quoteFrom left (doubleQuote :: (v ++ doubleQuote :: b)) := by simp
    _ = doubleQuote :: (v ++ doubleQuote ::
          quoteFrom (left ++ [doubleQuote] ++ v ++ [doubleQuote]) b) := by
        rw [quoteFrom_cons rfl, hword, quoteFrom_cons rfl]
    _ = _ := by simp

/-- A word that is rendered bare is not used as a name to quote. -/
theorem bareNameFor?_of_bare {c : Bytes} (hc : IsWord c)
    (hcase : caseSensitiveNames.contains c = false)
    (hreserved : reservedWords.contains (Bytes.toLower c) = false)
    (hword : MayBeName c) (left b : Bytes) : bareNameFor? left c b = none := by
  obtain ⟨s, hs, hlower⟩ := hword
  rw [← hc.toLower] at hlower
  simp only [bareWords, List.mem_cons, List.not_mem_nil, or_false] at hs
  rcases hs with rfl | rfl | rfl | rfl
  · have hnot : c ∉ caseSensitiveNames := by simpa using hcase
    simp [bareNameFor?, hlower, hnot]
  all_goals
    rw [hlower] at hreserved
    exact absurd hreserved (by decide)

/-- A rendered name stays as it is. -/
theorem quoteFrom_quoteIdent {c : Bytes} (hc : IsWord c) {b : Bytes}
    (hb : b.head?.any isWord = false)
    (left : Bytes) :
    quoteFrom left (quoteIdent c ++ b) = quoteIdent c ++ quoteFrom (left ++ quoteIdent c) b := by
  rw [quoteIdent]
  split
  · rw [doubleQuoted, replaceAll_of_notMem (hc.notMem rfl)]
    exact quoteFrom_quoted hc left b
  rename_i hplain
  split
  · have hlower : IsWord (Bytes.toLower c) := by
      rw [hc.toLower]
      exact hc.map_lowerByte
    exact quoteFrom_quoted hlower left b
  · rename_i hreserved
    rw [Bool.or_eq_true, not_or, Bool.not_eq_true] at hplain
    exact quoteFrom_word hc hb fun _ hword =>
      bareNameFor?_of_bare hc hplain.1 (Bool.not_eq_true _ ▸ hreserved) hword left b

end SqlDialect
