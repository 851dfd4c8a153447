import SqlDialect.Identifier.Basic
import SqlDialect.Proofs.Text.Words

set_option autoImplicit false

/-! # Words as names

A word that is written as a name comes out as the word itself or as a word between double quotes,
and either way it is the same word up to letter case when it is taken out of its quotes again. A
name may be written bare or between backticks; both are rendered in the same way. -/

namespace SqlDialect

open Bytes

/-- A word that cannot be taken for a placeholder. -/
structure PlainName (name : Bytes) : Prop where
  isWord : IsWord name
  unmarked : containsText name marker = false

theorem dropLead?_of_containsText {part s : Bytes} (h : containsText s part = false) :
    dropLead? part s = none := by
  cases s with
  | nil => simpa [containsText, cut?] using h
  | cons b s =>
    rw [containsText, cut?] at h
    split at h
    · simp at h
    · assumption

theorem placeholderIndex?_of_dropLead? {s : Bytes} (h : dropLead? marker s = none) :
    placeholderIndex? s = none := by
  rw [placeholderIndex?, h]
  rfl

theorem lookup?_of_dropLead? {s : Bytes} (h : dropLead? marker s = none) (lits : LiteralTable) :
    lits.lookup? s = none := by
  rw [LiteralTable.lookup?, placeholderIndex?_of_dropLead? h]
  rfl

theorem dropLead?_marker_doubleQuote (s : Bytes) : dropLead? marker (doubleQuote :: s) = none :=
  rfl

theorem map_lowerByte_idem (s : Bytes) : (s.map lowerByte).map lowerByte = s.map lowerByte := by
  rw [List.map_map]
  exact List.map_congr_left fun b _ => lowerByte_lowerByte b

/-- The text is the word, or the word in some letter case between double quotes. -/
def Renders (text word : Bytes) : Prop :=
  text = word ∨
    ∃ v, text = doubleQuote :: v ++ [doubleQuote] ∧ IsWord v ∧ v.map lowerByte = word.map lowerByte

theorem renders_quoteIdent {w : Bytes} (hw : IsWord w) : Renders (quoteIdent w) w := by
  rw [quoteIdent]
  split
  · refine Or.inr ⟨w, ?_, hw, rfl⟩
    rw [doubleQuoted, replaceAll_of_notMem (hw.notMem rfl)]
  split
  · refine Or.inr ⟨Bytes.toLower w, rfl, ?_, ?_⟩
    · rw [hw.toLower]
      exact hw.map_lowerByte
    · rw [hw.toLower, map_lowerByte_idem]
  · exact Or.inl rfl

namespace Renders

variable {text word : Bytes}

/-- A rendered word consists of word bytes and double quotes. -/
theorem byte (h : Renders text word) (hword : IsWord word) :
    ∀ b ∈ text, isWord b = true ∨ b = doubleQuote := by
  intro b hb
  rcases h with rfl | ⟨v, rfl, hv, -⟩
  · exact Or.inl (hword.2 b hb)
  · simp only [List.cons_append, List.mem_cons, List.mem_append, List.not_mem_nil, or_false] at hb
    rcases hb with rfl | hb | rfl
    · exact Or.inr rfl
    · exact Or.inl (hv.2 b hb)
    · exact Or.inr rfl

theorem ne_nil (h : Renders text word) (hword : IsWord word) : text ≠ [] := by
  rcases h with rfl | ⟨v, rfl, -, -⟩
  · exact hword.1
  · simp

theorem notMem {b : UInt8} (h : Renders text word) (hword : IsWord word)
    (hb : isWord b = false) (hquote : b ≠ doubleQuote) : b ∉ text := by
  intro hmem
  rcases h.byte hword b hmem with hw | hq
  · rw [hw] at hb
    exact Bool.noConfusion hb
  · exact hquote hq

/-- A rendered word begins no placeholder. -/
theorem dropLead? (h : Renders text word) (hword : PlainName word) :
    Bytes.dropLead? marker text = none := by
  rcases h with rfl | ⟨v, rfl, -, -⟩
  · exact dropLead?_of_containsText hword.unmarked
  · exact dropLead?_marker_doubleQuote _

/-- Out of its quotes a rendered word is the same word up to letter case. -/
theorem bareName (h : Renders text word) (hword : PlainName word) (lits : LiteralTable) :
    (bareName text lits).map lowerByte = word.map lowerByte := by
  rw [SqlDialect.bareName, lookup?_of_dropLead? (h.dropLead? hword)]
  dsimp only
  rcases h with rfl | ⟨v, rfl, hv, hlower⟩
  · have hunquoted : unquoted? text = none := by
      simp [unquoted?, hword.isWord.head?_beq (q := doubleQuote) rfl]
    rw [hunquoted, Option.getD_none, hword.isWord.toLower, map_lowerByte_idem]
  · have hunquoted : unquoted? (doubleQuote :: v ++ [doubleQuote]) = some v := by
      simp [unquoted?, List.getLast?_cons]
    rw [hunquoted, Option.getD_some, hlower]

theorem isWord_bareName (h : Renders text word) (hword : PlainName word) (lits : LiteralTable) :
    IsWord (SqlDialect.bareName text lits) :=
  hword.isWord.of_map_lowerByte (h.bareName hword lits)

end Renders

namespace PlainName

variable {name : Bytes}

theorem dropLead? (h : PlainName name) : Bytes.dropLead? marker name = none :=
  dropLead?_of_containsText h.unmarked

theorem normalizeName (h : PlainName name) : normalizeName name = quoteIdent name := by
  have hempty : name.isEmpty = false := by simpa using h.isWord.1
  have hdot : name.contains 46 = false := by
    simpa using h.isWord.notMem (b := 46) rfl
  have hplaceholder : isPlaceholder name = false := by
    rw [isPlaceholder, placeholderIndex?_of_dropLead? h.dropLead?]
    rfl
  rw [SqlDialect.normalizeName, hempty, h.isWord.head?_beq rfl, hplaceholder, hdot]
  rfl

/-- A rendered name is rendered as itself. -/
theorem normalizeName_quoteIdent (h : PlainName name) :
    SqlDialect.normalizeName (quoteIdent name) = quoteIdent name := by
  rcases renders_quoteIdent h.isWord with heq | ⟨v, heq, -, -⟩
  · rw [heq, h.normalizeName, heq]
  · rw [heq, SqlDialect.normalizeName]
    simp

end PlainName

/-- A name without a dot is its own last segment. -/
theorem lastSegment_of_notMem {s : Bytes} (h : (46 : UInt8) ∉ s) : lastSegment s = s := by
  have hgo : ∀ (quoted : Bool) (seen r : Bytes), (46 : UInt8) ∉ r →
      lastSegment.go quoted seen r = r.reverse ++ seen := by
    intro quoted seen r
    induction r generalizing quoted seen with
    | nil => intro _; rfl
    | cons b r ih =>
      intro hr
      rw [List.mem_cons, not_or] at hr
      rw [lastSegment.go]
      split
      · rw [ih _ _ hr.2]
        simp
      · rw [if_neg (fun h => hr.1 h.1.symm), ih _ _ hr.2]
        simp
  rw [lastSegment, hgo false [] s.reverse (by simpa using h)]
  simp

/-! ## Names as they are written -/

theorem cut?_of_notMem {q : UInt8} {s : Bytes} (h : q ∉ s) (rest : Bytes) :
    cut? [q] (s ++ q :: rest) = some (s, rest) := by
  induction s with
  | nil => simp [cut?, dropLead?]
  | cons b s ih =>
    rw [List.mem_cons, not_or] at h
    simp [cut?, dropLead?, h.1, ih h.2]

theorem cut?_eq_none_of_notMem {q : UInt8} {s : Bytes} (h : q ∉ s) : cut? [q] s = none := by
  induction s with
  | nil => rfl
  | cons b s ih =>
    rw [List.mem_cons, not_or] at h
    rw [cut?, dropLead?, if_neg h.1, ih h.2]
    rfl

theorem replaceBackticks_nil : replaceBackticks [] = [] := by
  rw [replaceBackticks.eq_def]

theorem replaceBackticks_append {a : Bytes} (ha : backtick ∉ a) (s : Bytes) :
    replaceBackticks (a ++ s) = a ++ replaceBackticks s := by
  induction a with
  | nil => rfl
  | cons b a ih =>
    rw [List.mem_cons, not_or] at ha
    rw [List.cons_append, replaceBackticks, if_neg (Ne.symm ha.1), ih ha.2, List.cons_append]

theorem replaceBackticks_of_notMem {s : Bytes} (h : backtick ∉ s) : replaceBackticks s = s := by
  have happend := replaceBackticks_append h []
  rwa [List.append_nil, replaceBackticks, List.append_nil] at happend

/-- A backtick without another one behind it quotes nothing. -/
theorem replaceBackticks_open {s : Bytes} (h : backtick ∉ s) :
    replaceBackticks (backtick :: s) = backtick :: s := by
  rw [replaceBackticks, if_pos rfl]
  split
  · rename_i hcut
    rw [cut?_eq_none_of_notMem h] at hcut
    exact absurd hcut.symm (Option.some_ne_none _)
  · rfl

theorem replaceBackticks_name {name : Bytes} (h : backtick ∉ name) (s : Bytes) :
    replaceBackticks (backtick :: (name ++ backtick :: s))
      = quoteIdent name ++ replaceBackticks s := by
  rw [replaceBackticks, if_pos rfl]
  split
  · rename_i name' rest hcut
    rw [cut?_of_notMem h] at hcut
    cases hcut
    rfl
  · rename_i hcut
    rw [cut?_of_notMem h] at hcut
    simp at hcut

/-- Every name in backticks that starts in the text ends in it. -/
def NamesClosed (s : Bytes) : Prop :=
  s.count backtick % 2 = 0

instance (s : Bytes) : Decidable (NamesClosed s) :=
  inferInstanceAs (Decidable (_ = _))

theorem NamesClosed.append {a b : Bytes} (ha : NamesClosed a) (hb : NamesClosed b) :
    NamesClosed (a ++ b) := by
  rw [NamesClosed] at ha hb ⊢
  rw [List.count_append]
  omega

/-- Behind closed names the names of a text are rendered by themselves. -/
theorem replaceBackticks_append_of_closed {a : Bytes} (h : NamesClosed a) (s : Bytes) :
    replaceBackticks (a ++ s) = replaceBackticks a ++ replaceBackticks s := by
  induction hlen : a.length using Nat.strongRecOn generalizing a with
  | _ n ih =>
    cases a with
    | nil => rw [replaceBackticks_nil, List.nil_append, List.nil_append]
    | cons b a =>
      by_cases hb : b = backtick
      · subst hb
        rw [NamesClosed, List.count_cons_self] at h
        have hmem : backtick ∈ a := List.count_pos_iff.1 (by omega)
        obtain ⟨name, rest, rfl, hname⟩ := List.eq_append_cons_of_mem hmem
        rw [List.count_append, List.count_cons_self, List.count_eq_zero.2 hname] at h
        have hrest : NamesClosed rest := by
          rw [NamesClosed]
          omega
        have hlt : rest.length < n := by
          rw [← hlen, List.length_cons, List.length_append, List.length_cons]
          omega
        rw [List.cons_append, List.append_assoc, List.cons_append, replaceBackticks_name hname,
          replaceBackticks_name hname, ih _ hlt hrest rfl, List.append_assoc]
      · have ha : NamesClosed a := by rwa [NamesClosed, List.count_cons_of_ne hb] at h
        have hlt : a.length < n := by
          rw [← hlen, List.length_cons]
          omega
        rw [List.cons_append, replaceBackticks, if_neg hb, ih _ hlt ha rfl, replaceBackticks,
          if_neg hb, List.cons_append]

/-- A name as it is written: bare or between backticks. -/
structure WrittenName where
  name : Bytes
  inBackticks : Bool
  plain : PlainName name

namespace WrittenName

/-- How the name is written. -/
def text (n : WrittenName) : Bytes :=
  if n.inBackticks then backtick :: (n.name ++ [backtick]) else n.name

/-- The name without backticks. -/
def rendered (n : WrittenName) : Bytes :=
  if n.inBackticks then quoteIdent n.name else n.name

theorem replaceBackticks_text (n : WrittenName) (s : Bytes) :
    replaceBackticks (n.text ++ s) = n.rendered ++ replaceBackticks s := by
  have hname : backtick ∉ n.name := n.plain.isWord.notMem rfl
  rw [text, rendered]
  split
  · rw [List.cons_append, List.append_assoc, List.singleton_append, replaceBackticks_name hname]
  · exact replaceBackticks_append hname s

theorem renders (n : WrittenName) : Renders n.rendered n.name := by
  rw [rendered]
  split
  · exact renders_quoteIdent n.plain.isWord
  · exact Or.inl rfl

theorem normalizeName_rendered (n : WrittenName) :
    normalizeName n.rendered = quoteIdent n.name := by
  rw [rendered]
  split
  · exact n.plain.normalizeName_quoteIdent
  · exact n.plain.normalizeName

end WrittenName

end SqlDialect
