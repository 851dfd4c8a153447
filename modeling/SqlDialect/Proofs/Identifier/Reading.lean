import SqlDialect.Proofs.Identifier.Names
import SqlDialect.Proofs.Literal.Stray

set_option autoImplicit false

/-! # Names as they are read

PostgreSQL takes what stands between double quotes as it is, each doubled quote once, and folds a
bare identifier to lower case. So a name that can stand bare is read in lower case, however
`quoteIdent` writes it, and any other name is read as itself. MySQL reads what stands between backticks
in the same way. A quote in a name is always doubled, so the quote that ends a name is its last byte
(`readName?_doubleQuoted`), whatever follows it. -/

namespace SqlDialect

open Bytes

/-! ## Reading -/

/-- The name behind an opening quote, each doubled quote taken once, and the text behind the quote that
closes it. -/
def readQuoted? (q : UInt8) : Bytes → Option (Bytes × Bytes)
  | b :: c :: s =>
    if b = q then if c = q then (readQuoted? q s).map (Prod.map (q :: ·) id) else some ([], c :: s)
    else (readQuoted? q (c :: s)).map (Prod.map (b :: ·) id)
  | [b] => if b = q then some ([], []) else none
  | [] => none

/-- The name that the identifier at the start of a text stands for, and the text behind it; `q` is the
quote that names may stand between. -/
def readName? (q : UInt8) : Bytes → Option (Bytes × Bytes)
  | [] => none
  | b :: s =>
    if b = q then readQuoted? q s
    else if isNameStart b then
      some (((b :: s).takeWhile isNameByte).map lowerByte, (b :: s).dropWhile isNameByte)
    else none

/-- The name that an identifier stands for. -/
def nameOf? (q : UInt8) (token : Bytes) : Option Bytes :=
  match readName? q token with
  | some (name, []) => some name
  | _ => none

/-- The text behind a double quote up to the one that closes it, with each doubled quote taken
once. -/
def insideQuotes : Bytes → Bytes
  | b :: c :: s =>
    if b = doubleQuote then if c = doubleQuote then doubleQuote :: insideQuotes s else []
    else b :: insideQuotes (c :: s)
  | [b] => if b = doubleQuote then [] else [b]
  | [] => []

/-- The name that the identifier at the start of a text stands for, as far as there is one. -/
def readIdent : Bytes → Bytes
  | [] => []
  | b :: s =>
    if b = doubleQuote then insideQuotes s else ((b :: s).takeWhile isNameByte).map lowerByte

theorem insideQuotes_of_readQuoted? {s name rest : Bytes}
    (h : readQuoted? doubleQuote s = some (name, rest)) : insideQuotes s = name := by
  fun_induction readQuoted? doubleQuote s generalizing name with
  | case1 s ih =>
    obtain ⟨⟨name, rest⟩, hread, heq⟩ := Option.map_eq_some_iff.1 h
    obtain ⟨rfl, rfl⟩ := Prod.mk.inj heq
    rw [insideQuotes, if_pos rfl, if_pos rfl, ih hread]
  | case2 c s hc =>
    cases h
    rw [insideQuotes, if_pos rfl, if_neg hc]
  | case3 b c s hb ih =>
    obtain ⟨⟨name, rest⟩, hread, heq⟩ := Option.map_eq_some_iff.1 h
    obtain ⟨rfl, rfl⟩ := Prod.mk.inj heq
    rw [insideQuotes, if_neg hb, ih hread]
  | case4 =>
    cases h
    rfl
  | case5 b hb => cases h
  | case6 => cases h

theorem readIdent_of_readName? {s name rest : Bytes}
    (h : readName? doubleQuote s = some (name, rest)) : readIdent s = name := by
  cases s with
  | nil => cases h
  | cons b s =>
    rw [readName?] at h
    rw [readIdent]
    split at h
    · rename_i hb
      rw [if_pos hb, insideQuotes_of_readQuoted? h]
    · rename_i hb
      split at h
      · cases h
        rw [if_neg hb]
      · cases h

/-! ## Quoted names -/

/-- Every quote in the text is doubled. -/
inductive Doubled (q : UInt8) : Bytes → Prop
  | nil : Doubled q []
  | other {b : UInt8} {s : Bytes} (hb : b ≠ q) (h : Doubled q s) : Doubled q (b :: s)
  | quote {s : Bytes} (h : Doubled q s) : Doubled q (q :: q :: s)

/-- The text stands between quotes and has no other quote but doubled ones. -/
def IsQuotedName (q : UInt8) (token : Bytes) : Prop :=
  ∃ inside, token = q :: inside ++ [q] ∧ Doubled q inside

section

variable {q : UInt8}

theorem doubled_replaceAll (q : UInt8) (s : Bytes) : Doubled q (replaceAll [q] [q, q] s) := by
  induction s with
  | nil => exact .nil
  | cons b s ih =>
    rw [replaceAll_cons]
    split
    · exact .quote ih
    · rename_i hb
      exact .other hb ih

theorem doubled_of_notMem {s : Bytes} (h : q ∉ s) : Doubled q s := by
  induction s with
  | nil => exact .nil
  | cons b s ih =>
    rw [List.mem_cons, not_or] at h
    exact .other (Ne.symm h.1) (ih h.2)

theorem readQuoted?_cons_of_ne {b : UInt8} (hb : b ≠ q) (s : Bytes) :
    readQuoted? q (b :: s) = (readQuoted? q s).map (Prod.map (b :: ·) id) := by
  cases s with
  | nil => rw [readQuoted?, if_neg hb]; rfl
  | cons c s => rw [readQuoted?, if_neg hb]

/-- A quote that no other quote follows closes the name. -/
theorem readQuoted?_close {rest : Bytes} (hrest : rest.head? ≠ some q) :
    readQuoted? q (q :: rest) = some ([], rest) := by
  cases rest with
  | nil => rw [readQuoted?, if_pos rfl]
  | cons c rest => rw [readQuoted?, if_pos rfl, if_neg fun hc => hrest (congrArg some hc)]

theorem readQuoted?_of_notMem {s rest : Bytes} (hs : q ∉ s) (hrest : rest.head? ≠ some q) :
    readQuoted? q (s ++ q :: rest) = some (s, rest) := by
  induction s with
  | nil => exact readQuoted?_close hrest
  | cons b s ih =>
    rw [List.mem_cons, not_or] at hs
    rw [List.cons_append, readQuoted?_cons_of_ne (Ne.symm hs.1), ih hs.2]
    rfl

/-- Doubling the quotes of a name is undone by reading it, and no quote of its own ends it. -/
theorem readQuoted?_replaceAll (name : Bytes) {rest : Bytes} (hrest : rest.head? ≠ some q) :
    readQuoted? q (replaceAll [q] [q, q] name ++ q :: rest) = some (name, rest) := by
  induction name with
  | nil => exact readQuoted?_close hrest
  | cons b name ih =>
    rw [replaceAll_cons]
    by_cases hb : b = q
    · subst hb
      rw [if_pos rfl]
      show readQuoted? b (b :: b :: (replaceAll [b] [b, b] name ++ b :: rest)) = _
      rw [readQuoted?, if_pos rfl, if_pos rfl, ih]
      rfl
    · rw [if_neg hb, List.singleton_append, List.cons_append, readQuoted?_cons_of_ne hb, ih]
      rfl

theorem readName?_quoted (inside rest : Bytes) :
    readName? q (q :: inside ++ [q] ++ rest) = readQuoted? q (inside ++ q :: rest) := by
  rw [List.append_assoc, List.cons_append, readName?, if_pos rfl, List.singleton_append]

theorem readName?_doubleQuoted (name : Bytes) {rest : Bytes} (hrest : rest.head? ≠ some doubleQuote) :
    readName? doubleQuote (doubleQuoted name ++ rest) = some (name, rest) := by
  rw [doubleQuoted, readName?_quoted, readQuoted?_replaceAll name hrest]

theorem readName?_backtickQuoted (name : Bytes) {rest : Bytes} (hrest : rest.head? ≠ some backtick) :
    readName? backtick (backtickQuoted name ++ rest) = some (name, rest) := by
  rw [backtickQuoted, readName?_quoted, readQuoted?_replaceAll name hrest]

theorem nameOf?_of_readName? {token name : Bytes} (h : readName? q (token ++ []) = some (name, [])) :
    nameOf? q token = some name := by
  rw [List.append_nil] at h
  rw [nameOf?, h]

end

/-! ## Bare names -/

/-- A name that may stand without quotes. -/
def IsBareName (token : Bytes) : Prop :=
  ∃ b s, token = b :: s ∧ isNameStart b = true ∧ ∀ c ∈ s, isNameByte c = true

theorem isBareName_iff {token : Bytes} : IsBareName token ↔ needsQuoting token = false := by
  cases token with
  | nil => simp [IsBareName, needsQuoting]
  | cons b s =>
    rw [needsQuoting, Bool.not_eq_false', Bool.and_eq_true, List.all_eq_true]
    constructor
    · rintro ⟨_, _, heq, hb, hs⟩
      obtain ⟨rfl, rfl⟩ := List.cons.inj heq
      exact ⟨hb, hs⟩
    · exact fun h => ⟨b, s, rfl, h⟩

theorem doubleQuote_notMem_of_bare {name : Bytes} (h : needsQuoting name = false) :
    doubleQuote ∉ name.map lowerByte := by
  have hbyte : ∀ b, isNameByte b = true → lowerByte b ≠ doubleQuote := fun b hb =>
    forall_isNameByte (P := fun b => lowerByte b ≠ doubleQuote)
      (fun b hb => ne_of_isWord ((isWord_lowerByte b).trans hb) (by decide)) (by decide) hb
  intro hmem
  obtain ⟨b, hb, hlower⟩ := List.mem_map.1 hmem
  exact hbyte b (isNameByte_of_needsQuoting h b hb) hlower

theorem readName?_bare {name : Bytes} (h : needsQuoting name = false) {rest : Bytes}
    (hrest : ∀ x ∈ rest.head?, isNameByte x = false) :
    readName? doubleQuote (name ++ rest) = some (name.map lowerByte, rest) := by
  have hbytes := isNameByte_of_needsQuoting h
  have hstop : rest.takeWhile isNameByte = [] ∧ rest.dropWhile isNameByte = rest := by
    cases rest with
    | nil => exact ⟨rfl, rfl⟩
    | cons x rest => simp [hrest x rfl]
  obtain ⟨b, s, rfl, hstart, -⟩ := isBareName_iff.2 h
  have hb : b ≠ doubleQuote := by
    rintro rfl
    cases hstart
  rw [List.cons_append, readName?, if_neg hb, if_pos hstart, ← List.cons_append,
    List.takeWhile_append_of_pos hbytes, List.dropWhile_append_of_pos hbytes, hstop.1, hstop.2,
    List.append_nil]

/-! ## Written and read -/

/-- Whether the letter case of a name survives: whether it is always written between quotes. -/
def keepsCase (name : Bytes) : Bool :=
  caseSensitiveNames.contains name || needsQuoting name

/-- The name as it is read when it has been written as an identifier. -/
def foldName (name : Bytes) : Bytes :=
  if keepsCase name then name else name.map lowerByte

/-- A name that is written as an identifier is read as itself, or in lower case if it could stand bare,
and what follows it is left, if this does not go on with a quote or as a bare name. -/
theorem readName?_quoteIdent (name : Bytes) {rest : Bytes}
    (hrest : ∀ x ∈ rest.head?, x ≠ doubleQuote ∧ isNameByte x = false) :
    readName? doubleQuote (quoteIdent name ++ rest) = some (foldName name, rest) := by
  have hquote : rest.head? ≠ some doubleQuote := fun h => (hrest doubleQuote h).1 rfl
  rw [quoteIdent, foldName, keepsCase]
  split
  · exact readName?_doubleQuoted name hquote
  · rename_i hplain
    rw [Bool.not_eq_true, Bool.or_eq_false_iff] at hplain
    split
    · rw [readName?_quoted, toLower_ascii (ascii_of_needsQuoting hplain.2)]
      exact readQuoted?_of_notMem (doubleQuote_notMem_of_bare hplain.2) hquote
    · exact readName?_bare hplain.2 fun x hx => (hrest x hx).2

theorem readIdent_quoteIdent (name : Bytes) {x : UInt8} (hx : isNameByte x = false)
    (hquote : x ≠ doubleQuote) (rest : Bytes) :
    readIdent (quoteIdent name ++ x :: rest) = foldName name := by
  refine readIdent_of_readName? (readName?_quoteIdent name ?_)
  rintro y hy
  obtain rfl := Option.some.inj hy
  exact ⟨hquote, hx⟩

theorem foldName_eq (name : Bytes) :
    foldName name = if name = ascii "ID" ∨ needsQuoting name = true then name else name.map lowerByte := by
  simp [foldName, keepsCase, caseSensitiveNames]

theorem map_lowerByte_foldName (name : Bytes) : (foldName name).map lowerByte = name.map lowerByte := by
  rw [foldName]
  split
  · rfl
  · exact map_lowerByte_idem name

/-- An identifier is a bare name that is no reserved word, or stands between quotes. -/
theorem quoteIdent_cases (name : Bytes) :
    (IsBareName (quoteIdent name) ∧ Bytes.toLower (quoteIdent name) ∉ reservedWords) ∨
      IsQuotedName doubleQuote (quoteIdent name) := by
  rw [quoteIdent]
  split
  · exact Or.inr ⟨_, rfl, doubled_replaceAll _ _⟩
  · rename_i hplain
    rw [Bool.not_eq_true, Bool.or_eq_false_iff] at hplain
    split
    · refine Or.inr ⟨_, rfl, doubled_of_notMem ?_⟩
      rw [toLower_ascii (ascii_of_needsQuoting hplain.2)]
      exact doubleQuote_notMem_of_bare hplain.2
    · rename_i hreserved
      exact Or.inl ⟨isBareName_iff.2 hplain.2, fun hmem => hreserved (List.contains_iff_mem.2 hmem)⟩

theorem nameOf?_quoteIdent (name : Bytes) : nameOf? doubleQuote (quoteIdent name) = some (foldName name) :=
  nameOf?_of_readName? (readName?_quoteIdent name fun _ hx => absurd hx (Option.not_mem_none _))

theorem nameOf?_doubleQuoted (name : Bytes) : nameOf? doubleQuote (doubleQuoted name) = some name :=
  nameOf?_of_readName? (readName?_doubleQuoted name (Option.some_ne_none _).symm)

theorem nameOf?_backtickQuoted (name : Bytes) : nameOf? backtick (backtickQuoted name) = some name :=
  nameOf?_of_readName? (readName?_backtickQuoted name (Option.some_ne_none _).symm)

/-- Every name can be read back from its identifier, up to letter case if it could stand bare; what
follows the identifier is left alone, so no name ends its own quotes, and names with the same identifier
differ at most in letter case. -/
theorem names_read_back (name : Bytes) :
    ((IsBareName (quoteIdent name) ∧ Bytes.toLower (quoteIdent name) ∉ reservedWords) ∨
      IsQuotedName doubleQuote (quoteIdent name)) ∧
    nameOf? doubleQuote (quoteIdent name)
      = some (if name = ascii "ID" ∨ needsQuoting name = true then name else name.map lowerByte) ∧
    nameOf? doubleQuote (doubleQuoted name) = some name ∧
    nameOf? backtick (backtickQuoted name) = some name ∧
    (∀ rest : Bytes, (∀ x ∈ rest.head?, x ≠ doubleQuote ∧ isNameByte x = false) →
      readName? doubleQuote (quoteIdent name ++ rest) = some (foldName name, rest)) ∧
    (∀ rest : Bytes, rest.head? ≠ some doubleQuote →
      readName? doubleQuote (doubleQuoted name ++ rest) = some (name, rest)) ∧
    (∀ rest : Bytes, rest.head? ≠ some backtick →
      readName? backtick (backtickQuoted name ++ rest) = some (name, rest)) ∧
    ∀ other, (quoteIdent name = quoteIdent other → name.map lowerByte = other.map lowerByte) ∧
      (doubleQuoted name = doubleQuoted other → name = other) ∧
      (backtickQuoted name = backtickQuoted other → name = other) := by
  refine ⟨quoteIdent_cases name, ?_, nameOf?_doubleQuoted name, nameOf?_backtickQuoted name,
    fun rest hrest => readName?_quoteIdent name hrest,
    fun rest hrest => readName?_doubleQuoted name hrest,
    fun rest hrest => readName?_backtickQuoted name hrest, fun other => ⟨?_, ?_, ?_⟩⟩
  · rw [nameOf?_quoteIdent, foldName_eq]
  -- equal identifiers are read as equal names
  · intro h
    have hread := nameOf?_quoteIdent other
    rw [← h, nameOf?_quoteIdent, Option.some.injEq] at hread
    rw [← map_lowerByte_foldName name, hread, map_lowerByte_foldName]
  · intro h
    have hread := nameOf?_doubleQuoted other
    rwa [← h, nameOf?_doubleQuoted, Option.some.injEq] at hread
  · intro h
    have hread := nameOf?_backtickQuoted other
    rwa [← h, nameOf?_backtickQuoted, Option.some.injEq] at hread

/-- A name of quotes alone in front of more quotes, and two spellings of a reserved word. -/
theorem names_read_back_quotes :
    readName? doubleQuote (doubleQuoted (ascii "\"\"") ++ ascii ".\"t\"")
      = some (ascii "\"\"", ascii ".\"t\"") ∧
    readName? backtick (backtickQuoted (ascii "``;") ++ ascii "\n") = some (ascii "``;", ascii "\n") ∧
    readName? doubleQuote (quoteIdent (ascii "a\"b") ++ ascii " int")
      = some (foldName (ascii "a\"b"), ascii " int") ∧
    quoteIdent (ascii "Order") = quoteIdent (ascii "ORDER") ∧
    (ascii "Order").map lowerByte = (ascii "ORDER").map lowerByte :=
  ⟨(names_read_back _).2.2.2.2.2.1 _ (by decide), (names_read_back _).2.2.2.2.2.2.1 _ (by decide),
    (names_read_back _).2.2.2.2.1 _ (by decide), by decide +kernel,
    ((names_read_back (ascii "Order")).2.2.2.2.2.2.2 (ascii "ORDER")).1 (by decide +kernel)⟩

end SqlDialect
