import SqlDialect.Proofs.Checked.Clause
import SqlDialect.Proofs.Checked.Literal
import SqlDialect.Proofs.Identifier.Bare

set_option autoImplicit false

/-! # Names by place

The quoting of names and the comparisons between them, with every byte read, and every stretch cut
out, by its place. The words that may be names to quote are looked at in the whole statement: what
stands next to a word is read at the places next to it. -/

namespace SqlDialect.Checked

/-! ## Quoting -/

/-- Whether a byte from a place on cannot stand in a bare name. -/
def needsQuotingFrom (name : Bytes) (i : Nat) : Except Fault Bool :=
  if i < name.length then do
    let b ← elementAt name i
    if isNameStart b then needsQuotingFrom name (i + 1)
    else if 0 < i ∧ (Bytes.isDigit b ∨ b = 36) then needsQuotingFrom name (i + 1)
    else return true
  else return false
termination_by name.length - i

/-- Whether the name cannot be written bare. -/
def needsQuoting (name : Bytes) : Except Fault Bool :=
  if name.isEmpty then return true else needsQuotingFrom name 0

theorem needsQuotingFrom_ok {a : Bytes} (ha : a ≠ []) (s : Bytes) :
    needsQuotingFrom (a ++ s) a.length = .ok (!s.all isNameByte) := by
  induction s generalizing a with
  | nil =>
    rw [needsQuotingFrom, if_neg (by simp)]
    rfl
  | cons b s ih =>
    have hnext := ih (a := a ++ [b]) (by simp)
    rw [List.append_assoc, List.length_append] at hnext
    have hpos : 0 < a.length := List.length_pos_iff.2 ha
    rw [needsQuotingFrom, if_pos (by simp), elementAt_eq (a := a) rfl rfl, ok_bind, List.all_cons,
      isNameByte]
    by_cases hstart : isNameStart b = true
    · rw [if_pos hstart, hstart]
      simpa using hnext
    · rw [if_neg hstart]
      by_cases hdigit : Bytes.isDigit b = true ∨ b = 36
      · rw [if_pos ⟨hpos, hdigit⟩]
        have hbyte : (isNameStart b || Bytes.isDigit b || b == 36) = true := by
          rcases hdigit with h | h <;> simp [h]
        rw [hbyte]
        simpa using hnext
      · rw [if_neg (fun h => hdigit h.2)]
        have hbyte : (isNameStart b || Bytes.isDigit b || b == 36) = false := by
          simp only [not_or, Bool.not_eq_true] at hdigit hstart
          simp [hdigit, hstart]
        rw [hbyte]
        rfl

theorem needsQuoting_ok (name : Bytes) :
    needsQuoting name = .ok (SqlDialect.needsQuoting name) := by
  cases name with
  | nil => rfl
  | cons b s =>
    have hnext := needsQuotingFrom_ok (a := [b]) (by simp) s
    rw [needsQuoting, if_neg (by simp), needsQuotingFrom, if_pos (by simp), Int.ofNat_zero,
      elementAt_cons,
      ok_bind, SqlDialect.needsQuoting]
    by_cases hstart : isNameStart b = true
    · rw [if_pos hstart, hstart, Bool.true_and]
      exact hnext
    · rw [if_neg hstart, if_neg (by simp)]
      simp [hstart]

/-- A bare identifier as PostgreSQL reads it. -/
def quoteIdent (name : Bytes) : Except Fault Bytes :=
  if caseSensitiveNames.contains name then return doubleQuoted name
  else do
    if ← needsQuoting name then return doubleQuoted name
    else if reservedWords.contains (Bytes.toLower name) then
      return doubleQuote :: Bytes.toLower name ++ [doubleQuote]
    else return name

theorem quoteIdent_ok (name : Bytes) : quoteIdent name = .ok (SqlDialect.quoteIdent name) := by
  rw [quoteIdent, SqlDialect.quoteIdent, needsQuoting_ok, ok_bind]
  by_cases hcase : caseSensitiveNames.contains name = true
  · rw [if_pos hcase, hcase]
    rfl
  · rw [if_neg hcase]
    simp only [Bool.not_eq_true] at hcase
    rw [hcase, Bool.false_or]
    split
    · rfl
    · split <;> rfl

/-- A name token as it appears in the output. -/
def normalizeName (name : Bytes) : Except Fault Bytes :=
  if name.isEmpty || name.head? == some doubleQuote then return name
  else do
    let index ← placeholderIndex name
    if index.isSome then return name
    else if name.contains 46 && !name.contains doubleQuote then
      let parts ← writeEach [] quoteIdent (Bytes.splitOnByte 46 name)
      return Bytes.join [46] parts
    else quoteIdent name

theorem normalizeName_ok (name : Bytes) :
    normalizeName name = .ok (SqlDialect.normalizeName name) := by
  rw [normalizeName, SqlDialect.normalizeName, placeholderIndex_ok, ok_bind,
    writeEach_ok [] (fun part _ => quoteIdent_ok part), quoteIdent_ok, isPlaceholder]
  by_cases hfirst : (name.isEmpty || name.head? == some doubleQuote) = true
  · rw [if_pos hfirst, hfirst]
    rfl
  · rw [if_neg hfirst]
    simp only [Bool.not_eq_true] at hfirst
    rw [hfirst, Bool.false_or]
    split
    · rfl
    · split <;> rfl

/-- What lies between the double quotes around a text, if there are such. -/
def unquoted (name : Bytes) : Except Fault (Option Bytes) :=
  if 2 ≤ name.length then do
    let first ← elementAt name 0
    if first = doubleQuote then
      let last ← elementAt name ((name.length : Int) - 1)
      if last = doubleQuote then
        let inner ← slice name 1 ((name.length : Int) - 1)
        return some inner
      else return none
    else return none
  else return none

theorem unquoted_ok (name : Bytes) : unquoted name = .ok (unquoted? name) := by
  rw [unquoted, unquoted?]
  by_cases hlen : 2 ≤ name.length
  · obtain ⟨a, inner, z, rfl, hlast, hinner⟩ := exists_between_ends hlen
    have hget : (a :: (inner ++ [z])).getLast? = some z := by
      rw [← List.cons_append, List.getLast?_concat]
    rw [if_pos hlen, elementAt_cons, ok_bind, hlast, hinner, hget]
    by_cases ha : a = doubleQuote
    · by_cases hz : z = doubleQuote
      · simp [ha, hz]
      · simp [ha, hz]
    · simp [ha]
  · rw [if_neg hlen]
    simp [hlen]

/-- A name without its quoting. -/
def bareName (name : Bytes) (lits : LiteralTable) : Except Fault Bytes := do
  match ← lookup lits name with
  | some l => body l
  | none =>
    match ← unquoted name with
    | some inner => return inner
    | none => return Bytes.toLower name

theorem bareName_ok (name : Bytes) {lits : LiteralTable} (hlits : Delimited lits) :
    bareName name lits = .ok (SqlDialect.bareName name lits) := by
  rw [bareName, lookup_ok, ok_bind, unquoted_ok, SqlDialect.bareName]
  cases h : lits.lookup? name with
  | some l => exact body_ok_of_lookup? hlits h
  | none =>
    dsimp only
    rw [ok_bind]
    cases unquoted? name <;> rfl

/-- The part of a name behind its last dot that is not between double quotes; the bytes in front of
a place are still to be looked at. -/
def lastSegmentFrom (name : Bytes) (quoted : Bool) : Nat → Except Fault Bytes
  | 0 => return name
  | i + 1 => do
    let b ← elementAt name i
    if b = doubleQuote then lastSegmentFrom name (!quoted) i
    else if b = 46 ∧ !quoted then sliceFrom name ((i + 1 : Nat) : Int)
    else lastSegmentFrom name quoted i

/-- The part of a name behind its last dot that is not between double quotes. -/
def lastSegment (name : Bytes) : Except Fault Bytes :=
  lastSegmentFrom name false name.length

theorem lastSegmentFrom_ok (left seen : Bytes) (quoted : Bool) :
    lastSegmentFrom (left.reverse ++ seen) quoted left.length
      = .ok (SqlDialect.lastSegment.go quoted seen left) := by
  induction left generalizing seen quoted with
  | nil => rfl
  | cons b left ih =>
    have hb : elementAt ((b :: left).reverse ++ seen) left.length = .ok b :=
      elementAt_eq (a := left.reverse) (b := seen) (by simp) (by simp)
    have hnext : ∀ quoted, lastSegmentFrom ((b :: left).reverse ++ seen) quoted left.length
        = .ok (SqlDialect.lastSegment.go quoted (b :: seen) left) := by
      intro quoted
      have h := ih (b :: seen) quoted
      rwa [List.reverse_cons, List.append_assoc]
    rw [List.length_cons, lastSegmentFrom, hb, ok_bind, SqlDialect.lastSegment.go, hnext, hnext]
    split
    · rfl
    · split
      · exact sliceFrom_eq (a := left.reverse ++ [b]) (by simp) (by simp)
      · rfl

theorem lastSegment_ok (name : Bytes) : lastSegment name = .ok (SqlDialect.lastSegment name) := by
  have h := lastSegmentFrom_ok name.reverse [] false
  rwa [List.reverse_reverse, List.append_nil, List.length_reverse] at h

/-- Writes every name in backticks as a bare or double-quoted name. -/
def replaceBackticks (s : Bytes) : Except Fault Bytes :=
  match _h : Bytes.cut? [backtick] s with
  | none => return s
  | some (before, inner) =>
    match _h' : Bytes.cut? [backtick] inner with
    | none => return s
    | some (name, rest) => do
      let quoted := backtick :: name ++ [backtick]
      let name ← slice quoted 1 ((quoted.length : Int) - 1)
      let name ← quoteIdent name
      let rest ← replaceBackticks rest
      return before ++ name ++ rest
termination_by s.length
decreasing_by
  have hs := congrArg List.length (Bytes.eq_append_of_cut? _h)
  have hinner := congrArg List.length (Bytes.eq_append_of_cut? _h')
  simp only [List.length_append, List.length_singleton] at hs hinner
  omega

theorem replaceBackticks_ok (s : Bytes) :
    replaceBackticks s = .ok (SqlDialect.replaceBackticks s) := by
  by_cases hs : backtick ∈ s
  · obtain ⟨before, inner, rfl, hbefore⟩ := List.eq_append_cons_of_mem hs
    rw [replaceBackticks_append hbefore, replaceBackticks]
    split
    · rename_i hcut
      rw [cut?_of_notMem hbefore] at hcut
      exact absurd hcut (Option.some_ne_none _)
    · rename_i before' inner' hcut
      rw [cut?_of_notMem hbefore, Option.some.injEq, Prod.mk.injEq] at hcut
      obtain ⟨rfl, rfl⟩ := hcut
      by_cases hinner : backtick ∈ inner
      · obtain ⟨name, rest, rfl, hname⟩ := List.eq_append_cons_of_mem hinner
        have hslice : slice (backtick :: name ++ [backtick])
            1 (((backtick :: name ++ [backtick]).length : Int) - 1) = .ok name :=
          slice_eq (a := [backtick]) (c := [backtick]) (by simp) rfl (by simp; omega)
        split
        · rename_i hcut
          rw [cut?_of_notMem hname] at hcut
          exact absurd hcut (Option.some_ne_none _)
        · rename_i name' rest' hcut
          rw [cut?_of_notMem hname, Option.some.injEq, Prod.mk.injEq] at hcut
          obtain ⟨rfl, rfl⟩ := hcut
          dsimp only
          rw [hslice, ok_bind, quoteIdent_ok, ok_bind, replaceBackticks_ok rest,
            replaceBackticks_name hname]
          simp
      · split
        · rw [replaceBackticks_open hinner]
          rfl
        · rename_i hcut
          rw [cut?_eq_none_of_notMem hinner] at hcut
          exact absurd hcut.symm (Option.some_ne_none _)
  · rw [replaceBackticks]
    split
    · rw [replaceBackticks_of_notMem hs]
      rfl
    · rename_i hcut
      rw [cut?_eq_none_of_notMem hs] at hcut
      exact absurd hcut.symm (Option.some_ne_none _)
termination_by s.length
decreasing_by
  subst_vars
  simp only [List.length_append, List.length_cons]
  omega

/-! ## Bare names that need quotes -/

/-- Where the word bytes in front of a place start. -/
def wordStart (s : Bytes) : Nat → Except Fault Nat
  | 0 => return 0
  | i + 1 => do
    let b ← elementAt s i
    if Bytes.isWord b then wordStart s i else return i + 1

/-- The word bytes at the end of a text. -/
def lastWord (s : Bytes) : Except Fault Bytes := do
  let i ← wordStart s s.length
  sliceFrom s i

theorem lastWord_ok (s : Bytes) : lastWord s = .ok (SqlDialect.lastWord s) := by
  have hstart : ∀ left seen : Bytes, wordStart (left.reverse ++ seen) left.length
      = .ok (left.dropWhile Bytes.isWord).length := by
    intro left
    induction left with
    | nil => exact fun _ => rfl
    | cons b left ih =>
      intro seen
      have hb : elementAt ((b :: left).reverse ++ seen) left.length = .ok b :=
        elementAt_eq (a := left.reverse) (b := seen) (by simp) (by simp)
      have hnext := ih (b :: seen)
      rw [← List.singleton_append, ← List.append_assoc, ← List.reverse_cons] at hnext
      rw [List.length_cons, wordStart, hb, ok_bind, List.dropWhile_cons]
      split
      · exact hnext
      · rfl
  have hs : s = (s.reverse.dropWhile Bytes.isWord).reverse ++ SqlDialect.lastWord s := by
    rw [SqlDialect.lastWord, ← List.reverse_append, List.takeWhile_append_dropWhile,
      List.reverse_reverse]
  have h := hstart s.reverse []
  rw [List.reverse_reverse, List.append_nil, List.length_reverse] at h
  rw [lastWord, h, ok_bind]
  exact sliceFrom_eq hs (by rw [List.length_reverse])

/-- Where the word bytes from a place on end. -/
def wordStop (s : Bytes) (i : Nat) : Except Fault Nat :=
  if i < s.length then do
    let b ← elementAt s i
    if Bytes.isWord b then wordStop s (i + 1) else return i
  else return i
termination_by s.length - i

/-- The word bytes at the start of a text. -/
def firstWord (s : Bytes) : Except Fault Bytes := do
  let i ← wordStop s 0
  sliceTo s i

theorem firstWord_ok (s : Bytes) : firstWord s = .ok (SqlDialect.firstWord s) := by
  have hstop : ∀ s a : Bytes, wordStop (a ++ s) a.length
      = .ok (a.length + (s.takeWhile Bytes.isWord).length) := by
    intro s
    induction s with
    | nil =>
      intro a
      rw [wordStop, if_neg (by simp)]
      rfl
    | cons b s ih =>
      intro a
      have hnext := ih (a ++ [b])
      rw [List.append_assoc, List.length_append] at hnext
      rw [wordStop, if_pos (by simp), elementAt_eq (a := a) rfl rfl, ok_bind]
      by_cases hb : Bytes.isWord b = true
      · rw [if_pos hb, List.takeWhile_cons_of_pos hb]
        exact hnext.trans (by simp; omega)
      · rw [if_neg hb, List.takeWhile_cons_of_neg hb]
        rfl
  have h := hstop s []
  rw [List.nil_append, List.length_nil, Nat.zero_add] at h
  rw [firstWord, h, ok_bind]
  exact sliceTo_eq List.takeWhile_append_dropWhile.symm rfl

/-- Whether a double quote stands in front of a place. -/
def quoteBefore (s : Bytes) (start : Nat) : Except Fault Bool :=
  if 0 < start then do
    let b ← elementAt s ((start : Int) - 1)
    return b == doubleQuote
  else return false

theorem quoteBefore_ok (a s : Bytes) :
    quoteBefore (a ++ s) a.length = .ok (a.getLast? == some doubleQuote) := by
  rw [quoteBefore]
  rcases List.eq_nil_or_concat a with rfl | ⟨a, b, rfl⟩
  · rfl
  · have hb : elementAt (a.concat b ++ s) (((a.concat b).length : Int) - 1) = .ok b :=
      elementAt_eq (a := a) (b := s) (by simp) (by simp)
    rw [if_pos (by simp), hb]
    simp

/-- Whether a double quote stands at a place. -/
def quoteAt (s : Bytes) (stop : Nat) : Except Fault Bool :=
  if stop < s.length then do
    let b ← elementAt s stop
    return b == doubleQuote
  else return false

theorem quoteAt_ok (a s : Bytes) :
    quoteAt (a ++ s) a.length = .ok (s.head? == some doubleQuote) := by
  rw [quoteAt]
  cases s with
  | nil =>
    rw [if_neg (by simp)]
    rfl
  | cons b s =>
    rw [if_pos (by simp), elementAt_eq (a := a) rfl rfl]
    simp

/-- What the word between two places is quoted as, if it is used as a name. -/
def bareIdentName (s : Bytes) (start stop : Nat) (word : Bytes) : Except Fault (Option Bytes) :=
  let lower := Bytes.toLower word
  let isId := lower == ascii "id"
  if isId && !caseSensitiveNames.contains word then return none
  else do
    if ← quoteBefore s start then return none
    else if ← quoteAt s stop then return none
    else
      let left ← sliceTo s start
      let before := Bytes.trimRight left
      if Bytes.endsWith before (ascii "::") then return none
      else
        let right ← sliceFrom s stop
        let after := Bytes.trimLeft right
        if Bytes.startsWith after (ascii "(") || Bytes.startsWith after marker then return none
        else if isId then return some word
        else
          let last ← lastWord before
          if [ascii "AS", ascii "AT"].contains (Bytes.toUpper last) then return none
          else
            let first ← firstWord after
            if [ascii "ZONE", ascii "WITH", ascii "WITHOUT"].contains (Bytes.toUpper first) then
              return none
            else return some lower

theorem bareIdentName_ok (left word right : Bytes) :
    bareIdentName (left ++ word ++ right) left.length (left.length + word.length) word
      = .ok (bareNameFor? left word right) := by
  have hbefore := quoteBefore_ok left (word ++ right)
  have hafter := quoteAt_ok (left ++ word) right
  have hleft : sliceTo (left ++ word ++ right) left.length = .ok left :=
    sliceTo_eq (List.append_assoc _ _ _) rfl
  have hright : sliceFrom (left ++ word ++ right) ((left.length + word.length : Nat) : Int)
      = .ok right := sliceFrom_eq rfl (by rw [List.length_append])
  rw [← List.append_assoc] at hbefore
  rw [List.length_append] at hafter
  rw [bareIdentName, bareNameFor?, hbefore, hafter, hleft, hright]
  simp only [lastWord_ok, firstWord_ok, ok_bind, pure_eq_ok]
  cases left.getLast? == some doubleQuote <;> cases right.head? == some doubleQuote
  all_goals
    simp only [Bool.or_true, Bool.or_false, Bool.false_eq_true, if_true, if_false,
      apply_ite Except.ok]

/-- Writes the text from a place on with quoted names, behind what has been written. -/
def quoteSpans (s : Bytes) (last : Nat) (out : Bytes) : List (Nat × Nat) → Except Fault Bytes
  | [] => do
    let rest ← sliceFrom s last
    return out ++ rest
  | (low, high) :: spans => do
    let word ← slice s low high
    match ← bareIdentName s low high word with
    | none => quoteSpans s last out spans
    | some name =>
      let before ← slice s last low
      quoteSpans s high (out ++ before ++ doubleQuote :: name ++ [doubleQuote]) spans

theorem quoteSpans_ok (written pending s out : Bytes) (prev : Option UInt8) :
    quoteSpans (written ++ pending ++ s) written.length out
        (Pattern.spansFrom (written ++ pending).length (bareNamePattern.allFrom prev s))
      = .ok (out ++ pending ++ quoteMatches (written ++ pending) (bareNamePattern.allFrom prev s) ++
          (((bareNamePattern.allFrom prev s).getLast?.map Match.after).getD s)) := by
  rcases bareNamePattern.allFrom_cases prev s with hnil | ⟨m, hs, hlt, hall⟩
  · have hrest : sliceFrom (written ++ pending ++ s) written.length = .ok (pending ++ s) :=
      sliceFrom_eq (List.append_assoc _ _ _) rfl
    rw [hnil, Pattern.spansFrom, quoteSpans, hrest]
    simp [quoteMatches]
  · have hwhole :
        written ++ pending ++ s = written ++ pending ++ m.before ++ m.text ++ m.after := by
      rw [hs]
      simp only [List.append_assoc]
    have hlow : (written ++ pending).length + m.before.length
        = (written ++ pending ++ m.before).length := List.length_append.symm
    have hword : slice (written ++ pending ++ s) (written ++ pending ++ m.before).length
        (((written ++ pending ++ m.before).length + m.text.length : Nat) : Int) = .ok m.text :=
      slice_eq hwhole rfl (by omega)
    have hname := bareIdentName_ok (written ++ pending ++ m.before) m.text m.after
    rw [← hwhole] at hname
    have hlast : (((m :: bareNamePattern.allFrom m.text.getLast? m.after).getLast?.map
        Match.after).getD s) = (((bareNamePattern.allFrom m.text.getLast? m.after).getLast?.map
          Match.after).getD m.after) := by
      rw [List.getLast?_cons]
      cases (bareNamePattern.allFrom m.text.getLast? m.after).getLast? <;> rfl
    rw [hall, Pattern.spansFrom, hlow, quoteSpans, hword, ok_bind, hname, ok_bind, hlast,
      quoteMatches_cons, writtenFor]
    cases bareNameFor? (written ++ pending ++ m.before) m.text m.after with
    | none =>
      have hnext :=
        quoteSpans_ok written (pending ++ m.before ++ m.text) m.after out m.text.getLast?
      simp only [hs, List.append_assoc, List.length_append, Nat.add_assoc] at hnext ⊢
      exact hnext
    | some name =>
      have hnext := quoteSpans_ok (written ++ pending ++ m.before ++ m.text) [] m.after
        (out ++ (pending ++ m.before) ++ doubleQuote :: name ++ [doubleQuote]) m.text.getLast?
      have hgap : slice (written ++ pending ++ s) written.length
          (written ++ pending ++ m.before).length = .ok (pending ++ m.before) :=
        slice_eq (c := m.text ++ m.after) (by rw [hs]; simp only [List.append_assoc]) rfl
          (by simp only [List.length_append]; omega)
      dsimp only
      rw [hgap, ok_bind]
      simp only [hs, List.append_assoc, List.length_append, List.append_nil, List.nil_append,
        List.cons_append, Nat.add_assoc] at hnext ⊢
      exact hnext
termination_by s.length

/-- Quotes the words `ID`, `date`, `time` and `timestamp` wherever they are used as names. -/
def quoteBareIdentifiers (s : Bytes) : Except Fault Bytes :=
  let spans := bareNamePattern.spans s
  if spans.isEmpty then return s else quoteSpans s 0 [] spans

theorem quoteBareIdentifiers_ok (s : Bytes) :
    quoteBareIdentifiers s = .ok (SqlDialect.quoteBareIdentifiers s) := by
  have hspans := quoteSpans_ok [] [] s [] none
  rw [quoteBareIdentifiers]
  split
  · rename_i hempty
    rcases bareNamePattern.allFrom_cases none s with hnil | ⟨m, -, -, hall⟩
    · rw [SqlDialect.quoteBareIdentifiers, Pattern.all, hnil]
      rfl
    · rw [Pattern.spans, Pattern.all, hall] at hempty
      exact absurd hempty (by simp [Pattern.spansFrom])
  · exact hspans

end SqlDialect.Checked
