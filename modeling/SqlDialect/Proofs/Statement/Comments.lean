import SqlDialect.Proofs.Literal.Stray
import SqlDialect.Proofs.Pattern.Keyword
import SqlDialect.Proofs.Script.Split
import SqlDialect.Proofs.Statement.Numbering

set_option autoImplicit false

/-! # Comments in front of a statement

Comments are skipped in the text whose literals have been taken out, and taking literals out knows
nothing of comments: a quote in a comment opens a literal, which may run over the end of the comment
and into the statement. If every comment closes the quotes that it opens, then it is still a complete
comment without its literals, and the statement behind it is read as it would be alone, up to the
numbers of its literals. -/

namespace SqlDialect

open Bytes

/-! ## Closed quotes -/

/-- Whether every quote and backtick that the text opens is closed in it. -/
def quotesClosed : Bytes → Bool
  | [] => true
  | b :: s =>
    if b = singleQuote ∨ b = doubleQuote then closesQuote b s && quotesClosed (closeQuote b s).2
    else if b = backtick then s.contains b && quotesClosed (throughByte b s).2
    else quotesClosed s
termination_by s => s.length
decreasing_by
  · have := length_closeQuote b s; simp; omega
  · have := length_throughByte b s; simp; omega
  · simp

theorem unquoted_of_blank {b : UInt8} (hb : CharSet.blank.contains b.toNat = true) :
    ¬ (b = singleQuote ∨ b = doubleQuote) ∧ b ≠ backtick :=
  forall_blank (P := fun b => ¬ (b = singleQuote ∨ b = doubleQuote) ∧ b ≠ backtick) (by decide) hb

/-- What follows a closed literal does not matter, unless it doubles the closing quote. -/
theorem closeQuote_of_closesQuote {q c : UInt8} {s : Bytes} (hs : closesQuote q s = true)
    (hc : c ≠ q) (hslash : q ≠ backslash) (htick : q ≠ backtick) (rest : Bytes) :
    closeQuote q (s ++ c :: rest) = ((closeQuote q s).1, (closeQuote q s).2 ++ c :: rest) := by
  fun_induction closesQuote q s with
  | case1 => simp at hs
  | case2 b =>
    obtain rfl : b = q := by simpa using hs
    simp [closeQuote, hslash, hc]
  | case3 b d s hescape ih => simp [closeQuote, hescape.1, ih hs]
  | case4 s hescape ih => simp [closeQuote, hslash, ih hs]
  | case5 d s hd => simp [closeQuote, hslash, hd]
  | case6 b d s hescape hb ih =>
    have hb' : b ≠ backslash := fun h => hescape ⟨h, htick⟩
    have hrest := ih hs
    rw [List.cons_append] at hrest
    simp [closeQuote, hb', hb, hrest]

theorem throughByte_of_mem {q : UInt8} {s : Bytes} (h : q ∈ s) (rest : Bytes) :
    throughByte q (s ++ rest) = ((throughByte q s).1, (throughByte q s).2 ++ rest) := by
  induction s with
  | nil => exact absurd h List.not_mem_nil
  | cons b s ih =>
    by_cases hb : b = q
    · simp [throughByte, hb]
    · have hmem : q ∈ s := (List.mem_cons.1 h).resolve_left (Ne.symm hb)
      simp [throughByte, hb, ih hmem]

/-- A text that closes its quotes is shielded by itself; only the numbers of the literals behind it
change. -/
theorem shieldFrom_append {a : Bytes} (ha : quotesClosed a = true) (n : Nat) :
    ∃ m, ∀ c rest, c ≠ singleQuote → c ≠ doubleQuote →
      shieldFrom n (a ++ c :: rest) = shieldFrom n a ++ shieldFrom m (c :: rest) := by
  fun_induction quotesClosed a generalizing n with
  | case1 => exact ⟨n, fun c rest _ _ => by rw [shieldFrom_nil]; rfl⟩
  | case2 b s hb ih =>
    rw [Bool.and_eq_true] at ha
    obtain ⟨m, hm⟩ := ih ha.2 (n + 1)
    refine ⟨m, fun c rest hsingle hdouble => ?_⟩
    have hc : c ≠ b := by rcases hb with rfl | rfl <;> assumption
    have hslash : b ≠ backslash := by rcases hb with rfl | rfl <;> decide
    have htick : b ≠ backtick := by rcases hb with rfl | rfl <;> decide
    rw [List.cons_append, shieldFrom_quote hb, shieldFrom_quote hb,
      closeQuote_of_closesQuote ha.1 hc hslash htick, hm c rest hsingle hdouble, List.append_assoc]
  | case3 s hb ih =>
    rw [Bool.and_eq_true, List.contains_iff_mem] at ha
    obtain ⟨m, hm⟩ := ih ha.2 n
    refine ⟨m, fun c rest hsingle hdouble => ?_⟩
    rw [List.cons_append, shieldFrom_backtick, shieldFrom_backtick, throughByte_of_mem ha.1,
      hm c rest hsingle hdouble, List.append_assoc]
  | case4 b s hb hb' ih =>
    obtain ⟨m, hm⟩ := ih ha n
    refine ⟨m, fun c rest hsingle hdouble => ?_⟩
    rw [List.cons_append, shieldFrom_plain hb hb', shieldFrom_plain hb hb',
      hm c rest hsingle hdouble]
    rfl

/-! ## What shielding keeps of a comment -/

theorem head?_shieldFrom {n : Nat} {s : Bytes} {x : UInt8} (h : (shieldFrom n s).head? = some x) :
    s.head? = some x ∨ x = 95 := by
  fun_cases Shielding.ofText s with
  | case1 =>
    rw [shieldFrom_nil] at h
    cases h
  | case2 b s hb =>
    rw [shieldFrom_quote hb] at h
    exact Or.inr (Option.some.inj h).symm
  | case3 s hb =>
    rw [shieldFrom_backtick] at h
    exact Or.inl h
  | case4 b s hb hb' =>
    rw [shieldFrom_plain hb hb'] at h
    exact Or.inl h

theorem throughByte_cases (q : UInt8) (s : Bytes) :
    (throughByte q s).2 = [] ∨ (throughByte q s).1.getLast? = some q := by
  induction s with
  | nil => exact Or.inl rfl
  | cons b s ih =>
    by_cases hb : b = q
    · exact Or.inr (by simp [throughByte, hb])
    · rcases ih with h | h
      · exact Or.inl (by simp [throughByte, hb, h])
      · exact Or.inr (by simp [throughByte, hb, List.getLast?_cons, h])

/-- The text that closes a block comment. -/
def blockEnd : Bytes :=
  ascii "*/"

theorem blockEnd_prefix_cons {b : UInt8} {s : Bytes} :
    blockEnd <+: b :: s ↔ b = 42 ∧ s.head? = some 47 := by
  rw [show blockEnd = [42, 47] from rfl, List.cons_prefix_cons, eq_comm]
  cases s with
  | nil => simp
  | cons c s => simp [List.cons_prefix_cons, eq_comm]

/-- No end of a comment arises where two texts meet, unless its two bytes do. -/
theorem not_blockEnd_infix_append {a s : Bytes} (ha : ¬ blockEnd <:+: a) (hs : ¬ blockEnd <:+: s)
    (hedge : a.getLast? = some 42 → s.head? ≠ some 47) : ¬ blockEnd <:+: a ++ s := by
  induction a with
  | nil => exact hs
  | cons b a ih =>
    rw [List.infix_cons_iff, not_or, blockEnd_prefix_cons, not_and] at ha
    rw [List.cons_append, List.infix_cons_iff, not_or, blockEnd_prefix_cons, not_and]
    cases a with
    | nil => exact ⟨fun hb => hedge (by rw [hb]; rfl), hs⟩
    | cons c a =>
      refine ⟨fun hb => ha.1 hb, ih ha.2 fun hlast => hedge ?_⟩
      rwa [List.getLast?_cons_cons]

/-- Taking literals out of a text makes no end of a comment. -/
theorem not_blockEnd_infix_shieldFrom {s : Bytes} (hs : ¬ blockEnd <:+: s) (n : Nat) :
    ¬ blockEnd <:+: shieldFrom n s := by
  have hstar : ∀ {a : Bytes}, 42 ∉ a → ¬ blockEnd <:+: a := fun ha hinside =>
    ha (hinside.mem (by decide))
  -- piece by piece: none holds the two bytes, and none ends between them
  fun_induction Shielding.ofText s generalizing n with
  | case1 =>
    rw [shieldFrom_nil]
    decide
  | case2 b s hb ih =>
    have hplace : 42 ∉ placeholder n := fun hmem =>
      absurd (isWord_of_mem_placeholder hmem) (by decide)
    have hsuffix : (closeQuote b s).2 <:+ b :: s :=
      List.IsSuffix.trans ⟨_, closeQuote_append b s⟩ (List.suffix_cons b s)
    rw [shieldFrom_quote hb]
    refine not_blockEnd_infix_append (hstar hplace) (ih ?_ (n + 1)) ?_
    · exact fun hinside => hs (hinside.trans hsuffix.isInfix)
    · intro hlast
      exact absurd (List.mem_of_getLast? hlast) hplace
  | case3 s hb ih =>
    rw [shieldFrom_backtick]
    have hcut := throughByte_append backtick s
    rw [← hcut, ← List.cons_append] at hs
    refine not_blockEnd_infix_append
      (fun hinside => hs (hinside.trans (List.prefix_append _ _).isInfix))
      (ih (fun hinside => hs (hinside.trans (List.suffix_append _ _).isInfix)) n) ?_
    intro hlast
    rcases throughByte_cases backtick s with hnil | hclosed
    · rw [hnil, shieldFrom_nil]
      exact fun h => by cases h
    · rw [List.getLast?_cons, hclosed] at hlast
      exact absurd hlast (by decide)
  | case4 b s hb hb' ih =>
    rw [shieldFrom_plain hb hb', ← List.singleton_append]
    rw [List.infix_cons_iff, not_or, blockEnd_prefix_cons, not_and] at hs
    refine not_blockEnd_infix_append ?_ (ih hs.2 n) ?_
    · intro hinside
      have hlen : blockEnd.length ≤ 1 := hinside.length_le
      exact absurd hlen (by decide)
    · intro hlast hhead
      rcases head?_shieldFrom hhead with h | h
      · exact hs.1 (Option.some.inj hlast) h
      · exact absurd h (by decide)

/-- Shielding adds word bytes only. -/
theorem mem_shieldFrom {n : Nat} {s : Bytes} {b : UInt8} (h : b ∈ shieldFrom n s) :
    b ∈ s ∨ isWord b = true := by
  fun_induction Shielding.ofText s generalizing n with
  | case1 =>
    rw [shieldFrom_nil] at h
    exact Or.inl h
  | case2 q s hq ih =>
    rw [shieldFrom_quote hq, List.mem_append] at h
    rcases h with h | h
    · exact Or.inr (isWord_of_mem_placeholder h)
    · refine (ih h).imp_left fun hmem => ?_
      rw [← closeQuote_append q s]
      exact List.mem_cons_of_mem q (List.mem_append_right _ hmem)
  | case3 s hb ih =>
    rw [shieldFrom_backtick, List.cons_append, List.mem_cons, List.mem_append] at h
    rw [List.mem_cons, ← throughByte_append backtick s, List.mem_append]
    rcases h with h | h | h
    · exact Or.inl (Or.inl h)
    · exact Or.inl (Or.inr (Or.inl h))
    · exact (ih h).imp_left fun hmem => Or.inr (Or.inr hmem)
  | case4 c s hc hc' ih =>
    rw [shieldFrom_plain hc hc', List.mem_cons] at h
    rcases h with rfl | h
    · exact Or.inl List.mem_cons_self
    · exact (ih h).imp_left (List.mem_cons_of_mem c)

theorem cut?_blockEnd {a : Bytes} (ha : ¬ blockEnd <:+: a) (s : Bytes) :
    cut? blockEnd (a ++ (blockEnd ++ s)) = some (a, s) := by
  induction a with
  | nil => rfl
  | cons b a ih =>
    rw [List.infix_cons_iff, not_or, blockEnd_prefix_cons, not_and] at ha
    have hnone : dropLead? blockEnd (b :: (a ++ (blockEnd ++ s))) = none := by
      rw [Option.eq_none_iff_forall_ne_some]
      intro rest hrest
      have hprefix : blockEnd <+: b :: (a ++ (blockEnd ++ s)) :=
        ⟨rest, (eq_append_of_dropLead? hrest).symm⟩
      obtain ⟨hb, hhead⟩ := blockEnd_prefix_cons.1 hprefix
      cases a with
      | nil => cases hhead
      | cons c a => exact ha.1 hb hhead
    rw [List.cons_append, cut?, hnone, ih ha.2]
    rfl

/-! ## The text in front of a statement -/

/-- A complete comment. -/
inductive Comment where
  | block (inner : Bytes) (h : ¬ blockEnd <:+: inner)
  | dashes (inner : Bytes) (h : 10 ∉ inner)
  | hash (inner : Bytes) (h : 10 ∉ inner)

namespace Comment

/-- What the comment says. -/
def inner : Comment → Bytes
  | block inner _ => inner
  | dashes inner _ => inner
  | hash inner _ => inner

/-- The comment as it is written. A comment to the end of the line holds the newline. -/
def text : Comment → Bytes
  | block inner _ => ascii "/*" ++ inner ++ blockEnd
  | dashes inner _ => ascii "-- " ++ inner ++ [10]
  | hash inner _ => ascii "#" ++ inner ++ [10]

/-- Without its literals, a comment that closes its quotes is still a complete comment. -/
theorem shieldFrom_text_append (c : Comment) (hc : quotesClosed c.inner = true) (n : Nat) :
    ∃ (c' : Comment) (m : Nat), ∀ rest,
      shieldFrom n (c.text ++ rest) = c'.text ++ shieldFrom m rest := by
  obtain ⟨m, hm⟩ := shieldFrom_append hc n
  -- the bytes that open and close comments are no quotes
  have hplain : ∀ {b : UInt8}, b ∈ [10, 32, 35, 42, 45, 47] → ∀ k rest,
      shieldFrom k (b :: rest) = b :: shieldFrom k rest := by
    intro b hb k rest
    have hquote : ¬ (b = singleQuote ∨ b = doubleQuote) ∧ b ≠ backtick := by
      revert b
      decide
    exact shieldFrom_plain hquote.1 hquote.2 k rest
  have hline : 10 ∉ c.inner → 10 ∉ shieldFrom n c.inner := fun h hmem =>
    (mem_shieldFrom hmem).elim h fun hword => absurd hword (by decide)
  cases c with
  | block inner h =>
    refine ⟨block _ (not_blockEnd_infix_shieldFrom h n), m, fun rest => ?_⟩
    have hrest := hm 42 (47 :: rest) (by decide) (by decide)
    have htext : ∀ inner rest : Bytes,
        ascii "/*" ++ inner ++ blockEnd ++ rest = 47 :: 42 :: (inner ++ 42 :: 47 :: rest) := by
      intro inner rest
      simp [show ascii "/*" = [47, 42] from rfl, show blockEnd = [42, 47] from rfl]
    rw [hplain (by decide), hplain (by decide)] at hrest
    rw [text, text, htext, htext, hplain (by decide), hplain (by decide)]
    exact congrArg (fun s => 47 :: 42 :: s) hrest
  | dashes inner h =>
    refine ⟨dashes _ (hline h), m, fun rest => ?_⟩
    have hrest := hm 10 rest (by decide) (by decide)
    have htext : ∀ inner rest : Bytes,
        ascii "-- " ++ inner ++ [10] ++ rest = 45 :: 45 :: 32 :: (inner ++ 10 :: rest) := by
      intro inner rest
      simp [show ascii "-- " = [45, 45, 32] from rfl]
    rw [hplain (by decide)] at hrest
    rw [text, text, htext, htext, hplain (by decide), hplain (by decide), hplain (by decide)]
    exact congrArg (fun s => 45 :: 45 :: 32 :: s) hrest
  | hash inner h =>
    refine ⟨hash _ (hline h), m, fun rest => ?_⟩
    have hrest := hm 10 rest (by decide) (by decide)
    have htext : ∀ inner rest : Bytes,
        ascii "#" ++ inner ++ [10] ++ rest = 35 :: (inner ++ 10 :: rest) := by
      intro inner rest
      simp [show ascii "#" = [35] from rfl]
    rw [hplain (by decide)] at hrest
    rw [text, text, htext, htext, hplain (by decide)]
    exact congrArg (fun s => 35 :: s) hrest

/-- A complete comment is dropped, and nothing behind it. -/
theorem dropComment?_text_append (c : Comment) (rest : Bytes) :
    dropComment? (c.text ++ rest) = some rest := by
  have hline : ∀ {inner : Bytes}, 10 ∉ inner → dropLine (inner ++ [10] ++ rest) = rest := by
    intro inner h
    rw [List.append_assoc, dropLine_append h]
    rfl
  cases c with
  | block inner h =>
    have hopen : dropLead? (ascii "/*") (ascii "/*" ++ inner ++ blockEnd ++ rest)
        = some (inner ++ (blockEnd ++ rest)) := by
      simp only [List.append_assoc, dropLead?_append]
    have hcut : cut? (ascii "*/") (inner ++ (blockEnd ++ rest)) = some (inner, rest) :=
      cut?_blockEnd h rest
    rw [text, dropComment?, hopen]
    dsimp only
    rw [hcut]
    rfl
  | dashes inner h =>
    have hdrop := hline h
    exact congrArg some hdrop
  | hash inner h =>
    have hdrop := hline h
    exact congrArg some hdrop

/-- A comment starts with no blank. -/
theorem trimLeft_text_append (c : Comment) (rest : Bytes) :
    trimLeft (c.text ++ rest) = c.text ++ rest := by
  cases c <;> rfl

end Comment

/-- A blank or a complete comment. -/
inductive LeadPiece where
  | blank (b : UInt8) (h : isBlank b = true)
  | comment (c : Comment)

namespace LeadPiece

/-- The piece as it is written. -/
def text : LeadPiece → Bytes
  | blank b _ => [b]
  | comment c => c.text

/-- Whether the piece is a comment. -/
def isComment : LeadPiece → Bool
  | blank _ _ => false
  | comment _ => true

/-- Whether the piece closes the quotes that it opens. -/
def isClosed : LeadPiece → Bool
  | blank _ _ => true
  | comment c => quotesClosed c.inner

theorem shieldFrom_text_append (p : LeadPiece) (hp : p.isClosed = true) (n : Nat) :
    ∃ (p' : LeadPiece) (m : Nat), ∀ rest,
      shieldFrom n (p.text ++ rest) = p'.text ++ shieldFrom m rest := by
  cases p with
  | blank b h =>
    have hplain := unquoted_of_blank (blank_of_isBlank h)
    exact ⟨blank b h, n, fun rest => shieldFrom_plain hplain.1 hplain.2 n rest⟩
  | comment c =>
    obtain ⟨c', m, hc'⟩ := c.shieldFrom_text_append hp n
    exact ⟨comment c', m, hc'⟩

theorem skipLeadingComments_text_append (p : LeadPiece) (rest : Bytes) :
    skipLeadingComments (p.text ++ rest) = skipLeadingComments rest := by
  cases p with
  | blank b h =>
    have htrim : trimLeft ([b] ++ rest) = trimLeft rest := by
      rw [List.singleton_append, trimLeft, List.dropWhile_cons, h]
      rfl
    rw [text, skipLeadingComments.eq_def, skipLeadingComments.eq_def rest, htrim]
  | comment c =>
    have hdrop : dropComment? (trimLeft (c.text ++ rest)) = some rest := by
      rw [c.trimLeft_text_append, c.dropComment?_text_append]
    rw [text, skipLeadingComments.eq_def]
    split
    · rename_i rest' hrest'
      rw [hdrop] at hrest'
      rw [Option.some.inj hrest']
    · rename_i hnone
      rw [hdrop] at hnone
      cases hnone

end LeadPiece

/-- The text that blanks and comments make. -/
def leadText (ps : List LeadPiece) : Bytes :=
  ps.flatMap LeadPiece.text

theorem leadText_cons_append (p : LeadPiece) (ps : List LeadPiece) (s : Bytes) :
    leadText (p :: ps) ++ s = p.text ++ (leadText ps ++ s) := by
  rw [leadText, List.flatMap_cons, List.append_assoc]
  rfl

/-- Blanks and comments stay blanks and comments without their literals. -/
theorem shieldFrom_leadText_append {ps : List LeadPiece} (hps : ∀ p ∈ ps, p.isClosed = true)
    (n : Nat) : ∃ (ps' : List LeadPiece) (m : Nat), ∀ s,
      shieldFrom n (leadText ps ++ s) = leadText ps' ++ shieldFrom m s := by
  induction ps generalizing n with
  | nil => exact ⟨[], n, fun _ => rfl⟩
  | cons p ps ih =>
    obtain ⟨hp, hps⟩ := List.forall_mem_cons.1 hps
    obtain ⟨p', m, hp'⟩ := p.shieldFrom_text_append hp n
    obtain ⟨ps', m', hps'⟩ := ih hps m
    refine ⟨p' :: ps', m', fun s => ?_⟩
    rw [leadText_cons_append, leadText_cons_append, hp', hps']

/-- Blanks and comments are skipped to the last. -/
theorem skipLeadingComments_leadText_append (ps : List LeadPiece) (s : Bytes) :
    skipLeadingComments (leadText ps ++ s) = skipLeadingComments s := by
  induction ps with
  | nil => rfl
  | cons p ps ih => rw [leadText_cons_append, p.skipLeadingComments_text_append, ih]

theorem Kind.ofShielded_leadText_append (ps : List LeadPiece) (s : Bytes) :
    Kind.ofShielded (leadText ps ++ s) = Kind.ofShielded s := by
  rw [Kind.ofShielded, skipLeadingComments_leadText_append, Kind.ofShielded]

/-- What stands in front of a statement does not change its kind, if every comment there closes the
quotes that it opens. -/
theorem Kind.ofStatement_leadText_append (ps : List LeadPiece) (s : Bytes)
    (hps : ∀ p ∈ ps, p.isClosed = true) :
    Kind.ofStatement (leadText ps ++ s) = Kind.ofStatement s := by
  obtain ⟨ps', m, hshield⟩ := shieldFrom_leadText_append hps 0
  rw [Kind.ofStatement, shield_fst, hshield, Kind.ofShielded_leadText_append, Kind.ofStatement,
    shield_fst]
  exact (renumbered_shieldFrom m 0 s).ofShielded

/-- Comments may hold quoted words. -/
theorem Kind.ofStatement_quoted_comment :
    ∃ (ps : List LeadPiece) (s : Bytes),
      leadText ps ++ s = ascii "/* the \"new\" page */-- of 't'\nSELECT a FROM t" ∧
      (∀ p ∈ ps, p.isClosed = true) ∧ Kind.ofStatement (leadText ps ++ s) = Kind.ofStatement s := by
  let ps : List LeadPiece := [.comment (.block (ascii " the \"new\" page ") (by decide +kernel)),
    .comment (.dashes (ascii "of 't'") (by decide +kernel))]
  have hps : ∀ p ∈ ps, p.isClosed = true := by decide +kernel
  exact ⟨ps, ascii "SELECT a FROM t", by decide +kernel, hps,
    Kind.ofStatement_leadText_append ps (ascii "SELECT a FROM t") hps⟩

/-- An apostrophe in a comment opens a literal that swallows the statement. -/
theorem Kind.ofStatement_apostrophe_comment :
    ∃ (p : LeadPiece) (s : Bytes), leadText [p] ++ s = ascii "/* it's */ SELECT 1" ∧
      Kind.ofStatement (leadText [p] ++ s) = .other ∧ Kind.ofStatement s = .select :=
  ⟨.comment (.block (ascii " it's ") (by decide +kernel)), ascii " SELECT 1", by decide +kernel,
    by decide +kernel, by decide +kernel⟩

end SqlDialect
