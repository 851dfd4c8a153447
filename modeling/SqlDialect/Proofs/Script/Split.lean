import SqlDialect.Proofs.Text.Bytes
import SqlDialect.Proofs.Text.Glyphs
import SqlDialect.Script.Split

set_option autoImplicit false

/-! # Splitting undoes joining

A script is read piece by piece, and what a piece is may depend on what follows it: a quote may be
doubled, two dashes may open a comment, a word may open a DELIMITER line. A statement that is its
own split consists of bytes and quoted texts only, since every other piece leaves less behind than
it takes; and if its quotes are closed, then none of these pieces is read differently when a
semicolon and more text follow. So joined statements are cut exactly where they were joined. -/

namespace SqlDialect

/-! ## Closed quotes -/

/-- Whether the quote `q` is closed in the text behind it. -/
def closesQuote (q : UInt8) : Bytes → Bool
  | [] => false
  | [b] => b == q
  | b :: c :: s =>
    if b = backslash ∧ q ≠ backtick then closesQuote q s
    else if b = q then if c = q then closesQuote q s else true
    else closesQuote q (c :: s)

theorem quotedLength_le (q : UInt8) (s : Bytes) : quotedLength q s ≤ s.length := by
  fun_induction quotedLength q s <;> simp only [List.length_cons, List.length_nil] at * <;> omega

theorem quotedLength_cons_pos (q c : UInt8) (s : Bytes) : 0 < quotedLength q (c :: s) := by
  cases s with
  | nil => exact Nat.one_pos
  | cons d s =>
    rw [quotedLength]
    split
    · omega
    split
    · split <;> omega
    · omega

/-- A quote is closed in the text behind it if and only if it is closed in the quoted text. -/
theorem closesQuote_take (q : UInt8) (s : Bytes) :
    closesQuote q (s.take (quotedLength q s)) = closesQuote q s := by
  fun_induction quotedLength q s with
  | case1 => rfl
  | case2 b => rfl
  | case3 b c s hescape ih => simp [closesQuote, hescape, ih]
  | case4 s hescape ih => simp [closesQuote, hescape, ih]
  | case5 c s hescape hc => simp [closesQuote, hescape, hc]
  | case6 b c s hescape hb ih =>
    obtain ⟨k, hk⟩ := Nat.exists_eq_succ_of_ne_zero (Nat.ne_of_gt (quotedLength_cons_pos q c s))
    rw [hk, Nat.succ_eq_add_one, List.take_succ_cons] at ih ⊢
    rw [List.take_succ_cons]
    simpa [closesQuote, hescape, hb] using ih

/-- Text behind a closed quote does not matter, unless it doubles the closing quote. -/
theorem quotedLength_append {q c : UInt8} {s : Bytes} (hs : closesQuote q s = true) (hc : c ≠ q)
    (hq : q ≠ backslash) (rest : Bytes) : quotedLength q (s ++ c :: rest) = quotedLength q s := by
  fun_induction closesQuote q s with
  | case1 => simp at hs
  | case2 b =>
    obtain rfl : b = q := by simpa using hs
    simp [quotedLength, hq, hc]
  | case3 b d s hescape ih => simp [quotedLength, hescape, ih hs]
  | case4 s hescape ih => simp [quotedLength, hescape, ih hs]
  | case5 d s hescape hd => simp [quotedLength, hescape, hd]
  | case6 b d s hescape hb ih =>
    have := ih hs
    simp only [List.cons_append] at this
    simp [quotedLength, hescape, hb, this]

/-! ## Pieces -/

namespace Piece

/-- Whether the piece is kept in the statement as it is written. -/
def isText : Piece → Bool
  | quoted _ | byte _ => true
  | directive _ | comment _ | delimiter => false

/-- Whether a quote that the piece opens is closed in it. -/
def isClosed : Piece → Bool
  | quoted (q :: body) => closesQuote q body
  | _ => true

/-- No byte of the word that opens a DELIMITER line is a semicolon, in any letter case. -/
theorem isDirective_append (s rest : Bytes) : isDirective (s ++ 59 :: rest) = isDirective s := by
  have hlength : directiveWord.length = 10 := rfl
  by_cases hlong : 10 ≤ s.length
  · have hlong' : 10 ≤ (s ++ 59 :: rest).length := by
      rw [List.length_append]
      omega
    simp only [isDirective, hlength, hlong, hlong', List.take_append_of_le_length hlong]
  · have hshort : isDirective s = false := by simp [isDirective, hlength, hlong]
    have hmem : (59 : UInt8) ∈ (s ++ 59 :: rest).take 10 := by
      rw [List.take_append, List.mem_append]
      right
      obtain ⟨k, hk⟩ : ∃ k, 10 - s.length = k + 1 := ⟨9 - s.length, by omega⟩
      simp [hk]
    have hfold : foldCode 59
        ∈ (Utf8.glyphs ((s ++ 59 :: rest).take 10)).map fun g => foldCode g.code :=
      List.mem_map.2 ⟨_, Utf8.mem_glyphs_of_ascii (by decide) hmem, rfl⟩
    have hword : foldCode 59 ∉ (Utf8.glyphs directiveWord).map fun g => foldCode g.code := by decide
    rw [hshort, isDirective, hlength, Bool.and_eq_false_iff]
    right
    rw [Bytes.equalFold, beq_eq_false_iff_ne]
    intro heq
    exact hword (heq ▸ hfold)

theorem isDashComment_append (b : UInt8) (s rest : Bytes) (h : isDashComment (b :: s) = false) :
    isDashComment (b :: s ++ 59 :: rest) = false := by
  have hlead : ascii "--" = [45, 45] := rfl
  rw [isDashComment, hlead] at h ⊢
  rcases s with _ | ⟨c, _ | ⟨d, s⟩⟩
  · simp [Bytes.dropLead?]
  · by_cases hb : 45 = b <;> by_cases hc : 45 = c <;> simp_all [Bytes.dropLead?]
  · by_cases hb : 45 = b <;> by_cases hc : 45 = c <;> simp_all [Bytes.dropLead?]

theorem startsWith_comment_append (b : UInt8) (s rest : Bytes)
    (h : Bytes.startsWith (b :: s) (ascii "/*") = false) :
    Bytes.startsWith (b :: s ++ 59 :: rest) (ascii "/*") = false := by
  have hlead : ascii "/*" = [47, 42] := rfl
  rw [Bytes.startsWith, hlead] at h ⊢
  cases s with
  | nil => simp [Bytes.dropLead?]
  | cons c s => simpa [Bytes.dropLead?] using h

theorem startsWith_semicolon (b : UInt8) (s : Bytes) :
    Bytes.startsWith (b :: s) (ascii ";") = decide (59 = b) := by
  have hlead : ascii ";" = [59] := rfl
  by_cases hb : 59 = b <;> simp [Bytes.startsWith, hlead, Bytes.dropLead?, hb]

/-- A semicolon is the delimiter, whatever follows. -/
theorem ofText_semicolon (fresh : Bool) (rest : Bytes) :
    ofText fresh (ascii ";") 59 rest = (delimiter, 1) := by
  have hdirective : isDirective (59 :: rest) = false := isDirective_append [] rest
  have hline : isDashComment (59 :: rest) = false := rfl
  have hblock : Bytes.startsWith (59 :: rest) (ascii "/*") = false := rfl
  unfold ofText
  simp [hdirective, hline, hblock, startsWith_semicolon, singleQuote, doubleQuote, backtick]
  rfl

/-- A kept piece whose quote is closed is the same piece when a semicolon follows the text. -/
theorem ofText_append {fresh : Bool} {b : UInt8} {s : Bytes} (rest : Bytes)
    (htext : (ofText fresh (ascii ";") b s).1.isText = true)
    (hclosed : (ofText fresh (ascii ";") b s).1.isClosed = true) :
    ofText fresh (ascii ";") b (s ++ 59 :: rest) = ofText fresh (ascii ";") b s := by
  have hdirective := isDirective_append (b :: s) rest
  rw [List.cons_append] at hdirective
  unfold ofText at htext hclosed ⊢
  simp only [hdirective]
  by_cases hword : (fresh && isDirective (b :: s)) = true
  · simp [hword, isText] at htext
  simp only [hword, if_false, Bool.false_eq_true] at htext hclosed ⊢
  by_cases hquote : b = singleQuote ∨ b = doubleQuote ∨ b = backtick
  · have hne : (59 : UInt8) ≠ b ∧ b ≠ backslash := by
      rcases hquote with rfl | rfl | rfl <;> decide
    simp only [hquote, if_true, List.take_succ_cons, isClosed, closesQuote_take] at hclosed ⊢
    rw [quotedLength_append hclosed hne.1 hne.2 rest,
      List.take_append_of_le_length (quotedLength_le b s)]
  simp only [hquote, if_false] at htext ⊢
  by_cases hline : b = 35 ∨ isDashComment (b :: s) = true
  · simp [hline, isText] at htext
  simp only [hline, if_false] at htext ⊢
  by_cases hblock : Bytes.startsWith (b :: s) (ascii "/*") = true
  · simp only [hblock, if_true] at htext
    split at htext <;> simp [isText] at htext
  simp only [not_or, Bool.not_eq_true] at hline hblock
  have hline' := isDashComment_append b s rest hline.2
  have hblock' := startsWith_comment_append b s rest hblock
  rw [List.cons_append] at hline' hblock'
  simp only [hline.1, hline', hblock, hblock', if_false, or_self, Bool.false_eq_true,
    startsWith_semicolon]

/-- What the piece leaves in the statement. -/
def trace : Piece → Bytes
  | quoted text => text
  | comment trace => trace
  | byte b => [b]
  | directive _ | delimiter => []

/-- A piece that is text leaves all of its text behind. -/
theorem trace_ofText {fresh : Bool} {delimiter : Bytes} {b : UInt8} {s : Bytes} {piece : Piece}
    {n : Nat} (h : ofText fresh delimiter b s = (piece, n)) (htext : piece.isText = true) :
    (∃ k, n = k + 1 ∧ k ≤ s.length) ∧ piece.trace = (b :: s).take n := by
  obtain rfl : (ofText fresh delimiter b s).1 = piece := by rw [h]
  obtain rfl : (ofText fresh delimiter b s).2 = n := by rw [h]
  clear h
  unfold ofText at htext ⊢
  dsimp only at htext ⊢
  split
  · simp_all [isText]
  split
  · exact ⟨⟨_, rfl, quotedLength_le b s⟩, rfl⟩
  split
  · simp_all [isText]
  split
  · split <;> simp_all [isText]
  split
  · simp_all [isText]
  · exact ⟨⟨_, rfl, Nat.zero_le _⟩, rfl⟩

theorem trace_append_drop {fresh : Bool} {delimiter : Bytes} {b : UInt8} {s : Bytes}
    {piece : Piece} {n : Nat} (h : ofText fresh delimiter b s = (piece, n))
    (htext : piece.isText = true) : piece.trace ++ s.drop (n - 1) = b :: s := by
  obtain ⟨⟨k, rfl, -⟩, htrace⟩ := trace_ofText h htext
  rw [htrace, List.take_succ_cons, Nat.add_sub_cancel, List.cons_append, List.take_append_drop]

/-- A comment of one line starts before the end of its line. -/
theorem lineLength_pos {b : UInt8} {s : Bytes} (h : b = 35 ∨ isDashComment (b :: s) = true) :
    0 < lineLength (b :: s) := by
  have hb : b ≠ 10 := by
    rintro rfl
    have hlead : ascii "--" = [45, 45] := rfl
    simp [isDashComment, hlead, Bytes.dropLead?] at h
  simp [lineLength, hb]

/-- A piece that is no text takes more than it leaves behind. -/
theorem length_trace_ofText {fresh : Bool} {delimiter : Bytes} {b : UInt8} {s : Bytes}
    {piece : Piece} {n : Nat} (h : ofText fresh delimiter b s = (piece, n))
    (htext : piece.isText = false) :
    piece.trace.length + (s.drop (n - 1)).length ≤ s.length := by
  obtain rfl : (ofText fresh delimiter b s).1 = piece := by rw [h]
  obtain rfl : (ofText fresh delimiter b s).2 = n := by rw [h]
  clear h
  unfold ofText at htext ⊢
  dsimp only at htext ⊢
  split
  · simp [trace]
  split
  · simp_all [isText]
  split
  · rename_i hline
    have hpos := lineLength_pos hline
    rw [List.length_cons, List.length_drop]
    split <;> simp only [trace, List.length_cons, List.length_nil] <;> omega
  split
  · rename_i hblock
    have hlong : 0 < s.length := by
      have hlead : ascii "/*" = [47, 42] := rfl
      cases s with
      | nil => simp [Bytes.startsWith, hlead, Bytes.dropLead?] at hblock
      | cons c s => simp
    split <;> simp only [trace, List.length_cons, List.length_nil, List.length_drop] <;> omega
  split
  · simp [trace]
  · simp_all [isText]

end Piece

/-! ## What is kept of a script -/

namespace Splitter

/-- The pieces of the rest of a script, each with its text. -/
def pieces (p : Splitter) : Bytes → List (Piece × Bytes)
  | [] => []
  | b :: s =>
    let (piece, n) := Piece.ofText p.fresh p.delimiter b s
    (piece, (b :: s).take n)
      :: ((p.add piece ((b :: s).take n)).1).pieces (s.drop (n - 1))
termination_by s => s.length
decreasing_by
  rw [List.length_drop, List.length_cons]
  omega

theorem add_current (p : Splitter) (w : Bytes) (piece : Piece) (raw : Bytes) :
    ∃ w', (add { p with current := w } piece raw).1
      = { (p.add piece raw).1 with current := w' } := by
  cases piece <;> exact ⟨_, rfl⟩

/-- How a script is cut into pieces does not depend on the statement so far. -/
theorem pieces_current (p : Splitter) (w s : Bytes) :
    pieces { p with current := w } s = p.pieces s := by
  fun_induction pieces p s generalizing w with
  | case1 p => rw [pieces]
  | case2 p b s piece n hpiece ih =>
    obtain ⟨w', hw'⟩ := add_current p w piece ((b :: s).take n)
    rw [pieces]
    simp only [fresh] at hpiece ⊢
    rw [hpiece]
    dsimp only
    rw [hw', ih]

/-- A piece that is text is added to the statement. -/
theorem add_of_isText {p : Splitter} {piece : Piece} (htext : piece.isText = true) (raw : Bytes) :
    (p.add piece raw).2 = [] ∧ (p.add piece raw).1.delimiter = p.delimiter ∧
      (p.add piece raw).1.current = p.current ++ piece.trace := by
  cases piece <;> simp_all [Piece.isText, Piece.trace, add]

theorem length_statement_le (p : Splitter) : p.statement.flatten.length ≤ p.current.length := by
  rw [statement]
  split
  · simp
  · simpa using Bytes.length_trimSpace_le p.current

/-- A piece adds at most its trace, to the statement so far or to a completed one. -/
theorem length_add_le (p : Splitter) (piece : Piece) (raw : Bytes) :
    (p.add piece raw).2.flatten.length + (p.add piece raw).1.current.length
      ≤ p.current.length + piece.trace.length := by
  cases piece with
  | delimiter => simpa [add, Piece.trace] using length_statement_le { p with lineStart := _ }
  | _ => simp [add, Piece.trace]

/-- The statements of a script are no longer than what was read for them. -/
theorem length_run_le (p : Splitter) (s : Bytes) :
    (p.run s).flatten.length ≤ p.current.length + s.length := by
  fun_induction run p s with
  | case1 p => exact length_statement_le p
  | case2 p b s piece n hpiece next done hadd ih =>
    have hstep := length_add_le p piece ((b :: s).take n)
    simp only [hadd] at hstep
    have htrace : piece.trace.length + (s.drop (n - 1)).length ≤ (b :: s).length := by
      cases htext : piece.isText with
      | true =>
        refine Nat.le_of_eq ?_
        rw [← List.length_append, Piece.trace_append_drop hpiece htext]
      | false => exact Nat.le_succ_of_le (Piece.length_trace_ofText hpiece htext)
    rw [List.flatten_append, List.length_append]
    omega

/-- Only bytes and quoted texts are kept whole. -/
theorem isText_of_length_run {p : Splitter} {s : Bytes}
    (h : (p.run s).flatten.length = p.current.length + s.length) :
    ∀ x ∈ p.pieces s, x.1.isText = true := by
  fun_induction pieces p s with
  | case1 p => simp
  | case2 p b s piece n hpiece ih =>
    rw [run, hpiece] at h
    dsimp only at h
    have hstep := length_add_le p piece ((b :: s).take n)
    have hrest := length_run_le (p.add piece ((b :: s).take n)).1 (s.drop (n - 1))
    rw [List.flatten_append, List.length_append] at h
    have htext : piece.isText = true := by
      refine Bool.not_eq_false _ ▸ fun hno => ?_
      have htrace := Piece.length_trace_ofText hpiece hno
      rw [List.length_cons] at h
      omega
    have htrace := congrArg List.length (Piece.trace_append_drop hpiece htext)
    rw [List.length_append] at htrace
    refine List.forall_mem_cons.2 ⟨htext, ih ?_⟩
    omega

/-- A text of bytes and quoted texts is read into the statement. -/
theorem run_of_isText {p : Splitter} {s : Bytes} (h : ∀ x ∈ p.pieces s, x.1.isText = true) :
    p.run s = statement { p with current := p.current ++ s } := by
  fun_induction pieces p s with
  | case1 p => rw [run, List.append_nil]
  | case2 p b s piece n hpiece ih =>
    obtain ⟨htext, hrest⟩ := List.forall_mem_cons.1 h
    obtain ⟨hdone, -, hcurrent⟩ := add_of_isText (p := p) htext ((b :: s).take n)
    rw [run, hpiece]
    dsimp only
    rw [hdone, List.nil_append, ih hrest]
    simp only [statement, hcurrent]
    rw [List.append_assoc, Piece.trace_append_drop hpiece htext]

/-- Behind a text of bytes and closed quotes a semicolon ends the statement. -/
theorem run_append {p : Splitter} {s : Bytes} (hdelimiter : p.delimiter = ascii ";")
    (h : ∀ x ∈ p.pieces s, x.1.isText = true ∧ x.1.isClosed = true) (rest : Bytes) :
    p.run (s ++ 59 :: rest)
      = statement { p with current := p.current ++ s } ++ run { lineStart := false } rest := by
  fun_induction pieces p s with
  | case1 p =>
    rw [List.nil_append, run, hdelimiter, Piece.ofText_semicolon]
    cases hline : p.lineStart <;>
      simp [add, hdelimiter, hline, lineStartAfter, Bytes.isBlank, statement]
  | case2 p b s piece n hpiece ih =>
    obtain ⟨⟨htext, hclosed⟩, hrest⟩ := List.forall_mem_cons.1 h
    obtain ⟨hdone, hkeep, hcurrent⟩ := add_of_isText (p := p) htext ((b :: s).take n)
    have happend : Piece.ofText p.fresh p.delimiter b (s ++ 59 :: rest) = (piece, n) := by
      rw [hdelimiter] at hpiece ⊢
      rw [← hpiece]
      exact Piece.ofText_append rest (by rw [hpiece]; exact htext) (by rw [hpiece]; exact hclosed)
    obtain ⟨⟨k, rfl, hk⟩, -⟩ := Piece.trace_ofText hpiece htext
    have htake : (b :: (s ++ 59 :: rest)).take (k + 1) = (b :: s).take (k + 1) := by
      rw [List.take_succ_cons, List.take_append_of_le_length hk, List.take_succ_cons]
    rw [List.cons_append, run, happend]
    dsimp only
    rw [htake, hdone, List.nil_append, Nat.add_sub_cancel, List.drop_append_of_le_length hk]
    rw [Nat.add_sub_cancel] at ih hrest
    rw [ih (hkeep.trans hdelimiter) hrest]
    simp only [statement, hcurrent]
    rw [List.append_assoc, ← Piece.trace_append_drop hpiece htext, Nat.add_sub_cancel]

end Splitter

/-! ## Joining statements -/

/-- Every quote and backtick that opens in the statement is closed in it. -/
def QuotesClosed (s : Bytes) : Prop :=
  ∀ x ∈ Splitter.pieces {} s, x.1.isClosed = true

instance (s : Bytes) : Decidable (QuotesClosed s) :=
  inferInstanceAs (Decidable (∀ x ∈ Splitter.pieces {} s, x.1.isClosed = true))

/-- A statement that is its own split is not empty, has no white space at its ends, and consists of
bytes and quoted texts. -/
theorem isText_of_splitStatements {s : Bytes} (h : splitStatements s = [s]) :
    Bytes.trimSpace s = s ∧ s ≠ [] ∧ ∀ x ∈ Splitter.pieces {} s, x.1.isText = true := by
  have htext : ∀ x ∈ Splitter.pieces {} s, x.1.isText = true := by
    apply Splitter.isText_of_length_run
    rw [show Splitter.run {} s = [s] from h]
    simp
  have hrun : Splitter.statement { current := s } = [s] :=
    (Splitter.run_of_isText htext).symm.trans h
  rw [Splitter.statement] at hrun
  split at hrun
  · simp at hrun
  · rename_i hne
    obtain ⟨hs⟩ := List.cons.inj hrun
    rw [hs, List.isEmpty_iff] at hne
    exact ⟨hs, hne, htext⟩

/-- Behind a semicolon and a newline the reading starts anew. -/
theorem run_newline (rest : Bytes) :
    Splitter.run { lineStart := false } (10 :: rest) = Splitter.run { current := [10] } rest := by
  have hline : Piece.isDashComment (10 :: rest) = false := rfl
  have hblock : Bytes.startsWith (10 :: rest) (ascii "/*") = false := rfl
  have hpiece : Piece.ofText false (ascii ";") 10 rest = (.byte 10, 1) := by
    unfold Piece.ofText
    simp [hline, hblock, Piece.startsWith_semicolon, singleQuote, doubleQuote, backtick]
  rw [Splitter.run]
  simp [Splitter.fresh, hpiece, Splitter.add, Splitter.lineStartAfter, Bytes.isBlank]

/-- Joined statements are cut where they were joined, also if white space was read before. -/
theorem run_joined {w : Bytes} (htrim : ∀ s, Bytes.trimSpace (w ++ s) = Bytes.trimSpace s)
    {ss : List Bytes} (hss : ∀ s ∈ ss, splitStatements s = [s] ∧ QuotesClosed s) :
    Splitter.run { current := w } (ss.flatMap (· ++ ascii ";\n")) = ss := by
  induction ss generalizing w with
  | nil =>
    rw [List.flatMap_nil, Splitter.run, Splitter.statement]
    have hnil := htrim []
    rw [List.append_nil] at hnil
    simp only [hnil]
    rfl
  | cons s ss ih =>
    obtain ⟨⟨hsplit, hclosed⟩, hrest⟩ := List.forall_mem_cons.1 hss
    obtain ⟨hs, hne, htext⟩ := isText_of_splitStatements hsplit
    have hpieces : ∀ x ∈ Splitter.pieces { current := w } s,
        x.1.isText = true ∧ x.1.isClosed = true := by
      intro x hx
      have hx : x ∈ Splitter.pieces {} s := Splitter.pieces_current {} w s ▸ hx
      exact ⟨htext x hx, hclosed x hx⟩
    have hjoin : (s :: ss).flatMap (· ++ ascii ";\n")
        = s ++ 59 :: 10 :: ss.flatMap (· ++ ascii ";\n") := by
      rw [List.flatMap_cons, List.append_assoc]
      rfl
    have hnewline : ∀ s, Bytes.trimSpace ([10] ++ s) = Bytes.trimSpace s := fun s =>
      Bytes.trimSpace_cons_ascii (b := 10) (by decide) (by decide) s
    rw [hjoin, Splitter.run_append rfl hpieces, run_newline, ih hnewline hrest]
    simp only [Splitter.statement]
    rw [htrim, hs, if_neg (by simpa using hne), List.singleton_append]

/-- Splitting undoes joining: statements that are their own split and close their quotes are the
statements of the script that writes each of them with a semicolon and a newline behind it. -/
theorem splitStatements_joined (ss : List Bytes)
    (hss : ∀ s ∈ ss, splitStatements s = [s] ∧ QuotesClosed s) :
    splitStatements (ss.flatMap (· ++ ascii ";\n")) = ss :=
  run_joined (fun _ => rfl) hss

/-- The joined statements hold semicolons in quotes, a word that would open a DELIMITER line in front
of a blank, and dashes that would open a comment in front of a blank. -/
theorem splitStatements_joined_quotes :
    (∀ s ∈ [ascii "SELECT 'a;''\\'', `;`", ascii "delimiter", ascii "SELECT 1 --1"],
      splitStatements s = [s] ∧ QuotesClosed s) ∧
    splitStatements (ascii "SELECT 'a;''\\'', `;`;\ndelimiter;\nSELECT 1 --1;\n")
      = [ascii "SELECT 'a;''\\'', `;`", ascii "delimiter", ascii "SELECT 1 --1"] := by
  have hsplit : ∀ s ∈ [ascii "SELECT 'a;''\\'', `;`", ascii "delimiter", ascii "SELECT 1 --1"],
      splitStatements s = [s] ∧ QuotesClosed s := by
    repeat rw [ascii_ofList]
    decide +kernel
  exact ⟨hsplit, splitStatements_joined _ hsplit⟩

end SqlDialect
