import SqlDialect.Proofs.Literal.RoundTrip
import SqlDialect.Proofs.Script.Split

set_option autoImplicit false

/-! # What is quoted in a script

A script is split by one reader of quotes, and the literals of its statements are taken out by another.
They agree on what is quoted (`marks_ofText`): single and double quotes close in the same place, and
where splitting reads a doubled backtick as part of a name, shielding closes the name there and opens
the next one at once, so that the same bytes are passed over. Names and literals that nothing closes run
to the end of the text for both. -/

namespace SqlDialect

/-! ## Where a quote closes -/

/-- The place of the byte that closes the quote at place `i`, or of the last byte if none does, as a
script is split. -/
def quotedEnd (sql : Bytes) (i : Nat) : Nat :=
  match sql.drop i with
  | q :: s => i + quotedLength q s
  | [] => i

/-- The place behind the literal that starts at place `i`, as literals are taken out. -/
def literalEnd (sql : Bytes) (i : Nat) : Nat :=
  match sql.drop i with
  | q :: s => i + (q :: (closeQuote q s).1).length
  | [] => i

theorem length_fst_closeQuote {q : UInt8} (hq : q ≠ backtick) (s : Bytes) :
    (closeQuote q s).1.length = quotedLength q s := by
  fun_induction closeQuote q s with
  | case1 => rfl
  | case2 b => rfl
  | case3 c s ih => simp [quotedLength, hq, ih]
  | case4 s hescape ih => simp [quotedLength, hescape, ih]
  | case5 c s hescape hc => simp [quotedLength, hescape, hc]
  | case6 b c s hescape hb ih => simp [quotedLength, hescape, hb, ih]

theorem snd_closeQuote {q : UInt8} (hq : q ≠ backtick) (s : Bytes) :
    (closeQuote q s).2 = s.drop (quotedLength q s) := by
  have hdrop := congrArg (List.drop (closeQuote q s).1.length) (closeQuote_append q s)
  rwa [List.drop_left, length_fst_closeQuote hq] at hdrop

/-- A literal ends behind the byte that closes its quote when the script is split. -/
theorem quotedEnd_add_one {sql : Bytes} {i : Nat} {q : UInt8} (hq : sql[i]? = some q)
    (hne : q ≠ backtick) : quotedEnd sql i + 1 = literalEnd sql i := by
  obtain ⟨hlt, rfl⟩ := List.getElem?_eq_some_iff.1 hq
  rw [quotedEnd, literalEnd, List.drop_eq_getElem_cons hlt]
  dsimp only
  rw [List.length_cons, length_fst_closeQuote hne]
  omega

/-! ## Byte by byte -/

/-- Tells for each byte of a script whether a reader from left to right that jumps over quoted text, as
splitting does, passes over it. -/
def quotedMarks : Bytes → List Bool
  | [] => []
  | b :: s =>
    if b = singleQuote ∨ b = doubleQuote ∨ b = backtick then
      List.replicate (quotedLength b s + 1) true ++ quotedMarks (s.drop (quotedLength b s))
    else false :: quotedMarks s
termination_by s => s.length
decreasing_by
  · rw [List.length_drop, List.length_cons]
    omega
  · exact Nat.lt_succ_self _

theorem length_quotedMarks (sql : Bytes) : (quotedMarks sql).length = sql.length := by
  fun_induction quotedMarks sql with
  | case1 => rfl
  | case2 b s hb ih =>
    have hle := quotedLength_le b s
    rw [List.length_append, List.length_replicate, ih, List.length_drop, List.length_cons]
    omega
  | case3 b s hb ih => rw [List.length_cons, List.length_cons, ih]

/-- Tells for each byte of a gap whether it belongs to a name in backticks; `inside` tells whether the
text starts inside such a name. -/
def nameMarks (inside : Bool) : Bytes → List Bool
  | [] => []
  | b :: s => if b = backtick then true :: nameMarks (!inside) s else inside :: nameMarks inside s

/-- The marks of a name up to its end; only an unclosed name has nothing behind it. -/
theorem nameMarks_throughByte {s g : Bytes} (hg : (throughByte backtick s).2 = [] → g = []) :
    nameMarks true ((throughByte backtick s).1 ++ g)
      = List.replicate (throughByte backtick s).1.length true ++ nameMarks false g := by
  induction s with
  | nil =>
    rw [hg rfl]
    rfl
  | cons b s ih =>
    by_cases hb : b = backtick
    · simp [throughByte, nameMarks, hb]
    · simp only [throughByte, if_neg hb, Prod.map_fst, Prod.map_snd, id_eq] at hg ⊢
      rw [List.cons_append, nameMarks, if_neg hb, ih hg]
      rfl

theorem quotedMarks_open {q : UInt8} (hq : q = singleQuote ∨ q = doubleQuote ∨ q = backtick) (s : Bytes) :
    quotedMarks (q :: s)
      = List.replicate (quotedLength q s + 1) true ++ quotedMarks (s.drop (quotedLength q s)) := by
  rw [quotedMarks, if_pos hq]

/-- Splitting passes over a name as shielding does. -/
theorem quotedMarks_backtick (s : Bytes) :
    quotedMarks (backtick :: s)
      = List.replicate ((throughByte backtick s).1.length + 1) true
        ++ quotedMarks (throughByte backtick s).2 := by
  have hopen := quotedMarks_open (q := backtick) (Or.inr (Or.inr rfl))
  rw [hopen]
  fun_induction quotedLength backtick s with
  | case1 => rfl
  | case2 b => by_cases hb : b = backtick <;> simp [throughByte, hb]
  | case3 b c s hescape => exact absurd rfl hescape.2
  | case4 s hescape =>
    -- a doubled backtick keeps the name open for the one, and starts a new name for the other
    rw [throughByte, if_pos rfl]
    dsimp only
    rw [hopen, ← List.append_assoc, List.replicate_append_replicate, List.drop_succ_cons,
      List.drop_succ_cons]
    congr 2
    rw [List.length_singleton]
    omega
  | case5 c s hescape hc => rw [throughByte, if_pos rfl]; rfl
  | case6 b c s hescape hb ih =>
    rw [throughByte, if_neg hb]
    exact congrArg (true :: ·) ih

namespace Shielding

/-- Tells for each byte of a statement whether shielding takes it for a part of a literal or of a name in
backticks. -/
def marks (r : Shielding) : List Bool :=
  nameMarks false r.head
    ++ r.tail.flatMap fun (l, gap) => List.replicate l.text.length true ++ nameMarks false gap

theorem marks_literal (l : Literal) (r : Shielding) :
    (r.literal l).marks = List.replicate l.text.length true ++ r.marks := by
  simp [marks, literal, nameMarks]

theorem marks_keep_byte {b : UInt8} (hb : b ≠ backtick) (r : Shielding) :
    (r.keep [b]).marks = false :: r.marks := by
  simp [marks, keep, nameMarks, hb]

theorem marks_keep_name {s : Bytes} {r : Shielding}
    (hr : (throughByte backtick s).2 = [] → r.head = []) :
    (r.keep (backtick :: (throughByte backtick s).1)).marks
      = List.replicate ((throughByte backtick s).1.length + 1) true ++ r.marks := by
  rw [marks, keep, List.cons_append, nameMarks, if_pos rfl, Bool.not_false, nameMarks_throughByte hr,
    ← List.cons_append, ← List.replicate_succ, List.append_assoc]
  rfl

/-- Shielding takes for quoted exactly what splitting passes over. -/
theorem marks_ofText (sql : Bytes) : (ofText sql).marks = quotedMarks sql := by
  fun_induction ofText sql with
  | case1 => rw [quotedMarks]; rfl
  | case2 b s hb ih =>
    have hne : b ≠ backtick := by rcases hb with rfl | rfl <;> decide
    rw [marks_literal, ih, quotedMarks, if_pos (hb.imp id Or.inl), List.length_cons,
      length_fst_closeQuote hne, snd_closeQuote hne]
  | case3 s hb ih =>
    rw [quotedMarks_backtick, ← ih]
    refine marks_keep_name fun hnil => ?_
    rw [hnil, ofText]
  | case4 b s hb hb' ih =>
    rw [marks_keep_byte hb', ih, quotedMarks, if_neg (by simpa [not_or, hb'] using hb)]

end Shielding

/-- The two readers of quotes agree: on the place where a single or double quote closes, and on the bytes
that are quoted. -/
theorem quotes_read_alike (sql : Bytes) :
    (∀ i q, sql[i]? = some q → q = singleQuote ∨ q = doubleQuote →
      quotedEnd sql i + 1 = literalEnd sql i) ∧
    (quotedMarks sql).length = sql.length ∧ (Shielding.ofText sql).marks = quotedMarks sql := by
  refine ⟨fun i q hget hq => quotedEnd_add_one hget ?_, length_quotedMarks sql,
    Shielding.marks_ofText sql⟩
  rcases hq with rfl | rfl <;> decide

/-- A doubled backtick, an escaped quote, and a literal that a backslash keeps open. -/
theorem quotes_read_alike_escapes :
    (ascii "`a``b` 'c\\'' \"d``e\\")[7]? = some singleQuote ∧
      quotedEnd (ascii "`a``b` 'c\\'' \"d``e\\") 7 + 1
        = literalEnd (ascii "`a``b` 'c\\'' \"d``e\\") 7 ∧
      (Shielding.ofText (ascii "`a``b` 'c\\'' \"d``e\\")).marks
        = quotedMarks (ascii "`a``b` 'c\\'' \"d``e\\") :=
  ⟨by decide, (quotes_read_alike _).1 7 singleQuote (by decide) (Or.inl rfl),
    (quotes_read_alike _).2.2⟩

end SqlDialect
