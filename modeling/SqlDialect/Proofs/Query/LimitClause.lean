import SqlDialect.Proofs.Pattern.Phrase
import SqlDialect.Query.Limit

set_option autoImplicit false

/-! # LIMIT with two operands

How `LIMIT offset, count` is written, as a structure whose parts are well-formed by themselves, and
that the pattern for it finds exactly such clauses, each as a whole. -/

namespace SqlDialect

open Bytes

/-! ## Operands -/

/-- The mark of a positional parameter, `?`. -/
def mark : UInt8 := 63

/-- An operand of LIMIT as it is written. -/
inductive IsOperand : Bytes → Prop where
  | number {ds : Bytes} (hne : ds ≠ []) (hds : ∀ x ∈ ds, isDigit x = true) : IsOperand ds
  | format {d : UInt8} (hd : lowerByte d = 100) : IsOperand [37, d]
  | mark : IsOperand [mark]

/-- A number that ends in front of the text `b` does not go on there. -/
def Stops (o b : Bytes) : Prop :=
  (∀ x ∈ o, isDigit x = true) → ∀ x, b.head? = some x → isDigit x = false

/-- The two forms of the letter of a format. -/
theorem eq_of_lowerByte_d {d : UInt8} (hd : lowerByte d = 100) : d = 68 ∨ d = 100 :=
  forall_lowerByte (P := fun d => d = 68 ∨ d = 100) (l := [100]) (by decide)
    (List.mem_singleton.2 hd)

theorem not_blank_of_isDigit {x : UInt8} (hx : isDigit x = true) :
    x < 128 ∧ CharSet.blank.contains x.toNat = false :=
  ⟨ascii_of_isDigit hx, not_blank_of_isWord (isWord_of_isDigit hx)⟩

theorem isDigit_of_blank {x : UInt8} (hx : CharSet.blank.contains x.toNat = true) :
    isDigit x = false := by
  rw [Bool.eq_false_iff]
  intro hdigit
  rw [(not_blank_of_isDigit hdigit).2] at hx
  exact Bool.false_ne_true hx

namespace IsOperand

variable {o : Bytes}

theorem ne_nil (h : IsOperand o) : o ≠ [] := by
  cases h with
  | number hne _ => exact hne
  | format _ => exact List.cons_ne_nil _ _
  | mark => exact List.cons_ne_nil _ _

theorem forall_mem (h : IsOperand o) :
    ∀ x ∈ o, x < 128 ∧ CharSet.blank.contains x.toNat = false := by
  intro x hx
  cases h with
  | number _ hds => exact not_blank_of_isDigit (hds x hx)
  | @format d hd =>
    rcases eq_of_lowerByte_d hd with rfl | rfl <;>
    · revert x
      decide
  | mark =>
    revert x
    decide

/-- An operand other than a mark holds none. -/
theorem eq_mark_or (h : IsOperand o) : o = [SqlDialect.mark] ∨ SqlDialect.mark ∉ o := by
  cases h with
  | number _ hds =>
    refine Or.inr fun hmem => ?_
    have hdigit := hds _ hmem
    revert hdigit
    decide
  | @format d hd =>
    right
    rcases eq_of_lowerByte_d hd with rfl | rfl <;> decide
  | mark => exact Or.inl rfl

end IsOperand

/-- A number goes on until it stops. -/
theorem exists_stopping {o : Bytes} (ho : IsOperand o) (b : Bytes) :
    ∃ o' b', o ++ b = o' ++ b' ∧ IsOperand o' ∧ Stops o' b' := by
  by_cases hdigits : ∀ x ∈ o, isDigit x = true
  · refine ⟨o ++ b.takeWhile isDigit, b.dropWhile isDigit, ?_, .number ?_ ?_, ?_⟩
    · rw [List.append_assoc, List.takeWhile_append_dropWhile]
    · exact List.append_ne_nil_of_left_ne_nil ho.ne_nil _
    · intro x hx
      rcases List.mem_append.1 hx with hx | hx
      · exact hdigits x hx
      · exact List.all_eq_true.1 List.all_takeWhile x hx
    · intro _ x hx
      have hnot := List.head?_dropWhile_not isDigit b
      rw [hx] at hnot
      simpa using hnot
  · exact ⟨o, b, rfl, ho, fun h => absurd h hdigits⟩

namespace Pattern

section

variable {α : Type} {c : Cursor} {k : Cursor → Option α} {r : α}

/-- A run of characters of an ASCII set in front of a byte that is none of them. -/
theorem run_many1_set {set : CharSet} (hset : AsciiSet set) {t s : Bytes} (hrest : c.rest = t ++ s)
    (hne : t ≠ []) (ht : ∀ x ∈ t, x < 128 ∧ set.contains x.toNat = true)
    (hs : ∀ x, s.head? = some x → set.contains x.toNat = false) (hk : k (c.past t s) = some r) :
    (many1 (one set)).run c k = some r := by
  obtain ⟨x, t, rfl⟩ := List.exists_cons_of_ne_nil hne
  obtain ⟨hx, ht⟩ := List.forall_mem_cons.1 ht
  have hstop : ∀ (d : Cursor) (k : Cursor → Option α), d.rest = s → (one set).run d k = none := by
    intro d k' hd
    refine run_eq_none fun d' hleads => ?_
    obtain ⟨y, -, hy, htakes, -⟩ := leads_one_ascii hset hleads
    have hhead : s.head? = some y := by rw [← hd, htakes.rest]; rfl
    rw [hs y hhead] at hy
    exact Bool.false_ne_true hy
  show (one set).run c (fun c' => (many (one set)).run c' k) = some r
  rw [run_one (s := t ++ s) (by rw [hrest]; rfl) hx.1, if_pos hx.2]
  refine run_many rfl (fun y hy d u k' r' hd hk' => ?_) hstop ?_
  · rw [run_one hd (ht y hy).1, if_pos (ht y hy).2]
    exact hk'
  · rw [Cursor.past_past]
    exact hk

/-- An operand is taken as a whole. -/
theorem run_operand {o s : Bytes} (ho : IsOperand o) (hrest : c.rest = o ++ s) (hstop : Stops o s)
    (hk : k (c.past o s) = some r) : limitOperand.run c k = some r := by
  have hdigits : ∀ {y : UInt8} {u : Bytes}, c.rest = y :: u → isDigit y = false →
      (many1 (one CharSet.digit)).run c k = none := by
    intro y u hy hdigit
    refine run_eq_none fun c' hleads => ?_
    obtain ⟨t, hne, ht, htakes⟩ := leads_many1_ascii (by decide) hleads
    obtain ⟨z, t, rfl⟩ := List.exists_cons_of_ne_nil hne
    have hz := ht z List.mem_cons_self
    rw [contains_digit, ← (List.cons.inj (hy.symm.trans htakes.rest)).1, hdigit] at hz
    exact Bool.false_ne_true hz
  cases ho with
  | number hne hds =>
    refine run_alt_of_some (run_many1_set (by decide) hrest hne ?_ ?_ hk)
    · intro x hx
      rw [contains_digit]
      exact ⟨(not_blank_of_isDigit (hds x hx)).1, hds x hx⟩
    · intro x hx
      rw [contains_digit]
      exact hstop hds x hx
  | @format d hd =>
    have hd' : d < 128 ∧ (CharSet.anyCase 'd').contains d.toNat = true := by
      rcases eq_of_lowerByte_d hd with rfl | rfl <;> decide
    refine (run_alt_of_none (hdigits hrest (by decide))).trans (run_alt_of_some ?_)
    show (seqs [one (CharSet.anyCase '%'), one (CharSet.anyCase 'd')]).run c k = some r
    rw [run_seqs_cons, run_one (s := d :: s) hrest (by decide), if_pos (by decide), run_seqs_cons,
      run_one (s := s) rfl hd'.1, if_pos hd'.2, run_seqs_nil, Cursor.past_past]
    exact hk
  | mark =>
    refine (run_alt_of_none (hdigits hrest (by decide))).trans ((run_alt_of_none ?_).trans ?_)
    · refine run_eq_none fun c' hleads => ?_
      obtain ⟨t, htakes, ht⟩ := leads_keyword_ascii (by decide) hleads
      cases t with
      | nil => simp [ascii] at ht
      | cons x t =>
        have hx : mark = x := (List.cons.inj (hrest.symm.trans htakes.rest)).1
        subst hx
        exact absurd (List.cons.inj ht).1 (by decide)
    · exact (run_text (s := "?") (by decide) hrest).trans hk

theorem exists_operand_of_leads {c' : Cursor} (h : Leads limitOperand c c') :
    ∃ o, IsOperand o ∧ c.Takes o c' := by
  rcases leads_alt.1 h with h | h
  · obtain ⟨t, hne, ht, htakes⟩ := leads_many1_ascii (by decide) h
    exact ⟨t, .number hne fun x hx => (contains_digit x).symm.trans (ht x hx), htakes⟩
  · rcases leads_alt.1 h with h | h
    · obtain ⟨t, htakes, ht⟩ := leads_keyword_ascii (by decide) h
      obtain ⟨x, u, rfl, hx, hu⟩ := List.map_eq_cons_iff.1 ht
      obtain ⟨d, v, rfl, hd, hv⟩ := List.map_eq_cons_iff.1 hu
      obtain rfl := List.map_eq_nil_iff.1 hv
      have hpercent : x = 37 := forall_lowerByte (P := fun x => lowerByte x = 37 → x = 37)
        (l := [lowerByte 37]) (by decide) (List.mem_singleton.2 hx) hx
      rw [hpercent] at htakes
      exact ⟨_, .format hd, htakes⟩
    · exact ⟨_, .mark, leads_text (by decide) h⟩

end

end Pattern

/-! ## The clause -/

/-- LIMIT with two operands as it is written. -/
structure CommaLimit where
  word : Bytes
  gap : Bytes
  first : Bytes
  left : Bytes
  right : Bytes
  second : Bytes
  word_eq : word.map lowerByte = (ascii "LIMIT").map lowerByte
  gap_ne : gap ≠ []
  gap_blank : AllBlank gap
  left_blank : AllBlank left
  right_blank : AllBlank right
  first_operand : IsOperand first
  second_operand : IsOperand second

namespace CommaLimit

variable (l : CommaLimit)

/-- What stands between the operands. -/
def sep : Bytes :=
  l.left ++ 44 :: l.right

/-- The clause. -/
def text : Bytes :=
  l.word ++ l.gap ++ l.first ++ l.sep ++ l.second

/-- The clause with OFFSET. -/
def withOffset : Bytes :=
  ascii "LIMIT " ++ l.second ++ ascii " OFFSET " ++ l.first

/-- The match that the clause is in front of the text `rest`. -/
def hit (rest : Bytes) : Match :=
  { before := [], text := l.text, after := rest, groups := [(2, l.second), (1, l.first)] }

theorem startsSolid_operand {o : Bytes} (ho : IsOperand o) (s : Bytes) :
    Pattern.StartsSolid (o ++ s) := by
  obtain ⟨x, o', rfl⟩ := List.exists_cons_of_ne_nil ho.ne_nil
  intro y hy
  obtain rfl : x = y := Option.some.inj hy
  exact ho.forall_mem x List.mem_cons_self

theorem stops_sep (o s : Bytes) : Stops o (l.sep ++ s) := by
  intro _ x hx
  rw [sep] at hx
  cases hleft : l.left with
  | nil =>
    rw [hleft] at hx
    obtain rfl : (44 : UInt8) = x := Option.some.inj hx
    decide
  | cons y u =>
    rw [hleft] at hx
    obtain rfl : y = x := Option.some.inj hx
    exact isDigit_of_blank (l.left_blank y (hleft ▸ List.mem_cons_self))

theorem isWord_word : IsWord l.word :=
  IsWord.of_map_lowerByte (s := ascii "LIMIT") (by decide) l.word_eq

section

variable (prev : Option UInt8) (rest : Bytes)

/-- The place where the clause starts, and the places behind its parts. -/
def start : Pattern.Cursor :=
  { prev, rest := l.text ++ rest }

def atFirst : Pattern.Cursor :=
  (l.start prev rest).past (l.word ++ l.gap) (l.first ++ (l.sep ++ (l.second ++ rest)))

def atSep : Pattern.Cursor :=
  ((l.atFirst prev rest).past l.first (l.sep ++ (l.second ++ rest))).record 1 (l.atFirst prev rest)

def atSecond : Pattern.Cursor :=
  (l.atSep prev rest).past l.sep (l.second ++ rest)

def atEnd : Pattern.Cursor :=
  ((l.atSecond prev rest).past l.second rest).record 2 (l.atSecond prev rest)

end

theorem run_text {prev : Option UInt8} (hprev : prev.any isWord = false) {rest : Bytes}
    (hstop : Stops l.second rest) :
    limitCommaPattern.run (l.start prev rest) some = some (l.atEnd prev rest) := by
  have hrest : (l.start prev rest).rest
      = l.word ++ (l.gap ++ (l.first ++ (l.sep ++ (l.second ++ rest)))) := by
    simp only [start, text, List.append_assoc]
  have hedge : (l.start prev rest).atWordEdge = true := by
    obtain ⟨x, w, hw⟩ := List.exists_cons_of_ne_nil l.isWord_word.1
    have hx := l.isWord_word.2 x (hw ▸ List.mem_cons_self)
    rw [Pattern.Cursor.atWordEdge, hrest, hw]
    simp [start, hprev, hx]
  rw [limitCommaPattern, Pattern.run_seqs_cons, Pattern.run, if_pos hedge, Pattern.run_seqs_cons,
    Pattern.run_keyword (by decide) hrest l.word_eq, Pattern.run_seqs_cons]
  refine Pattern.run_blanks1 rfl l.gap_ne l.gap_blank (startsSolid_operand l.first_operand _) ?_
  rw [Pattern.Cursor.past_past, Pattern.run_seqs_cons, Pattern.run_group]
  refine Pattern.run_operand l.first_operand rfl (l.stops_sep _ _) ?_
  rw [Pattern.run_seqs_cons]
  refine Pattern.run_blanks (s := 44 :: (l.right ++ (l.second ++ rest))) ?_ l.left_blank ?_ ?_
  · simp [sep, Pattern.Cursor.record, Pattern.Cursor.past]
  · intro x hx
    obtain rfl : (44 : UInt8) = x := Option.some.inj hx
    decide
  rw [Pattern.run_seqs_cons, Pattern.run_text (s := ",") (by decide) rfl, Pattern.run_seqs_cons]
  refine Pattern.run_blanks rfl l.right_blank (startsSolid_operand l.second_operand _) ?_
  rw [Pattern.Cursor.past_past, Pattern.Cursor.past_past, Pattern.run_seqs_cons, Pattern.run_group]
  exact Pattern.run_operand l.second_operand rfl hstop rfl

/-- The clause is found where it stands behind no word. -/
theorem matchHere?_text {prev : Option UInt8} (hprev : prev.any isWord = false) {rest : Bytes}
    (hstop : Stops l.second rest) :
    limitCommaPattern.matchHere? prev (l.text ++ rest) = some (l.hit rest) := by
  have hfirst : (l.start prev rest).Takes (l.word ++ l.gap) (l.atFirst prev rest) :=
    Pattern.Cursor.takes_past (by simp only [start, text, List.append_assoc])
  have hsep : (l.atFirst prev rest).Takes l.first (l.atSep prev rest) :=
    (Pattern.Cursor.takes_past rfl).record 1 _
  have hsecond : (l.start prev rest).Takes (l.word ++ l.gap ++ l.first ++ l.sep)
      (l.atSecond prev rest) :=
    (hfirst.trans hsep).trans (Pattern.Cursor.takes_past rfl)
  have hend : (l.atSecond prev rest).Takes l.second (l.atEnd prev rest) :=
    (Pattern.Cursor.takes_past rfl).record 2 _
  have htaken : (l.atEnd prev rest).taken = l.text.length :=
    (hsecond.trans hend).taken.trans (Nat.zero_add _)
  have hgroups : ((l.atEnd prev rest).groups.map fun g => (g.number, g.text (l.text ++ rest)))
      = [(2, l.second), (1, l.first)] :=
    congrArg₂ (fun a b => [(2, a), (1, b)]) (Pattern.text_recorded rfl hsecond hend 2)
      (Pattern.text_recorded rfl hfirst hsep 1)
  rw [Pattern.matchHere?]
  refine (congrArg (Option.map _) (l.run_text hprev hstop)).trans ?_
  rw [Option.map_some, htaken, hgroups, List.take_left']
  · rfl
  · rfl

/-- What is found is such a clause. -/
theorem exists_of_matchHere? {prev : Option UInt8} {t : Bytes} {m : Match}
    (h : limitCommaPattern.matchHere? prev t = some m) :
    prev.any isWord = false ∧ ∃ (l : CommaLimit) (rest : Bytes),
      t = l.text ++ rest ∧ Stops l.second rest ∧ m = l.hit rest := by
  obtain ⟨c', hleads, -⟩ := Pattern.leads_of_matchHere? h
  have hprev : prev.any isWord = false :=
    Pattern.startsOutside_keyword (s := "LIMIT") (by decide) (by decide) _ _ _ hleads
  obtain ⟨c₁, hedge, h₁⟩ := Pattern.leads_seqs_cons.1 hleads
  obtain ⟨rfl, -⟩ := Pattern.leads_wordEdge.1 hedge
  obtain ⟨c₂, hword, h₂⟩ := Pattern.leads_seqs_cons.1 h₁
  obtain ⟨word, hwordTakes, word_eq⟩ := Pattern.leads_keyword_ascii (by decide) hword
  obtain ⟨c₃, hgap, h₃⟩ := Pattern.leads_seqs_cons.1 h₂
  obtain ⟨gap, gap_ne, gap_blank, hgapTakes⟩ := Pattern.leads_blanks1 hgap
  obtain ⟨c₄, hgroup₁, h₄⟩ := Pattern.leads_seqs_cons.1 h₃
  obtain ⟨d₁, hfirst, rfl⟩ := Pattern.leads_group.1 hgroup₁
  obtain ⟨first, first_operand, hfirstTakes⟩ := Pattern.exists_operand_of_leads hfirst
  obtain ⟨c₅, hleft, h₅⟩ := Pattern.leads_seqs_cons.1 h₄
  obtain ⟨left, left_blank, hleftTakes⟩ := Pattern.leads_blanks hleft
  obtain ⟨c₆, hcomma, h₆⟩ := Pattern.leads_seqs_cons.1 h₅
  have hcommaTakes := Pattern.leads_text (by decide) hcomma
  obtain ⟨c₇, hright, h₇⟩ := Pattern.leads_seqs_cons.1 h₆
  obtain ⟨right, right_blank, hrightTakes⟩ := Pattern.leads_blanks hright
  obtain ⟨c₈, hgroup₂, -⟩ := Pattern.leads_seqs_cons.1 h₇
  obtain ⟨d₂, hsecond, rfl⟩ := Pattern.leads_group.1 hgroup₂
  obtain ⟨second, second_operand, hsecondTakes⟩ := Pattern.exists_operand_of_leads hsecond
  have htext : t = word ++ gap ++ first ++ (left ++ 44 :: right) ++ (second ++ d₂.rest) := by
    have hrest : d₁.rest = left ++ (44 :: (right ++ (second ++ d₂.rest))) := by
      have hleftRest := hleftTakes.rest
      rw [hcommaTakes.rest, hrightTakes.rest, hsecondTakes.rest] at hleftRest
      exact hleftRest
    have hstart : t = word ++ c₂.rest := hwordTakes.rest
    rw [hgapTakes.rest, hfirstTakes.rest, hrest] at hstart
    rw [hstart]
    simp only [List.append_assoc, List.cons_append]
  obtain ⟨second', rest, hsplit, hoperand, hstop⟩ :=
    exists_stopping second_operand d₂.rest
  let l : CommaLimit :=
    ⟨word, gap, first, left, right, second', word_eq, gap_ne, gap_blank, left_blank, right_blank,
      first_operand, hoperand⟩
  have ht : t = l.text ++ rest := by
    rw [htext, hsplit]
    simp only [text, sep, l, List.append_assoc]
  refine ⟨hprev, l, rest, ht, hstop, ?_⟩
  rw [ht, l.matchHere?_text hprev hstop] at h
  exact (Option.some.inj h).symm

theorem lowerByte_of_blank {x : UInt8} (hx : CharSet.blank.contains x.toNat = true) :
    lowerByte x ≠ 108 :=
  forall_blank (P := fun x => lowerByte x ≠ 108) (by decide) hx

/-- The clause starts with the letter `l`. -/
theorem exists_word : ∃ x w, l.word = x :: w ∧ x < 128 ∧ isWord x = true ∧ lowerByte x = 108 ∧
    ∀ y ∈ w, lowerByte y ≠ 108 := by
  obtain ⟨x, w, hword, hx, hw⟩ := List.map_eq_cons_iff.1 l.word_eq
  have hmem : x ∈ l.word := hword ▸ List.mem_cons_self
  refine ⟨x, w, hword, ascii_of_isWord (l.isWord_word.2 x hmem), l.isWord_word.2 x hmem, hx, ?_⟩
  intro y hy
  have hmem := List.mem_map_of_mem (f := lowerByte) hy
  rw [hw] at hmem
  intro hl
  rw [hl] at hmem
  exact absurd hmem (by decide)

theorem isWord_head (rest : Bytes) : (l.text ++ rest).head?.any isWord = true := by
  obtain ⟨x, w, hword, -, hx, -⟩ := l.exists_word
  rw [text, hword]
  exact hx

theorem getLast?_text : l.text.getLast? = l.second.getLast? :=
  Pattern.getLast?_append_of_ne_nil _ l.second_operand.ne_nil

end CommaLimit

theorem startsAscii_limitComma : limitCommaPattern.StartsAscii := by
  intro c c' h
  obtain ⟨c₁, hedge, h₁⟩ := Pattern.leads_seqs_cons.1 h
  obtain ⟨rfl, -⟩ := Pattern.leads_wordEdge.1 hedge
  obtain ⟨c₂, hword, -⟩ := Pattern.leads_seqs_cons.1 h₁
  exact Pattern.leads_keyword_head (by decide) hword

theorem consumes_limitComma : limitCommaPattern.Consumes :=
  Pattern.consumes_of_mem (p := .keyword "LIMIT") (List.mem_cons_of_mem _ List.mem_cons_self)
    (Pattern.consumes_keyword (by decide))

/-- No clause starts with another letter. -/
theorem noMatchIn_limitComma {a : Bytes} (ha : ∀ x ∈ a, lowerByte x ≠ 108)
    (prev : Option UInt8) (b : Bytes) : limitCommaPattern.NoMatchIn prev a b := by
  intro a₁ x a₂ hx
  rw [Option.eq_none_iff_forall_ne_some]
  intro m hm
  obtain ⟨-, l, rest, htext, -⟩ := CommaLimit.exists_of_matchHere? hm
  obtain ⟨y, w, hword, -, -, hy, -⟩ := l.exists_word
  rw [CommaLimit.text, hword] at htext
  refine ha x (hx ▸ List.mem_append_right a₁ List.mem_cons_self) ?_
  rw [(List.cons.inj htext).1, hy]

end SqlDialect
