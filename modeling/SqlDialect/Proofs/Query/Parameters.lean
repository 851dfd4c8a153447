import SqlDialect.Proofs.Query.LimitClause
import SqlDialect.Proofs.Text.Bytes

set_option autoImplicit false

/-! # Positional parameters and LIMIT

A `?` stands for a value that is bound later, the first mark for the first value and so on.
`LIMIT offset, count` is written with its operands exchanged, so the marks of its operands change
places while the values do not.

Binding values and writing LIMIT with OFFSET can be done in either order if and only if the marks of
each LIMIT with two operands stand for one natural number (`limitToOffset_fill_iff`). Numbers must
not run into the text beside their marks for this (`MarksApart`). -/

namespace SqlDialect

open Bytes

/-! ## Values and marks -/

/-- The sign of a negative number. -/
def minus : UInt8 := 45

/-- An integer in decimal. -/
def numeral : Int → Bytes
  | .ofNat n => decimal n
  | .negSucc n => minus :: decimal (n + 1)

/-- The text with the values in the places of its marks, in order; marks without a value stay. -/
def fill : List Int → Bytes → Bytes
  | _, [] => []
  | vs, b :: s =>
    if b = mark then (vs.head?.elim [mark] numeral) ++ fill vs.tail s else b :: fill vs s

theorem isDigit_or_minus_of_mem_numeral {v : Int} {b : UInt8} (hb : b ∈ numeral v) :
    isDigit b = true ∨ b = minus := by
  cases v with
  | ofNat n => exact Or.inl (isDigit_of_mem_decimal hb)
  | negSucc n =>
    rcases List.mem_cons.1 hb with rfl | hb
    · exact Or.inr rfl
    · exact Or.inl (isDigit_of_mem_decimal hb)

theorem numeral_ne_nil (v : Int) : numeral v ≠ [] := by
  cases v with
  | ofNat n => exact decimal_ne_nil n
  | negSucc n => exact List.cons_ne_nil _ _

theorem minus_notMem_decimal (n : Nat) : minus ∉ decimal n := by
  intro h
  have hdigit := isDigit_of_mem_decimal h
  revert hdigit
  decide

theorem decimal_inj {m n : Nat} (h : decimal m = decimal n) : m = n := by
  rw [← digitsValue_decimal m, h, digitsValue_decimal]

theorem numeral_inj {v w : Int} (h : numeral v = numeral w) : v = w := by
  cases v with
  | ofNat m =>
    cases w with
    | ofNat n => rw [decimal_inj h]
    | negSucc n =>
      have hmem : minus ∈ decimal m := Eq.subst (motive := (minus ∈ ·)) h.symm List.mem_cons_self
      exact absurd hmem (minus_notMem_decimal m)
  | negSucc m =>
    cases w with
    | ofNat n =>
      have hmem : minus ∈ decimal n := Eq.subst (motive := (minus ∈ ·)) h List.mem_cons_self
      exact absurd hmem (minus_notMem_decimal n)
    | negSucc n => rw [Nat.succ.inj (decimal_inj (List.cons.inj h).2)]

section

variable {vs : List Int} {a b s t : Bytes}

theorem fill_cons_of_ne {x : UInt8} (hx : x ≠ mark) : fill vs (x :: s) = x :: fill vs s := by
  rw [fill, if_neg hx]

theorem fill_cons_mark (v : Int) : fill (v :: vs) (mark :: s) = numeral v ++ fill vs s :=
  rfl

theorem fill_mark (v : Int) : fill (v :: vs) [mark] = numeral v :=
  List.append_nil _

theorem fill_append (vs : List Int) (a b : Bytes) :
    fill vs (a ++ b) = fill vs a ++ fill (vs.drop (a.count mark)) b := by
  induction a generalizing vs with
  | nil => rfl
  | cons x a ih =>
    rw [List.cons_append]
    by_cases hx : x = mark
    · subst hx
      simp only [fill, if_true, ih, List.append_assoc, List.count_cons_self, List.drop_tail]
    · rw [fill_cons_of_ne hx, fill_cons_of_ne hx, ih, List.count_cons_of_ne hx, List.cons_append]

/-- A text without marks has no places for values. -/
theorem fill_of_notMem (h : mark ∉ s) : fill vs s = s := by
  induction s with
  | nil => rfl
  | cons x s ih =>
    rw [List.mem_cons, not_or] at h
    rw [fill_cons_of_ne (Ne.symm h.1), ih h.2]

theorem fill_append_of_notMem (h : mark ∉ a) : fill vs (a ++ b) = a ++ fill vs b := by
  rw [fill_append, fill_of_notMem h, List.count_eq_zero_of_not_mem h, List.drop_zero]

/-- A stretch of the filled text that holds no part of a value stands there unfilled as well. -/
theorem exists_of_fill_eq_append (hlen : t.count mark ≤ vs.length)
    (ha : ∀ x ∈ a, isDigit x = false ∧ x ≠ minus) (h : fill vs t = a ++ b) :
    ∃ t', t = a ++ t' ∧ mark ∉ a ∧ fill vs t' = b := by
  induction a generalizing t with
  | nil => exact ⟨t, rfl, List.not_mem_nil, h⟩
  | cons x a ih =>
    obtain ⟨hx, ha⟩ := List.forall_mem_cons.1 ha
    cases t with
    | nil => simp [fill] at h
    | cons y t =>
      by_cases hy : y = mark
      · subst hy
        cases vs with
        | nil => simp at hlen
        | cons v vs =>
          -- the value would start the stretch
          obtain ⟨z, u, hz⟩ := List.exists_cons_of_ne_nil (numeral_ne_nil v)
          rw [fill_cons_mark, hz, List.cons_append, List.cons_append, List.cons.injEq] at h
          rcases isDigit_or_minus_of_mem_numeral (hz ▸ List.mem_cons_self : z ∈ numeral v) with
            hdigit | hminus
          · rw [h.1, hx.1] at hdigit
            exact absurd hdigit Bool.false_ne_true
          · exact absurd (h.1.symm.trans hminus) hx.2
      · rw [fill_cons_of_ne hy, List.cons_append, List.cons.injEq] at h
        rw [List.count_cons_of_ne hy] at hlen
        obtain ⟨t', rfl, hmark, hfill⟩ := ih hlen ha h.2
        refine ⟨t', by rw [h.1, List.cons_append], ?_, hfill⟩
        rw [List.mem_cons, not_or]
        exact ⟨fun hxm => hy (h.1.trans hxm.symm), hmark⟩

end

/-- Two bytes can stand beside each other whatever value is bound, if one of them is a mark: no
number runs into another one or into a word behind it. -/
def Apart (x y : UInt8) : Prop :=
  (x = mark → y ≠ mark ∧ isWord y = false) ∧ (y = mark → isDigit x = false)

instance (x y : UInt8) : Decidable (Apart x y) :=
  inferInstanceAs (Decidable (_ ∧ _))

/-- No value that is bound to a mark of the text runs into what stands beside it. -/
def MarksApart (s : Bytes) : Prop :=
  s.IsChain Apart

instance (s : Bytes) : Decidable (MarksApart s) :=
  inferInstanceAs (Decidable (s.IsChain Apart))

theorem MarksApart.right {a b : Bytes} (h : MarksApart (a ++ b)) : MarksApart b :=
  (List.isChain_append.1 h).2.1

/-- What stands behind a mark. -/
theorem MarksApart.behind_mark {s : Bytes} (h : MarksApart (mark :: s)) {x : UInt8}
    (hx : s.head? = some x) : x ≠ mark ∧ isWord x = false := by
  obtain ⟨s, rfl⟩ := List.head?_eq_some_iff.1 hx
  exact (List.isChain_cons_cons.1 h).1.1 rfl

/-! ## LIMIT in a filled text -/

/-- A value is an operand of LIMIT if it is not negative. -/
theorem IsOperand.numeral_iff {v : Int} : IsOperand (numeral v) ↔ 0 ≤ v := by
  cases v with
  | ofNat n =>
    exact ⟨fun _ => Int.natCast_nonneg n,
      fun _ => .number (decimal_ne_nil n) fun x hx => isDigit_of_mem_decimal hx⟩
  | negSucc n =>
    refine ⟨fun h => ?_, fun h => absurd h (Int.not_le.2 (Int.negSucc_lt_zero n))⟩
    rw [numeral] at h
    cases h with
    | number _ hds => exact absurd (hds minus List.mem_cons_self) (by decide)

theorem head?_fill {vs : List Int} {s : Bytes} (h : s.head? ≠ some mark) :
    (fill vs s).head? = s.head? := by
  cases s with
  | nil => rfl
  | cons x s =>
    have hx : x ≠ mark := by
      rintro rfl
      exact h rfl
    rw [fill_cons_of_ne hx]
    rfl

/-- A value does not run into the filled text behind its mark. -/
theorem MarksApart.fill_behind_mark {s : Bytes} (h : MarksApart (mark :: s)) (vs : List Int) :
    ∀ x, (fill vs s).head? = some x → isDigit x = false := by
  intro x hx
  have hhead : s.head? ≠ some mark := fun hmark => (h.behind_mark hmark).1 rfl
  rw [head?_fill hhead] at hx
  exact isDigit_of_not_isWord (h.behind_mark hx).2

/-- No mark stands directly behind a number. -/
theorem MarksApart.head?_behind_number {ds s : Bytes} (h : MarksApart (ds ++ s)) (hne : ds ≠ [])
    (hds : ∀ x ∈ ds, isDigit x = true) : s.head? ≠ some mark := by
  intro hmark
  have hlast := List.getLast?_eq_some_getLast hne
  have hdigit := ((List.isChain_append.1 h).2.2 _ hlast _ hmark).2 rfl
  rw [hds _ (List.getLast_mem hne)] at hdigit
  exact absurd hdigit (by decide)

/-- A filled text does not go on as a number where the text does not. -/
theorem Stops.fill {o s : Bytes} (h : Stops o s) (ho : IsOperand o) (hapart : MarksApart (o ++ s))
    (vs vs' : List Int) : Stops (fill vs o) (fill vs' s) := by
  rcases ho.eq_mark_or with rfl | hmark
  · exact fun _ => hapart.fill_behind_mark vs'
  · rw [fill_of_notMem hmark]
    intro hdigits x hx
    rw [head?_fill (hapart.head?_behind_number ho.ne_nil hdigits)] at hx
    exact h hdigits x hx

/-- Two runs of bytes in front of texts that do not go on with them. -/
theorem run_append_inj {q : UInt8 → Bool} {d d' b b' : Bytes} (hd : ∀ x ∈ d, q x = true)
    (hd' : ∀ x ∈ d', q x = true) (hb : ∀ x, b.head? = some x → q x = false)
    (hb' : ∀ x, b'.head? = some x → q x = false) (h : d ++ b = d' ++ b') : d = d' ∧ b = b' := by
  have hrun : ∀ {d b : Bytes}, (∀ x ∈ d, q x = true) → (∀ x, b.head? = some x → q x = false) →
      (d ++ b).takeWhile q = d := by
    intro d b hd hb
    rw [List.takeWhile_append_of_pos hd]
    cases b with
    | nil => simp
    | cons x b => simp [hb x rfl]
  have heq : d = d' := by rw [← hrun hd hb, h, hrun hd' hb']
  subst heq
  exact ⟨rfl, List.append_cancel_left h⟩

/-- An operand in a filled text is an operand of the text, filled. -/
theorem exists_operand_of_fill {vs : List Int} {t o b : Bytes} (hapart : MarksApart t)
    (hlen : t.count mark ≤ vs.length) (ho : IsOperand o) (hstop : Stops o b)
    (h : fill vs t = o ++ b) :
    ∃ o₀ t', IsOperand o₀ ∧ t = o₀ ++ t' ∧ Stops o₀ t' ∧ fill vs o₀ = o ∧
      fill (vs.drop (o₀.count mark)) t' = b := by
  cases ho with
  | mark =>
    obtain ⟨_, -, hmark, -⟩ := exists_of_fill_eq_append hlen (by decide) h
    exact absurd List.mem_cons_self hmark
  | @format d hd =>
    have hbytes : ∀ x ∈ [37, d], isDigit x = false ∧ x ≠ minus := by
      rcases eq_of_lowerByte_d hd with rfl | rfl <;> decide
    obtain ⟨t', rfl, hmark, hfill⟩ := exists_of_fill_eq_append hlen hbytes h
    refine ⟨[37, d], t', .format hd, rfl, ?_, fill_of_notMem hmark, ?_⟩
    · intro hdigits
      exact absurd (hdigits 37 List.mem_cons_self) (by decide)
    · rwa [List.count_eq_zero_of_not_mem hmark, List.drop_zero]
  | number hne hds =>
    have hb := hstop hds
    cases t with
    | nil => exact absurd (List.append_eq_nil_iff.1 h.symm).1 hne
    | cons y t =>
      by_cases hy : y = mark
      · subst hy
        cases vs with
        | nil => simp at hlen
        | cons v vs =>
          rw [fill_cons_mark] at h
          have hv : ∀ x ∈ numeral v, isDigit x = true := by
            cases v with
            | ofNat n => exact fun x hx => isDigit_of_mem_decimal hx
            | negSucc n =>
              -- the number starts with a digit, a negative value does not
              obtain ⟨z, ds', rfl⟩ := List.exists_cons_of_ne_nil hne
              obtain ⟨rfl, -⟩ := List.cons.inj h
              exact absurd (hds minus List.mem_cons_self) (by decide)
          obtain ⟨hvalue, hrest⟩ :=
            run_append_inj hv hds (hapart.fill_behind_mark vs) hb h
          refine ⟨[mark], t, .mark, rfl, ?_, ?_, hrest⟩
          · intro hdigits
            exact absurd (hdigits mark List.mem_cons_self) (by decide)
          · rw [fill_cons_mark, fill, List.append_nil, hvalue]
      · have hdigit : isDigit y = true := by
          obtain ⟨z, ds', rfl⟩ := List.exists_cons_of_ne_nil hne
          rw [fill_cons_of_ne hy] at h
          rw [(List.cons.inj h).1]
          exact hds z List.mem_cons_self
        obtain ⟨ds₀, t', hsplit, hne₀, hds₀, ht'⟩ : ∃ ds₀ t', y :: t = ds₀ ++ t' ∧ ds₀ ≠ [] ∧
            (∀ x ∈ ds₀, isDigit x = true) ∧ ∀ x, t'.head? = some x → isDigit x = false := by
          refine ⟨(y :: t).takeWhile isDigit, (y :: t).dropWhile isDigit,
            List.takeWhile_append_dropWhile.symm, ?_, List.all_eq_true.1 List.all_takeWhile, ?_⟩
          · rw [List.takeWhile_cons_of_pos hdigit]
            exact List.cons_ne_nil _ _
          · intro x hx
            have hnot := List.head?_dropWhile_not isDigit (y :: t)
            rw [hx] at hnot
            simpa using hnot
        have hoperand : IsOperand ds₀ := .number hne₀ hds₀
        have hmark : mark ∉ ds₀ := by
          intro hmem
          exact absurd (hds₀ mark hmem) (by decide)
        rw [hsplit] at h hapart
        have hstop₀ : Stops ds₀ t' := fun _ => ht'
        have hends := hstop₀.fill hoperand hapart vs vs
        rw [fill_of_notMem hmark] at hends
        rw [fill_append_of_notMem hmark] at h
        obtain ⟨rfl, hrest⟩ := run_append_inj hds₀ hds (hends hds₀) hb h
        refine ⟨ds₀, t', hoperand, hsplit, hstop₀, fill_of_notMem hmark, ?_⟩
        rwa [List.count_eq_zero_of_not_mem hmark, List.drop_zero]

/-! ### Exchanged operands -/

/-- The values are one natural number, if there are any. -/
def Interchangeable (values : List Int) : Prop :=
  ∃ n : Nat, ∀ v ∈ values, v = n

theorem interchangeable_nil : Interchangeable [] :=
  ⟨0, by simp⟩

theorem interchangeable_singleton {v : Int} : Interchangeable [v] ↔ IsOperand (numeral v) := by
  rw [IsOperand.numeral_iff]
  constructor
  · rintro ⟨n, hn⟩
    rw [hn v List.mem_cons_self]
    exact Int.natCast_nonneg n
  · intro hv
    exact ⟨v.toNat, List.forall_mem_singleton.2 (Int.toNat_of_nonneg hv).symm⟩

theorem interchangeable_pair {v w : Int} :
    Interchangeable [v, w] ↔ IsOperand (numeral v) ∧ v = w := by
  rw [← interchangeable_singleton]
  constructor
  · rintro ⟨n, hn⟩
    have hv := hn v List.mem_cons_self
    have hw := hn w (List.mem_cons_of_mem v List.mem_cons_self)
    exact ⟨⟨n, List.forall_mem_singleton.2 hv⟩, hv.trans hw.symm⟩
  · rintro ⟨⟨n, hn⟩, rfl⟩
    have hv := hn v List.mem_cons_self
    exact ⟨n, List.forall_mem_cons.2 ⟨hv, List.forall_mem_singleton.2 hv⟩⟩

namespace CommaLimit

variable (l : CommaLimit) (vs : List Int)

/-- The operands in the filled clause. -/
def firstIn : Bytes :=
  fill vs l.first

def secondIn : Bytes :=
  fill (vs.drop (l.first.count mark)) l.second

/-- The filled clause has operands that LIMIT can have. -/
def Fits : Prop :=
  IsOperand (l.firstIn vs) ∧ IsOperand (l.secondIn vs)

/-- The filled clause. -/
def filled (h : l.Fits vs) : CommaLimit :=
  { l with
    first := l.firstIn vs
    second := l.secondIn vs
    first_operand := h.1
    second_operand := h.2 }

theorem mark_notMem_of_blank {b : Bytes} (hb : AllBlank b) : mark ∉ b := by
  intro h
  exact absurd (hb mark h) (by decide)

theorem mark_notMem_word : mark ∉ l.word := by
  intro h
  exact absurd (l.isWord_word.2 mark h) (by decide)

theorem mark_notMem_sep : mark ∉ l.sep := by
  rw [sep, List.mem_append, List.mem_cons, not_or, not_or]
  exact ⟨mark_notMem_of_blank l.left_blank, by decide, mark_notMem_of_blank l.right_blank⟩

theorem count_text : l.text.count mark = l.first.count mark + l.second.count mark := by
  simp only [text, List.count_append, List.count_eq_zero_of_not_mem l.mark_notMem_word,
    List.count_eq_zero_of_not_mem (mark_notMem_of_blank l.gap_blank),
    List.count_eq_zero_of_not_mem l.mark_notMem_sep]
  omega

theorem fill_text : fill vs l.text = l.word ++ l.gap ++ l.firstIn vs ++ l.sep ++ l.secondIn vs := by
  have hword := l.mark_notMem_word
  have hgap := mark_notMem_of_blank l.gap_blank
  have hsep := l.mark_notMem_sep
  simp only [text, List.append_assoc]
  rw [fill_append_of_notMem hword, fill_append_of_notMem hgap, fill_append,
    fill_append_of_notMem hsep]
  rfl

theorem fill_withOffset :
    fill vs l.withOffset = ascii "LIMIT " ++ fill vs l.second ++ ascii " OFFSET " ++
      fill (vs.drop (l.second.count mark)) l.first := by
  simp only [withOffset, List.append_assoc]
  rw [fill_append_of_notMem (by decide), fill_append, fill_append_of_notMem (by decide)]

/-- Where the clause is found in the text, it is found in the filled text, if it fits. -/
theorem matchHere?_fill {rest : Bytes} {prev : Option UInt8} (hprev : prev.any isWord = false)
    (hapart : MarksApart (l.text ++ rest)) (hstop : Stops l.second rest) (h : l.Fits vs) :
    limitCommaPattern.matchHere? prev (fill vs (l.text ++ rest))
      = some ((l.filled vs h).hit (fill (vs.drop (l.text.count mark)) rest)) := by
  have htext : fill vs (l.text ++ rest)
      = (l.filled vs h).text ++ fill (vs.drop (l.text.count mark)) rest := by
    rw [fill_append, fill_text]
    rfl
  rw [htext]
  refine matchHere?_text _ hprev (hstop.fill l.second_operand ?_ _ _)
  rw [text, List.append_assoc] at hapart
  exact hapart.right

theorem word_bytes : ∀ x ∈ l.word, isDigit x = false ∧ x ≠ minus := by
  intro x hx
  have hmem : lowerByte x ∈ (ascii "LIMIT").map lowerByte :=
    l.word_eq ▸ List.mem_map_of_mem hx
  exact forall_lowerByte (P := fun x => isDigit x = false ∧ x ≠ minus) (by decide) hmem

theorem blank_bytes {b : Bytes} (hb : AllBlank b) : ∀ x ∈ b, isDigit x = false ∧ x ≠ minus := by
  intro x hx
  refine ⟨isDigit_of_blank (hb x hx), ?_⟩
  rintro rfl
  exact absurd (hb minus hx) (by decide)

/-- What is found in the filled text is a clause of the text, filled. -/
theorem exists_of_matchHere?_fill {vs : List Int} {t : Bytes} {prev : Option UInt8} {m : Match}
    (hapart : MarksApart t) (hlen : t.count mark ≤ vs.length)
    (h : limitCommaPattern.matchHere? prev (fill vs t) = some m) :
    prev.any isWord = false ∧ ∃ (l : CommaLimit) (rest : Bytes),
      t = l.text ++ rest ∧ Stops l.second rest ∧ l.Fits vs := by
  obtain ⟨hprev, l', rest', htext, hstop, -⟩ := exists_of_matchHere? h
  refine ⟨hprev, ?_⟩
  have hlead : ∀ x ∈ l'.word ++ l'.gap, isDigit x = false ∧ x ≠ minus := by
    rw [List.forall_mem_append]
    exact ⟨l'.word_bytes, blank_bytes l'.gap_blank⟩
  have hsep : ∀ x ∈ l'.sep, isDigit x = false ∧ x ≠ minus := by
    rw [sep, List.forall_mem_append, List.forall_mem_cons]
    exact ⟨blank_bytes l'.left_blank, by decide, blank_bytes l'.right_blank⟩
  have hparts : fill vs t
      = l'.word ++ l'.gap ++ (l'.first ++ (l'.sep ++ (l'.second ++ rest'))) := by
    rw [htext]
    simp only [text, List.append_assoc]
  obtain ⟨t₁, rfl, hmark₁, h₁⟩ := exists_of_fill_eq_append hlen hlead hparts
  rw [List.count_append, List.count_eq_zero_of_not_mem hmark₁, Nat.zero_add] at hlen
  obtain ⟨first, t₂, hfirst, rfl, -, hfirstIn, h₂⟩ :=
    exists_operand_of_fill hapart.right hlen l'.first_operand (l'.stops_sep _ _) h₁
  rw [List.count_append] at hlen
  have hlen₂ : t₂.count mark ≤ (vs.drop (first.count mark)).length := by
    rw [List.length_drop]
    omega
  obtain ⟨t₃, rfl, hmark₃, h₃⟩ := exists_of_fill_eq_append hlen₂ hsep h₂
  rw [List.count_append, List.count_eq_zero_of_not_mem hmark₃, Nat.zero_add] at hlen₂
  obtain ⟨second, rest, hsecond, rfl, hstop₃, hsecondIn, -⟩ :=
    exists_operand_of_fill hapart.right.right.right hlen₂ l'.second_operand hstop h₃
  refine ⟨{ l' with first, second, first_operand := hfirst, second_operand := hsecond }, rest,
    ?_, hstop₃, ?_, ?_⟩
  · simp only [text, sep, List.append_assoc]
  · rw [firstIn, hfirstIn]
    exact l'.first_operand
  · rw [secondIn, hsecondIn]
    exact l'.second_operand

/-- Two clauses in one place are the same. -/
theorem fits_of_append_eq {l₁ l₂ : CommaLimit} {rest₁ rest₂ : Bytes} (h₁ : Stops l₁.second rest₁)
    (h₂ : Stops l₂.second rest₂) (h : l₁.text ++ rest₁ = l₂.text ++ rest₂) {vs : List Int}
    (hfits : l₁.Fits vs) : l₂.Fits vs := by
  have hhit : limitCommaPattern.matchHere? none (l₁.text ++ rest₁) = some (l₁.hit rest₁) :=
    l₁.matchHere?_text rfl h₁
  rw [h, l₂.matchHere?_text rfl h₂, Option.some.injEq] at hhit
  have hgroups := congrArg Match.groups hhit
  simp only [hit, List.cons.injEq, Prod.mk.injEq, true_and, and_true] at hgroups
  rwa [Fits, firstIn, secondIn, hgroups.1, hgroups.2]

/-- The operands can be exchanged in the filled clause if and only if the values of their marks
can. -/
theorem interchangeable_iff {vs : List Int} (hlen : l.text.count mark ≤ vs.length) :
    Interchangeable (vs.take (l.text.count mark)) ↔
      l.Fits vs ∧ l.secondIn vs = fill vs l.second := by
  rw [l.count_text] at hlen ⊢
  rw [Fits, firstIn, secondIn]
  rcases l.first_operand.eq_mark_or with hfirst | hfirst <;>
    rcases l.second_operand.eq_mark_or with hsecond | hsecond
  · rw [hfirst, hsecond, List.count_singleton_self] at hlen ⊢
    obtain ⟨v, w, vs, rfl⟩ : ∃ v w vs', vs = v :: w :: vs' := by
      match vs, hlen with
      | v :: w :: vs', _ => exact ⟨v, w, vs', rfl⟩
    rw [List.drop_succ_cons, List.drop_zero, fill_mark, fill_mark]
    refine interchangeable_pair.trans ⟨?_, fun h => ⟨h.1.1, (numeral_inj h.2).symm⟩⟩
    rintro ⟨hv, rfl⟩
    exact ⟨⟨hv, hv⟩, rfl⟩
  · rw [hfirst, List.count_singleton_self, List.count_eq_zero_of_not_mem hsecond] at hlen ⊢
    obtain ⟨v, vs, rfl⟩ := List.exists_cons_of_length_pos hlen
    rw [fill_mark, fill_of_notMem hsecond, fill_of_notMem hsecond]
    exact interchangeable_singleton.trans
      ⟨fun hv => ⟨⟨hv, l.second_operand⟩, rfl⟩, fun h => h.1.1⟩
  · rw [hsecond, List.count_singleton_self, List.count_eq_zero_of_not_mem hfirst] at hlen ⊢
    obtain ⟨v, vs, rfl⟩ := List.exists_cons_of_length_pos hlen
    rw [List.drop_zero, fill_mark, fill_of_notMem hfirst]
    exact interchangeable_singleton.trans
      ⟨fun hv => ⟨⟨l.first_operand, hv⟩, rfl⟩, fun h => h.1.2⟩
  · rw [List.count_eq_zero_of_not_mem hfirst, List.count_eq_zero_of_not_mem hsecond,
      List.drop_zero, fill_of_notMem hfirst, fill_of_notMem hsecond]
    exact iff_of_true interchangeable_nil ⟨⟨l.first_operand, l.second_operand⟩, rfl⟩

/-- If the second operand keeps its value, so does the first. -/
theorem fill_first_eq {vs : List Int} (h : l.secondIn vs = fill vs l.second) :
    fill (vs.drop (l.second.count mark)) l.first = l.firstIn vs := by
  rw [secondIn] at h
  rw [firstIn]
  rcases l.second_operand.eq_mark_or with hsecond | hsecond
  · rcases l.first_operand.eq_mark_or with hfirst | hfirst
    · rw [hfirst, hsecond, List.count_singleton_self] at h ⊢
      exact h
    · rw [fill_of_notMem hfirst, fill_of_notMem hfirst]
  · rw [List.count_eq_zero_of_not_mem hsecond, List.drop_zero]

/-- Whether the byte ends an operand. -/
def endsOperand (x : UInt8) : Bool :=
  CharSet.blank.contains x.toNat || x == 44

theorem endsOperand_of_blank {x : UInt8} (hx : CharSet.blank.contains x.toNat = true) :
    endsOperand x = true := by
  rw [endsOperand, hx, Bool.true_or]

/-- A filled operand holds no byte that ends an operand and no letter that starts a clause. -/
theorem fill_bytes {o : Bytes} (ho : IsOperand o) (vs : List Int) :
    ∀ x ∈ fill vs o, endsOperand x = false ∧ lowerByte x ≠ 108 := by
  have hvalue : ∀ x, isDigit x = true ∨ x = minus → endsOperand x = false ∧ lowerByte x ≠ 108 := by
    rintro x (hx | rfl)
    · exact forall_isDigit (P := fun x => endsOperand x = false ∧ lowerByte x ≠ 108) (by decide) hx
    · decide
  cases ho with
  | number _ hds =>
    have hmark : mark ∉ o := fun hmem => absurd (hds mark hmem) (by decide)
    rw [fill_of_notMem hmark]
    exact fun x hx => hvalue x (Or.inl (hds x hx))
  | @format d hd =>
    rcases eq_of_lowerByte_d hd with rfl | rfl <;>
    · rw [fill_of_notMem (by decide)]
      decide
  | mark =>
    cases vs with
    | nil => decide
    | cons v vs =>
      rw [fill_mark]
      exact fun x hx => hvalue x (isDigit_or_minus_of_mem_numeral hx)

theorem fill_ne_nil {o : Bytes} (ho : IsOperand o) (vs : List Int) : fill vs o ≠ [] := by
  rcases ho.eq_mark_or with rfl | hmark
  · cases vs with
    | nil => exact List.cons_ne_nil _ _
    | cons v vs => exact (fill_mark v : fill (v :: vs) [mark] = numeral v) ▸ numeral_ne_nil v
  · rw [fill_of_notMem hmark]
    exact ho.ne_nil

/-- The filled clause with OFFSET is the clause with OFFSET, filled, if and only if the values can
be exchanged. -/
theorem withOffset_filled_iff {vs : List Int} (hfits : l.Fits vs)
    (hlen : l.text.count mark ≤ vs.length) {x y : Bytes} :
    (l.filled vs hfits).withOffset ++ x = fill vs l.withOffset ++ y ↔
      Interchangeable (vs.take (l.text.count mark)) ∧ x = y := by
  rw [l.interchangeable_iff hlen, and_iff_right hfits, fill_withOffset]
  have hleft : (l.filled vs hfits).withOffset ++ x
      = ascii "LIMIT " ++ (l.secondIn vs ++ 32 :: (ascii "OFFSET " ++ (l.firstIn vs ++ x))) := by
    simp only [withOffset, filled, List.append_assoc]
    rfl
  have hright : ascii "LIMIT " ++ fill vs l.second ++ ascii " OFFSET " ++
        fill (vs.drop (l.second.count mark)) l.first ++ y
      = ascii "LIMIT " ++ (fill vs l.second ++
          32 :: (ascii "OFFSET " ++ (fill (vs.drop (l.second.count mark)) l.first ++ y))) := by
    simp only [List.append_assoc]
    rfl
  rw [hleft, hright, List.append_cancel_left_eq]
  constructor
  · intro h
    have hsecond : l.secondIn vs = fill vs l.second ∧ _ :=
      run_append_inj (q := fun x => !endsOperand x)
        (fun x hx => by rw [(fill_bytes l.second_operand _ x hx).1]; rfl)
        (fun x hx => by rw [(fill_bytes l.second_operand _ x hx).1]; rfl)
        (by simp [endsOperand, CharSet.blank, CharSet.contains])
        (by simp [endsOperand, CharSet.blank, CharSet.contains]) h
    obtain ⟨hsecond, hrest⟩ := hsecond
    rw [List.cons.injEq, List.append_cancel_left_eq, l.fill_first_eq hsecond,
      List.append_cancel_left_eq] at hrest
    exact ⟨hsecond, hrest.2⟩
  · rintro ⟨hsecond, rfl⟩
    rw [l.fill_first_eq hsecond, hsecond]

/-- The filled clause up to its comma. -/
def leadIn (vs : List Int) : Bytes :=
  l.word ++ l.gap ++ l.firstIn vs ++ l.left ++ [44]

/-- With a comma the filled clause is never the clause with OFFSET, filled. -/
theorem leadIn_ne {vs : List Int} (x y : Bytes) :
    l.leadIn vs ++ x ≠ fill vs l.withOffset ++ y := by
  intro h
  have hparts : l.word ++ (l.gap ++ (l.firstIn vs ++ (l.left ++ 44 :: x)))
      = ascii "LIMIT" ++ ([32] ++ (fill vs l.second ++ 32 :: 79 :: (ascii "FFSET " ++
          (fill (vs.drop (l.second.count mark)) l.first ++ y)))) := by
    rw [fill_withOffset] at h
    simp only [leadIn, List.append_assoc] at h
    exact h
  have hlen : l.word.length = (ascii "LIMIT").length := by
    rw [← List.length_map (f := lowerByte), l.word_eq, List.length_map]
  have hgap := List.append_inj_right hparts hlen
  obtain ⟨c, f, hfirst⟩ := List.exists_cons_of_ne_nil (fill_ne_nil l.first_operand vs)
  obtain ⟨d, g, hsecond⟩ := List.exists_cons_of_ne_nil (fill_ne_nil l.second_operand vs)
  have hfirstBytes := fill_bytes l.first_operand vs
  have hsecondBytes := fill_bytes l.second_operand vs
  rw [hfirst, List.forall_mem_cons] at hfirstBytes
  rw [hsecond, List.forall_mem_cons] at hsecondBytes
  rw [firstIn, hfirst, hsecond] at hgap
  obtain ⟨-, hrest⟩ := blank_append_inj l.gap_blank (by decide)
    (Bool.or_eq_false_iff.1 hfirstBytes.1.1).1 (Bool.or_eq_false_iff.1 hsecondBytes.1.1).1 hgap
  have hends : ∀ z, (l.left ++ 44 :: x).head? = some z → endsOperand z = true := by
    intro z hz
    cases hleft : l.left with
    | nil =>
      rw [hleft] at hz
      obtain rfl := Option.some.inj hz
      decide
    | cons u left =>
      rw [hleft] at hz
      obtain rfl := Option.some.inj hz
      exact endsOperand_of_blank (l.left_blank u (hleft ▸ List.mem_cons_self))
  obtain ⟨-, htail⟩ : f = g ∧ _ := run_append_inj (q := fun x => !endsOperand x)
    (fun z hz => by rw [(hfirstBytes.2 z hz).1]; rfl)
    (fun z hz => by rw [(hsecondBytes.2 z hz).1]; rfl)
    (fun z hz => by rw [hends z hz]; rfl)
    (by simp [endsOperand, CharSet.blank, CharSet.contains]) hrest
  -- a comma, possibly behind blanks, is no blank in front of OFFSET
  cases hleft : l.left with
  | nil =>
    rw [hleft] at htail
    exact absurd (List.cons.inj htail).1 (by decide)
  | cons u left =>
    rw [hleft, List.cons_append, List.cons.injEq] at htail
    cases left with
    | nil => exact absurd (List.cons.inj htail.2).1 (by decide)
    | cons u' left =>
      have hu' := l.left_blank u' (by simp [hleft])
      rw [(List.cons.inj htail.2).1] at hu'
      exact absurd hu' (by decide)

end CommaLimit

/-- In front of a word the places are both behind a word byte or both not. -/
def SameEdge (prev prev' : Option UInt8) (s : Bytes) : Prop :=
  s.head?.any isWord = true → prev'.any isWord = prev.any isWord

section

variable {prev prev' : Option UInt8} {vs : List Int}

/-- No clause is found in the filled text in the place of one that does not fit. -/
theorem noMatchIn_leadIn (prev : Option UInt8) {l : CommaLimit} {rest : Bytes}
    (hapart : MarksApart (l.text ++ rest))
    (hlen : (l.text ++ rest).count mark ≤ vs.length) (hstop : Stops l.second rest)
    (h : ¬ l.Fits vs) :
    ∃ b, fill vs (l.text ++ rest) = l.leadIn vs ++ b ∧
      limitCommaPattern.NoMatchIn prev (l.leadIn vs) b := by
  obtain ⟨x, w, hword, -, -, -, hw⟩ := l.exists_word
  have hsplit : fill vs (l.text ++ rest) = l.leadIn vs ++
      (l.right ++ (l.secondIn vs ++ fill (vs.drop (l.text.count mark)) rest)) := by
    rw [fill_append, CommaLimit.fill_text]
    simp only [CommaLimit.leadIn, CommaLimit.sep, List.append_assoc]
    rfl
  refine ⟨_, hsplit, ?_⟩
  have hhere : limitCommaPattern.matchHere? prev (fill vs (l.text ++ rest)) = none := by
    rw [Option.eq_none_iff_forall_ne_some]
    intro m hm
    obtain ⟨-, l', rest', htext, hstop', hfits⟩ := CommaLimit.exists_of_matchHere?_fill hapart hlen hm
    exact h (CommaLimit.fits_of_append_eq hstop' hstop htext.symm hfits)
  rw [hsplit] at hhere
  have hlead : l.leadIn vs = x :: (w ++ l.gap ++ l.firstIn vs ++ l.left ++ [44]) := by
    rw [CommaLimit.leadIn, hword]
    rfl
  rw [hlead] at hhere ⊢
  refine Pattern.noMatchIn_cons.2 ⟨hhere, noMatchIn_limitComma ?_ _ _⟩
  simp only [List.forall_mem_append, List.forall_mem_singleton]
  refine ⟨⟨⟨⟨hw, ?_⟩, ?_⟩, ?_⟩, by decide⟩
  · exact fun y hy => CommaLimit.lowerByte_of_blank (l.gap_blank y hy)
  · exact fun y hy => (CommaLimit.fill_bytes l.first_operand vs y hy).2
  · exact fun y hy => CommaLimit.lowerByte_of_blank (l.left_blank y hy)

theorem matchHere?_fill_eq_none {t : Bytes} (hedge : SameEdge prev prev' t) (hapart : MarksApart t)
    (hlen : t.count mark ≤ vs.length) (h : limitCommaPattern.matchHere? prev t = none) :
    limitCommaPattern.matchHere? prev' (fill vs t) = none := by
  rw [Option.eq_none_iff_forall_ne_some]
  intro m hm
  obtain ⟨hprev', l, rest, rfl, hstop, -⟩ := CommaLimit.exists_of_matchHere?_fill hapart hlen hm
  rw [l.matchHere?_text ((hedge (l.isWord_head rest)).symm.trans hprev') hstop] at h
  simp at h

/-- Where nothing is found in the text, nothing is found in the filled text. -/
theorem noMatchIn_fill {a b : Bytes} (hedge : SameEdge prev prev' (a ++ b))
    (hapart : MarksApart (a ++ b)) (hlen : (a ++ b).count mark ≤ vs.length)
    (hno : limitCommaPattern.NoMatchIn prev a b) :
    limitCommaPattern.NoMatchIn prev' (fill vs a) (fill (vs.drop (a.count mark)) b) ∧
      SameEdge (a.getLast?.or prev) ((fill vs a).getLast?.or prev') b := by
  induction a generalizing prev prev' vs with
  | nil => exact ⟨Pattern.noMatchIn_nil _ _ _, hedge⟩
  | cons x a ih =>
    obtain ⟨hhere, hno⟩ := Pattern.noMatchIn_cons.1 hno
    have hright : MarksApart (a ++ b) := MarksApart.right (a := [x]) hapart
    rw [Pattern.getLast?_cons_or]
    by_cases hx : x = mark
    · subst hx
      rw [List.cons_append, List.count_cons_self] at hlen
      obtain ⟨v, vs, rfl⟩ := List.exists_cons_of_length_pos (Nat.lt_of_lt_of_le (Nat.succ_pos _) hlen)
      -- behind a mark the text does not go on with a word
      have hmark : SameEdge (some mark) ((numeral v).getLast?.or prev') (a ++ b) := by
        intro hword
        cases hhead : (a ++ b).head? with
        | none => simp [hhead] at hword
        | some y =>
          rw [hhead, Option.any_some, (hapart.behind_mark hhead).2] at hword
          exact absurd hword Bool.false_ne_true
      obtain ⟨hfilled, hsame⟩ := ih hmark hright (Nat.le_of_succ_le_succ hlen) hno
      rw [fill_cons_mark, List.count_cons_self, List.drop_succ_cons, List.getLast?_append,
        Option.or_assoc]
      refine ⟨Pattern.noMatchIn_append.2 ⟨noMatchIn_limitComma ?_ _ _, hfilled⟩, hsame⟩
      intro y hy
      exact (CommaLimit.fill_bytes .mark [v] y (by rwa [fill_mark])).2
    · have hfilled := matchHere?_fill_eq_none hedge hapart hlen hhere
      rw [List.cons_append, List.count_cons_of_ne hx] at hlen
      rw [List.cons_append, fill_cons_of_ne hx, fill_append] at hfilled
      rw [fill_cons_of_ne hx, List.count_cons_of_ne hx, Pattern.getLast?_cons_or]
      obtain ⟨hrest, hsame⟩ := ih (fun _ => rfl) hright hlen hno
      exact ⟨Pattern.noMatchIn_cons.2 ⟨hfilled, hrest⟩, hsame⟩

end

/-- Behind the clause and behind the filled clause. -/
theorem CommaLimit.sameEdge_behind (l : CommaLimit) (vs : List Int) (h : l.Fits vs) {rest : Bytes}
    (hapart : MarksApart (l.text ++ rest)) :
    SameEdge l.text.getLast? (l.filled vs h).text.getLast? rest := by
  intro hword
  rw [getLast?_text, getLast?_text]
  rcases l.second_operand.eq_mark_or with hmark | hmark
  · rw [text, hmark, List.append_assoc] at hapart
    cases hhead : rest.head? with
    | none => simp [hhead] at hword
    | some x =>
      rw [hhead, Option.any_some, (hapart.right.behind_mark hhead).2] at hword
      exact absurd hword Bool.false_ne_true
  · have hsame : (l.filled vs h).second = l.second := fill_of_notMem hmark
    rw [hsame]

/-! ## The law -/

/-- The values of each clause that is found can be exchanged. -/
def KeepsBinding : List Match → List Int → Prop
  | [], _ => True
  | m :: ms, vs =>
    Interchangeable ((vs.drop (m.before.count mark)).take (m.text.count mark)) ∧
      KeepsBinding ms (vs.drop ((m.before ++ m.text).count mark))

/-- What a clause that is found is replaced with. -/
def exchanged (m : Match) : Bytes :=
  ascii "LIMIT " ++ m.group 2 ++ ascii " OFFSET " ++ m.group 1

theorem count_withOffset (l : CommaLimit) : l.withOffset.count mark = l.text.count mark := by
  have hlimit : (ascii "LIMIT ").count mark = 0 := by decide
  have hoffset : (ascii " OFFSET ").count mark = 0 := by decide
  rw [l.count_text]
  simp only [CommaLimit.withOffset, List.count_append, hlimit, hoffset]
  omega

theorem rewriteFrom_fill_iff {prev prev' : Option UInt8} {s : Bytes} {vs : List Int}
    (hedge : SameEdge prev prev' s) (hapart : MarksApart s) (hlen : s.count mark ≤ vs.length) :
    limitCommaPattern.rewriteFrom exchanged prev' (fill vs s)
        = fill vs (limitCommaPattern.rewriteFrom exchanged prev s) ↔
      KeepsBinding (limitCommaPattern.allFrom prev s) vs := by
  fun_induction Pattern.allFrom limitCommaPattern prev s generalizing prev' vs with
  | case1 prev s hfind =>
    have hno : limitCommaPattern.NoMatchIn prev s [] := by
      refine Pattern.noMatchIn_of_findFrom? startsAscii_limitComma rfl fun m hm => ?_
      rw [List.append_nil, hfind] at hm
      simp at hm
    rw [← List.append_nil s] at hedge hapart hlen
    obtain ⟨hfilled, -⟩ := noMatchIn_fill hedge hapart hlen hno
    rw [Pattern.rewriteFrom_eq, Pattern.rewriteFrom_eq, hfind,
      Pattern.findFrom?_eq_none consumes_limitComma hfilled]
    exact iff_of_true rfl trivial
  | case2 prev s m hfind hlt ih =>
    have hs := Pattern.text_of_findFrom? hfind
    have hno : limitCommaPattern.NoMatchIn prev m.before (m.text ++ m.after) := by
      refine Pattern.noMatchIn_of_findFrom? startsAscii_limitComma rfl fun m' hm' => ?_
      rw [← List.append_assoc, hs, hfind, Option.some.injEq] at hm'
      rw [hm']
    obtain ⟨hprev, l, after, -, hstop, hhit⟩ :=
      CommaLimit.exists_of_matchHere? (Pattern.matchHere?_of_findFrom? hfind)
    obtain ⟨a, text, rest, groups⟩ := m
    simp only [CommaLimit.hit, Match.mk.injEq, true_and] at hhit
    obtain ⟨rfl, rfl, rfl⟩ := hhit
    rw [List.append_assoc] at hs
    subst hs
    dsimp only at hno hprev ih hedge hapart hlen hfind ⊢
    obtain ⟨hfilled, hsame⟩ := noMatchIn_fill hedge hapart hlen hno
    have hprev' := (hsame (l.isWord_head rest)).trans hprev
    have hapart₁ := hapart.right
    rw [List.count_append, List.count_append] at hlen
    have hlenText : l.text.count mark ≤ (vs.drop (a.count mark)).length := by
      rw [List.length_drop]
      omega
    have hlenRest : rest.count mark
        ≤ ((vs.drop (a.count mark)).drop (l.text.count mark)).length := by
      rw [List.length_drop, List.length_drop]
      omega
    have hright : fill vs (limitCommaPattern.rewriteFrom exchanged prev (a ++ (l.text ++ rest)))
        = fill vs a ++ (fill (vs.drop (a.count mark)) l.withOffset ++
            fill ((vs.drop (a.count mark)).drop (l.text.count mark))
              (limitCommaPattern.rewriteFrom exchanged l.text.getLast? rest)) := by
      rw [Pattern.rewriteFrom_of_findFrom? consumes_limitComma hfind, List.append_assoc,
        fill_append]
      refine congrArg (fill vs a ++ ·) ((fill_append _ l.withOffset _).trans ?_)
      rw [count_withOffset]
    rw [KeepsBinding, List.count_append, ← List.drop_drop, hright, fill_append vs a]
    generalize vs.drop (a.count mark) = vs₁ at *
    by_cases hfits : l.Fits vs₁
    · have hfound := Pattern.findFrom?_eq_some startsAscii_limitComma rfl hfilled
        (l.matchHere?_fill vs₁ hprev' hapart₁ hstop hfits)
      rw [Pattern.rewriteFrom_of_findFrom? consumes_limitComma hfound, List.append_assoc,
        List.append_cancel_left_eq]
      refine (l.withOffset_filled_iff hfits hlenText).trans (and_congr_right fun _ => ?_)
      exact ih (l.sameEdge_behind vs₁ hfits hapart₁) hapart₁.right hlenRest
    · have hlenAll : (l.text ++ rest).count mark ≤ vs₁.length := by
        rw [List.length_drop] at hlenRest
        rw [List.count_append]
        omega
      obtain ⟨b, hsplit, hlead⟩ := noMatchIn_leadIn
        ((fill vs a).getLast?.or prev') hapart₁ hlenAll hstop hfits
      rw [hsplit] at hfilled
      have hlast : ∀ x, (fill vs a ++ l.leadIn vs₁).getLast? = some x → x < 128 := by
        intro x hx
        rw [CommaLimit.leadIn, ← List.append_assoc, List.getLast?_concat] at hx
        obtain rfl := Option.some.inj hx
        decide
      obtain ⟨b', hkept⟩ := Pattern.rewriteFrom_skip (p := limitCommaPattern) rfl exchanged hlast
        (Pattern.noMatchIn_append.2 ⟨hfilled, hlead⟩)
      rw [hsplit, ← List.append_assoc, hkept, List.append_assoc, List.append_cancel_left_eq]
      refine iff_of_false (l.leadIn_ne _ _) fun h => hfits ?_
      exact ((l.interchangeable_iff hlenText).1 h.1).1
  | case3 prev s m hfind hlt => exact absurd (consumes_limitComma.after_lt hfind) hlt

/-- **Binding parameters and writing LIMIT with OFFSET.** Whatever values are bound to the marks of
a text, they can be bound before LIMIT is written with OFFSET or afterwards if and only if the marks
of each LIMIT with two operands stand for one natural number. -/
theorem limitToOffset_fill_iff (s : Bytes) (vs : List Int) (hlen : vs.length = s.count mark)
    (hapart : MarksApart s) :
    limitToOffset (fill vs s) = fill vs (limitToOffset s) ↔
      KeepsBinding (limitCommaPattern.all s) vs :=
  rewriteFrom_fill_iff (fun _ => rfl) hapart (Nat.le_of_eq hlen.symm)

/-- A negative value apart from LIMIT, and one mark among the operands. -/
theorem limitToOffset_fill_iff_page :
    ([-7, 40] : List Int).length = (ascii "SELECT a FROM t WHERE b = ? LIMIT ?, 20").count mark ∧
      MarksApart (ascii "SELECT a FROM t WHERE b = ? LIMIT ?, 20") ∧
      limitToOffset (fill [-7, 40] (ascii "SELECT a FROM t WHERE b = ? LIMIT ?, 20"))
        = fill [-7, 40] (limitToOffset (ascii "SELECT a FROM t WHERE b = ? LIMIT ?, 20")) := by
  refine ⟨by decide, by decide, (limitToOffset_fill_iff _ _ (by decide) (by decide)).2 ?_⟩
  have hall : limitCommaPattern.all (ascii "SELECT a FROM t WHERE b = ? LIMIT ?, 20")
      = [{ before := ascii "SELECT a FROM t WHERE b = ? ", text := ascii "LIMIT ?, 20", after := [],
           groups := [(2, ascii "20"), (1, ascii "?")] }] := by
    decide +kernel
  rw [hall]
  exact ⟨⟨40, by decide⟩, trivial⟩

/-- Two marks change places, so that the first value is bound to the number of rows. -/
theorem limitToOffset_rebinds :
    limitToOffset (fill [1, 2] (ascii "SELECT a FROM t LIMIT ?, ?"))
        = ascii "SELECT a FROM t LIMIT 2 OFFSET 1" ∧
      fill [1, 2] (limitToOffset (ascii "SELECT a FROM t LIMIT ?, ?"))
        = ascii "SELECT a FROM t LIMIT 1 OFFSET 2" := by
  decide +kernel

/-- A digit behind a mark goes on with the number that is bound to it. -/
example :
    limitToOffset (fill [7] (ascii "LIMIT 5, ?3")) ≠ fill [7] (limitToOffset (ascii "LIMIT 5, ?3")) := by
  decide +kernel

end SqlDialect
