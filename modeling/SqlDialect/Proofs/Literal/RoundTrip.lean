import Mathlib.Tactic.ByContra
import SqlDialect.Literal
import SqlDialect.Proofs.Text.Bytes

set_option autoImplicit false

/-! # Taking literals out and putting them back

A shielding cuts a statement into gaps and literals. Its text holds the gaps with a numbered
placeholder in the place of each literal, and `restore` reads placeholders off that text from left
to right. This file says exactly when the statement comes back: when no gap holds a look-alike,
text that was written like one of the placeholders in use.

A look-alike starts inside a gap but need not end there: the digits or the underscores behind it
may touch the placeholder that follows the gap. The converse is impossible, because the marker that
starts a placeholder does not overlap itself (`marker_inside_gap`), so a token that starts in a gap
has its marker in the gap. Going through a gap byte by byte, the restored text agrees with the
statement up to the first look-alike and differs there: a literal starts with a quote and a
look-alike with an underscore (`restore_gap_iff`). -/

namespace SqlDialect

/-! ## Placeholders -/

/-- The number of a token is the value of its digits, if that fits into 64 bits with a sign. -/
theorem placeholderIndex?_of_digits {ds : Bytes} (hds : ∀ b ∈ ds, Bytes.isDigit b = true)
    (hne : ds ≠ []) :
    placeholderIndex? (marker ++ ds ++ markerEnd)
      = if Bytes.digitsValue ds < Bytes.int64Limit then some (Bytes.digitsValue ds) else none := by
  have hlead : Bytes.dropLead? marker (marker ++ ds ++ markerEnd) = some (ds ++ markerEnd) := by
    rw [List.append_assoc, Bytes.dropLead?_append]
  simp only [placeholderIndex?, hlead, Bytes.dropTrail?_append, Bytes.toInt64?_of_digits hds hne,
    Option.bind_eq_bind, Option.bind_some]
  split
  · have hnonneg : ¬ (Bytes.digitsValue ds : Int) < 0 := by omega
    simp [hnonneg]
  · rfl

/-- Without digits there is no number. -/
theorem placeholderIndex?_without_digits :
    placeholderIndex? (marker ++ [] ++ markerEnd) = none := by
  decide

/-- The text starts with one of the first `n` placeholders, possibly with more zeros: the start of a
placeholder, a run of digits with a value below `n`, and the end of a placeholder. -/
def StartsToken (n : Nat) (s : Bytes) : Prop :=
  ∃ digits rest, s = marker ++ digits ++ markerEnd ++ rest ∧ digits ≠ [] ∧
    (∀ b ∈ digits, Bytes.isDigit b = true) ∧ Bytes.digitsValue digits < n

/-- The digits in front of the end of a placeholder are the maximal run of digits. -/
theorem takeWhile_isDigit_append {ds : Bytes} (hds : ∀ b ∈ ds, Bytes.isDigit b = true)
    (rest : Bytes) : (ds ++ (markerEnd ++ rest)).takeWhile Bytes.isDigit = ds := by
  rw [List.takeWhile_append_of_pos hds]
  have hend : (markerEnd ++ rest).takeWhile Bytes.isDigit = [] := rfl
  rw [hend, List.append_nil]

/-- What `restore` finds behind a run of digits that ends like a placeholder. -/
theorem tokenAt?_of_digits (t : LiteralTable) {ds : Bytes}
    (hds : ∀ b ∈ ds, Bytes.isDigit b = true) (rest : Bytes) :
    t.tokenAt? (marker ++ ds ++ markerEnd ++ rest)
      = (t.lookup? (marker ++ ds ++ markerEnd)).map
          fun l => (l, (marker ++ ds ++ markerEnd).length) := by
  have hlead : Bytes.dropLead? marker (marker ++ ds ++ markerEnd ++ rest)
      = some (ds ++ (markerEnd ++ rest)) := by
    rw [List.append_assoc, List.append_assoc, Bytes.dropLead?_append]
  have hdigits := takeWhile_isDigit_append hds rest
  have hend : Bytes.dropLead? markerEnd ((ds ++ (markerEnd ++ rest)).drop ds.length)
      = some rest := by
    rw [List.drop_left, Bytes.dropLead?_append]
  simp only [LiteralTable.tokenAt?, hlead, hdigits, hend, Option.bind_eq_bind, Option.bind_some]
  cases t.lookup? (marker ++ ds ++ markerEnd) <;> rfl

/-- A token that `restore` finds consists of the marker, digits and the end of a placeholder. -/
theorem digits_of_tokenAt? {t : LiteralTable} {s : Bytes} {p : Literal × Nat}
    (h : t.tokenAt? s = some p) :
    ∃ ds rest, s = marker ++ ds ++ markerEnd ++ rest ∧
      (∀ b ∈ ds, Bytes.isDigit b = true) ∧ t.lookup? (marker ++ ds ++ markerEnd) = some p.1 := by
  simp only [LiteralTable.tokenAt?, Option.bind_eq_bind, Option.bind_eq_some_iff] at h
  obtain ⟨rest₁, hlead, rest₂, hend, l, hl, hp⟩ := h
  have hs := Bytes.eq_append_of_dropLead? hlead
  have hrest := Bytes.eq_append_of_dropLead? hend
  refine ⟨rest₁.takeWhile Bytes.isDigit, rest₂, ?_, ?_, ?_⟩
  · rw [hs, List.append_assoc, List.append_assoc, ← hrest]
    exact congrArg (marker ++ ·)
      (List.prefix_iff_eq_append.1 (List.takeWhile_prefix Bytes.isDigit)).symm
  · intro b hb
    exact (List.all_eq_true.1 List.all_takeWhile) b hb
  · rw [hl]
    cases hp
    rfl

theorem lookup?_of_digits (t : LiteralTable) {ds : Bytes}
    (hds : ∀ b ∈ ds, Bytes.isDigit b = true) (hne : ds ≠ []) (ht : t.length ≤ Bytes.int64Limit) :
    t.lookup? (marker ++ ds ++ markerEnd) = t[Bytes.digitsValue ds]? := by
  rw [LiteralTable.lookup?, placeholderIndex?_of_digits hds hne]
  split
  · rfl
  · rw [List.getElem?_eq_none (by omega)]
    rfl

/-- In a table that 64-bit numbers can count, a token is found exactly where the text starts like
one of the table's placeholders. -/
theorem tokenAt?_eq_none_iff (t : LiteralTable) (ht : t.length ≤ Bytes.int64Limit) (s : Bytes) :
    t.tokenAt? s = none ↔ ¬ StartsToken t.length s := by
  constructor
  · rintro hnone ⟨ds, rest, rfl, hne, hds, hlt⟩
    rw [tokenAt?_of_digits t hds rest, lookup?_of_digits t hds hne ht, Option.map_eq_none_iff,
      List.getElem?_eq_none_iff] at hnone
    omega
  · intro hstart
    rw [Option.eq_none_iff_forall_ne_some]
    intro p hp
    obtain ⟨ds, rest, hs, hds, hl⟩ := digits_of_tokenAt? hp
    have hne : ds ≠ [] := by
      rintro rfl
      rw [LiteralTable.lookup?, placeholderIndex?_without_digits] at hl
      simp at hl
    rw [lookup?_of_digits t hds hne ht] at hl
    have hlt := (List.getElem?_eq_some_iff.1 hl).1
    exact hstart ⟨ds, rest, hs, hne, hds, hlt⟩

theorem tokenAt?_placeholder (t : LiteralTable) (ht : t.length ≤ Bytes.int64Limit) {n : Nat}
    {l : Literal} (hl : t[n]? = some l) (rest : Bytes) :
    t.tokenAt? (placeholder n ++ rest) = some (l, (placeholder n).length) := by
  have hdigits : ∀ b ∈ Bytes.decimal n, Bytes.isDigit b = true :=
    fun b hb => Bytes.isDigit_of_mem_decimal hb
  rw [placeholder, tokenAt?_of_digits t hdigits rest,
    lookup?_of_digits t hdigits (Bytes.decimal_ne_nil n) ht, Bytes.digitsValue_decimal, hl]
  rfl

/-! ## Gaps -/

/-- The gap holds a look-alike of one of `n` placeholders: the start of a placeholder, followed by a
run of digits with a value below `n` that is followed by the end of a placeholder. `after` is the
text behind the gap, into which the digits and the end may reach. -/
def HoldsLookalike (n : Nat) (gap after : Bytes) : Prop :=
  ∃ pre post digits rest, gap = pre ++ marker ++ post ∧
    post ++ after = digits ++ markerEnd ++ rest ∧ digits ≠ [] ∧
    (∀ b ∈ digits, Bytes.isDigit b = true) ∧ Bytes.digitsValue digits < n

/-- What may follow a gap: nothing, or a placeholder. -/
def FollowsGap (after : Bytes) : Prop :=
  after = [] ∨ ∃ rest, after = marker ++ rest

/-- No end of the marker is the start of another marker. -/
theorem marker_borderless :
    ∀ k < marker.length, 0 < k → ¬ marker.drop k <+: marker := by
  decide

/-- A marker that starts in a gap lies in the gap. -/
theorem marker_inside_gap {gap after rest : Bytes} (hne : gap ≠ []) (hafter : FollowsGap after)
    (h : gap ++ after = marker ++ rest) : ∃ post, gap = marker ++ post := by
  rcases List.append_eq_append_iff.1 h with ⟨c, hmarker, hc⟩ | ⟨post, hgap, _⟩
  · rcases hafter with rfl | ⟨rest', rfl⟩
    · have hnil : c = [] := (List.append_eq_nil_iff.1 hc.symm).1
      exact ⟨[], by rw [hmarker, hnil]; simp⟩
    · -- `c` is what the gap lacks of the marker, and the next placeholder starts with it
      by_cases hk : gap.length < marker.length
      · have hdrop : marker.drop gap.length = c := by rw [hmarker, List.drop_left]
        have hlen : c.length ≤ marker.length := by rw [hmarker]; simp
        have hprefix : c <+: marker :=
          List.prefix_of_prefix_length_le ⟨rest, hc.symm⟩ ⟨rest', rfl⟩ hlen
        have hpos : 0 < gap.length := List.length_pos_iff.2 hne
        exact absurd (hdrop ▸ hprefix) (marker_borderless gap.length hk hpos)
      · have hnil : c = [] := by
          have hlen := congrArg List.length hmarker
          rw [List.length_append] at hlen
          exact List.eq_nil_of_length_eq_zero (by omega)
        exact ⟨[], by rw [hmarker, hnil]; simp⟩
  · exact ⟨post, hgap⟩

/-- A gap holds a look-alike exactly if the text starts with a token at one of the gap's bytes. -/
theorem holdsLookalike_iff {n : Nat} {gap after : Bytes} (hafter : FollowsGap after) :
    HoldsLookalike n gap after ↔
      ∃ pre post, gap = pre ++ post ∧ post ≠ [] ∧ StartsToken n (post ++ after) := by
  constructor
  · rintro ⟨pre, post, digits, rest, rfl, hpost, hne, hdigits, hlt⟩
    refine ⟨pre, marker ++ post, by simp, by simp [marker, ascii], digits, rest, ?_, hne, hdigits,
      hlt⟩
    rw [List.append_assoc, hpost]
    simp
  · rintro ⟨pre, post, rfl, hne, digits, rest, hs, hdne, hdigits, hlt⟩
    rw [List.append_assoc, List.append_assoc] at hs
    obtain ⟨post', rfl⟩ := marker_inside_gap hne hafter hs
    refine ⟨pre, post', digits, rest, by simp, ?_, hdne, hdigits, hlt⟩
    rw [List.append_assoc] at hs
    rw [List.append_cancel_left hs]
    simp

theorem not_holdsLookalike_nil (n : Nat) (after : Bytes) : ¬ HoldsLookalike n [] after := by
  rintro ⟨pre, post, digits, rest, hgap, _⟩
  simp [marker, ascii] at hgap

/-- The look-alikes of a gap are the one at its first byte, if there is one, and those behind. -/
theorem holdsLookalike_cons_iff {n : Nat} {b : UInt8} {gap after : Bytes}
    (hafter : FollowsGap after) :
    HoldsLookalike n (b :: gap) after ↔
      StartsToken n (b :: gap ++ after) ∨ HoldsLookalike n gap after := by
  rw [holdsLookalike_iff hafter, holdsLookalike_iff hafter]
  constructor
  · rintro ⟨pre, post, hgap, hne, hstart⟩
    cases pre with
    | nil => exact Or.inl (hgap ▸ hstart)
    | cons c pre =>
      cases hgap
      exact Or.inr ⟨pre, post, rfl, hne, hstart⟩
  · rintro (hstart | ⟨pre, post, rfl, hne, hstart⟩)
    · exact ⟨[], b :: gap, rfl, List.cons_ne_nil b gap, hstart⟩
    · exact ⟨b :: pre, post, rfl, hne, hstart⟩

/-! ## Restoring -/

theorem restoreFrom_length_append (t : LiteralTable) (a s : Bytes) :
    restoreFrom t a.length (a ++ s) = restoreFrom t 0 s := by
  induction a with
  | nil => rfl
  | cons b a ih => simpa [restoreFrom] using ih

@[simp]
theorem restore_nil (t : LiteralTable) : restore [] t = [] :=
  rfl

theorem restore_cons_of_none {t : LiteralTable} {b : UInt8} {s : Bytes}
    (h : t.tokenAt? (b :: s) = none) : restore (b :: s) t = b :: restore s t := by
  rw [restore, restoreFrom, h]
  rfl

theorem lookup?_nil (token : Bytes) : LiteralTable.lookup? [] token = none := by
  rw [LiteralTable.lookup?]
  cases placeholderIndex? token <;> rfl

theorem restore_of_no_literals (s : Bytes) : restore s [] = s := by
  induction s with
  | nil => rfl
  | cons b s ih =>
    have hnone : LiteralTable.tokenAt? [] (b :: s) = none := by
      simp [LiteralTable.tokenAt?, lookup?_nil]
    rw [restore_cons_of_none hnone, ih]

theorem restore_token {t : LiteralTable} {token s : Bytes} {l : Literal} (hne : token ≠ [])
    (h : t.tokenAt? (token ++ s) = some (l, token.length)) :
    restore (token ++ s) t = l.text ++ restore s t := by
  cases token with
  | nil => exact absurd rfl hne
  | cons b token =>
    rw [List.cons_append] at h ⊢
    rw [restore, restoreFrom, h]
    exact congrArg (l.text ++ ·) (restoreFrom_length_append t token s)

/-- Placeholder number `n` is restored to literal number `n`. -/
theorem restore_placeholder {t : LiteralTable} (ht : t.length ≤ Bytes.int64Limit) {n : Nat}
    {l : Literal} (hl : t[n]? = some l) (s : Bytes) :
    restore (placeholder n ++ s) t = l.text ++ restore s t :=
  restore_token (by simp [placeholder, marker, ascii]) (tokenAt?_placeholder t ht hl s)

/-- The literal's text starts with its quote, a single or a double one. -/
def Literal.Quoted (l : Literal) : Prop :=
  (l.quote = singleQuote ∨ l.quote = doubleQuote) ∧ ∃ rest, l.text = l.quote :: rest

/-- A token starts with the first byte of the marker, a literal with a quote. -/
theorem Literal.Quoted.text_append_ne {l : Literal} (hl : l.Quoted) {n : Nat} {b : UInt8}
    {s u : Bytes} (hs : StartsToken n (b :: s)) (v : Bytes) : l.text ++ u ≠ b :: v := by
  obtain ⟨digits, rest, hs, _⟩ := hs
  have hb : b = 95 := by
    rw [List.append_assoc, List.append_assoc] at hs
    exact (List.cons.inj hs).1
  obtain ⟨hquote, tail, htext⟩ := hl
  intro h
  rw [htext, List.cons_append] at h
  have hbq : l.quote = b := (List.cons.inj h).1
  rw [hb] at hbq
  rcases hquote with hq | hq
  · rw [hq] at hbq; exact absurd hbq (by decide)
  · rw [hq] at hbq; exact absurd hbq (by decide)

/-- A gap comes back, and what follows it as `src`, exactly if the gap holds no look-alike and what
follows it comes back. -/
theorem restore_gap_iff {t : LiteralTable} (ht : t.length ≤ Bytes.int64Limit)
    (hq : ∀ l ∈ t, l.Quoted) {after : Bytes} (hafter : FollowsGap after) (gap src : Bytes) :
    restore (gap ++ after) t = gap ++ src ↔
      ¬ HoldsLookalike t.length gap after ∧ restore after t = src := by
  induction gap with
  | nil => simp [not_holdsLookalike_nil]
  | cons b gap ih =>
    rw [holdsLookalike_cons_iff hafter]
    cases hp : t.tokenAt? (b :: gap ++ after) with
    | none =>
      have hstart := (tokenAt?_eq_none_iff t ht _).1 hp
      rw [List.cons_append] at hp ⊢
      rw [restore_cons_of_none hp, List.cons_append, List.cons.injEq, ih]
      simp only [List.cons_append] at hstart
      simp [hstart]
    | some p =>
      -- the restored text has the quote of a literal where the gap has the byte `b`
      have hstart : StartsToken t.length (b :: gap ++ after) := by
        by_contra hno
        rw [(tokenAt?_eq_none_iff t ht _).2 hno] at hp
        simp at hp
      have hmem : p.1 ∈ t := by
        obtain ⟨ds, rest, _, _, hl⟩ := digits_of_tokenAt? hp
        obtain ⟨n, _, hn⟩ := Option.bind_eq_some_iff.1 hl
        exact List.mem_of_getElem? hn
      constructor
      · intro h
        rw [List.cons_append] at hp h
        rw [restore, restoreFrom, hp] at h
        exact absurd h ((hq p.1 hmem).text_append_ne hstart _)
      · rintro ⟨hno, _⟩
        exact absurd (Or.inl hstart) hno

namespace Shielding

/-- The statement that the shielding was cut from: gap, literal, gap, literal, … and a last gap. -/
def source (r : Shielding) : Bytes :=
  r.head ++ r.tail.flatMap fun (l, gap) => l.text ++ gap

/-- The gaps in the order of the text; there is one more than there are literals. -/
def gaps (r : Shielding) : List Bytes :=
  r.head :: r.tail.map Prod.snd

/-- A gap and the gaps behind it, each with what follows it in the text whose next placeholder has
number `n`. -/
def placedFrom (n : Nat) (gap : Bytes) : List (Literal × Bytes) → List (Bytes × Bytes)
  | [] => [(gap, [])]
  | (l, next) :: rest =>
    (gap, numbered n ((l, next) :: rest)) :: placedFrom (n + 1) next rest

/-- The gaps, each with what follows it in the shielded text. -/
def placedGaps (r : Shielding) : List (Bytes × Bytes) :=
  placedFrom 0 r.head r.tail

theorem followsGap_numbered (n : Nat) (tail : List (Literal × Bytes)) :
    FollowsGap (numbered n tail) := by
  cases tail with
  | nil => exact Or.inl rfl
  | cons p rest =>
    refine Or.inr ⟨Bytes.decimal n ++ markerEnd ++ p.2 ++ numbered (n + 1) rest, ?_⟩
    simp [numbered, placeholder]

/-- The run over all gaps: `tail` is what is left of the literals of `t` behind the first `n`. -/
theorem restore_numbered_iff {t : LiteralTable} (ht : t.length ≤ Bytes.int64Limit)
    (hq : ∀ l ∈ t, l.Quoted) (n : Nat) (gap : Bytes) (tail : List (Literal × Bytes))
    (htail : t.drop n = tail.map Prod.fst) :
    restore (gap ++ numbered n tail) t = gap ++ tail.flatMap (fun (l, gap) => l.text ++ gap) ↔
      ∀ g ∈ placedFrom n gap tail, ¬ HoldsLookalike t.length g.1 g.2 := by
  induction tail generalizing n gap with
  | nil =>
    rw [restore_gap_iff ht hq (followsGap_numbered n [])]
    simp [placedFrom, numbered]
  | cons p rest ih =>
    obtain ⟨l, next⟩ := p
    have hl : t[n]? = some l := by
      have h := congrArg (·[0]?) htail
      simpa using h
    have hrest : t.drop (n + 1) = rest.map Prod.fst := by
      have h := congrArg List.tail htail
      simpa using h
    rw [restore_gap_iff ht hq (followsGap_numbered n _), numbered, List.append_assoc,
      restore_placeholder ht hl, List.flatMap_cons, List.append_assoc, List.append_cancel_left_eq,
      ih (n + 1) next hrest, placedFrom, List.forall_mem_cons, numbered, List.append_assoc]

/-- A shielding whose literals are quoted comes back exactly if none of its gaps holds a
look-alike. -/
theorem restore_text_iff (r : Shielding) (hn : r.literals.length ≤ Bytes.int64Limit)
    (hq : ∀ l ∈ r.literals, l.Quoted) :
    restore r.text r.literals = r.source ↔
      ∀ g ∈ r.placedGaps, ¬ HoldsLookalike r.literals.length g.1 g.2 :=
  restore_numbered_iff hn hq 0 r.head r.tail rfl

end Shielding

/-! ## Cutting -/

theorem closeQuote_append (q : UInt8) (s : Bytes) :
    (closeQuote q s).1 ++ (closeQuote q s).2 = s := by
  fun_induction closeQuote q s <;> simp_all [Prod.map]

theorem throughByte_append (q : UInt8) (s : Bytes) :
    (throughByte q s).1 ++ (throughByte q s).2 = s := by
  fun_induction throughByte q s <;> simp_all [Prod.map]

/-- The bytes of a text outside its names in backticks; `inside` tells whether the text starts
inside such a name. An unclosed name runs to the end. -/
def outsideNames (inside : Bool) : Bytes → Bytes
  | [] => []
  | b :: s =>
    if b = backtick then outsideNames (!inside) s
    else if inside then outsideNames inside s
    else b :: outsideNames inside s

/-- Behind a name the text is outside names; only an unclosed name has nothing behind it. -/
theorem outsideNames_throughByte {s g : Bytes} (hg : (throughByte backtick s).2 = [] → g = []) :
    outsideNames true ((throughByte backtick s).1 ++ g) = outsideNames false g := by
  induction s with
  | nil =>
    rw [hg rfl]
    rfl
  | cons b s ih =>
    by_cases hb : b = backtick
    · simp [throughByte, outsideNames, hb]
    · simp only [throughByte, if_neg hb, Prod.map_fst, Prod.map_snd, id_eq] at hg ⊢
      rw [List.cons_append, outsideNames, if_neg hb, if_pos rfl]
      exact ih hg

namespace Shielding

@[simp]
theorem source_keep (s : Bytes) (r : Shielding) : (r.keep s).source = s ++ r.source := by
  simp [source, keep]

@[simp]
theorem source_literal (l : Literal) (r : Shielding) :
    (r.literal l).source = l.text ++ r.source := by
  simp [source, literal]

@[simp]
theorem literals_keep (s : Bytes) (r : Shielding) : (r.keep s).literals = r.literals :=
  rfl

@[simp]
theorem literals_literal (l : Literal) (r : Shielding) :
    (r.literal l).literals = l :: r.literals :=
  rfl

theorem gaps_keep (s : Bytes) (r : Shielding) :
    (r.keep s).gaps = (s ++ r.head) :: r.tail.map Prod.snd :=
  rfl

theorem gaps_literal (l : Literal) (r : Shielding) : (r.literal l).gaps = [] :: r.gaps :=
  rfl

/-- Nothing is lost or added in cutting a statement. -/
theorem source_ofText (sql : Bytes) : (ofText sql).source = sql := by
  fun_induction ofText sql with
  | case1 => rfl
  | case2 b s hb ih => rw [source_literal, ih, List.cons_append, closeQuote_append]
  | case3 s hb ih => rw [source_keep, ih, List.cons_append, throughByte_append]
  | case4 b s hb hb' ih => rw [source_keep, ih, List.singleton_append]

/-- Every literal that is cut out starts with its quote. -/
theorem quoted_of_mem_ofText (sql : Bytes) : ∀ l ∈ (ofText sql).literals, l.Quoted := by
  fun_induction ofText sql with
  | case1 => simp [literals]
  | case2 b s hb ih =>
    rw [literals_literal, List.forall_mem_cons]
    exact ⟨⟨hb, _, rfl⟩, ih⟩
  | case3 s hb ih => rwa [literals_keep]
  | case4 b s hb hb' ih => rwa [literals_keep]

theorem length_literals_ofText (sql : Bytes) : (ofText sql).literals.length ≤ sql.length := by
  fun_induction ofText sql with
  | case1 => simp [literals]
  | case2 b s hb ih =>
    have := length_closeQuote b s
    rw [literals_literal, List.length_cons, List.length_cons]
    omega
  | case3 s hb ih =>
    have := length_throughByte backtick s
    rw [literals_keep, List.length_cons]
    omega
  | case4 b s hb hb' ih =>
    rw [literals_keep, List.length_cons]
    omega

/-- No gap holds a quote outside names in backticks. -/
theorem no_quote_in_gaps_ofText (sql : Bytes) :
    ∀ g ∈ (ofText sql).gaps, ∀ b ∈ outsideNames false g, b ≠ singleQuote ∧ b ≠ doubleQuote := by
  fun_induction ofText sql with
  | case1 => simp [gaps, outsideNames]
  | case2 b s hb ih =>
    rw [gaps_literal, List.forall_mem_cons]
    exact ⟨by simp [outsideNames], ih⟩
  | case3 s hb ih =>
    rw [gaps, List.forall_mem_cons] at ih
    rw [gaps_keep, List.forall_mem_cons]
    refine ⟨?_, ih.2⟩
    have hend : (throughByte backtick s).2 = [] →
        (ofText (throughByte backtick s).2).head = [] := by
      intro h
      rw [h, ofText]
    rw [List.cons_append, outsideNames, if_pos rfl, Bool.not_false, outsideNames_throughByte hend]
    exact ih.1
  | case4 b s hb hb' ih =>
    rw [gaps, List.forall_mem_cons] at ih
    rw [gaps_keep, List.forall_mem_cons]
    refine ⟨?_, ih.2⟩
    rw [List.singleton_append, outsideNames, if_neg hb', if_neg Bool.false_ne_true,
      List.forall_mem_cons]
    exact ⟨not_or.1 hb, ih.1⟩

end Shielding

/-- **The exact round trip.** A statement is gaps and literals in turn, its shielded text the same
gaps and placeholders in turn, no gap holds a quote outside names in backticks, and the statement
comes back exactly if no gap holds a look-alike of one of the placeholders in use. Lengths are
64-bit numbers, which bounds the statement. -/
theorem restore_shield_iff (sql : Bytes) (hlen : sql.length < Bytes.int64Limit) :
    ∃ r : Shielding, sql = r.source ∧ shield sql = (r.text, r.literals) ∧
      (∀ g ∈ r.gaps, ∀ b ∈ outsideNames false g, b ≠ singleQuote ∧ b ≠ doubleQuote) ∧
      (restore (shield sql).1 (shield sql).2 = sql ↔
        ∀ g ∈ r.placedGaps, ¬ HoldsLookalike r.literals.length g.1 g.2) := by
  refine ⟨Shielding.ofText sql, (Shielding.source_ofText sql).symm, rfl,
    Shielding.no_quote_in_gaps_ofText sql, ?_⟩
  have hn := Shielding.length_literals_ofText sql
  have h := Shielding.restore_text_iff (Shielding.ofText sql) (by omega)
    (Shielding.quoted_of_mem_ofText sql)
  rw [Shielding.source_ofText] at h
  exact h

/-- The digits of a look-alike may touch the placeholder of the literal behind it. -/
theorem restore_shield_iff_touching :
    (ascii "__pglit0'x'").length < Bytes.int64Limit ∧
      ∃ r : Shielding, ascii "__pglit0'x'" = r.source ∧
        shield (ascii "__pglit0'x'") = (r.text, r.literals) ∧
        (∀ g ∈ r.gaps, ∀ b ∈ outsideNames false g, b ≠ singleQuote ∧ b ≠ doubleQuote) ∧
        (restore (shield (ascii "__pglit0'x'")).1 (shield (ascii "__pglit0'x'")).2
            = ascii "__pglit0'x'" ↔
          ∀ g ∈ r.placedGaps, ¬ HoldsLookalike r.literals.length g.1 g.2) :=
  ⟨by decide, restore_shield_iff (ascii "__pglit0'x'") (by decide)⟩

end SqlDialect
