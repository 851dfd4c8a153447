import SqlDialect.Proofs.Identifier.Names
import SqlDialect.Proofs.Literal.RoundTrip
import SqlDialect.Proofs.Text.Words

set_option autoImplicit false

/-! # Restoring the parts of a text one by one

A placeholder is a word, so no placeholder reaches over a byte that belongs to no word: the literals
of the text on either side of such a byte can be put back separately. A text without the start of a
placeholder stays as it is. -/

namespace SqlDialect

open Bytes

/-- A token is a word. -/
theorem isWord_of_mem_token {ds : Bytes} (hds : ∀ b ∈ ds, isDigit b = true) :
    ∀ b ∈ marker ++ ds ++ markerEnd, isWord b = true := by
  have hmarker : ∀ b ∈ marker, isWord b = true := by decide
  have hend : ∀ b ∈ markerEnd, isWord b = true := by decide
  intro b hb
  simp only [List.mem_append] at hb
  rcases hb with (hb | hb) | hb
  · exact hmarker b hb
  · rw [isWord, hds b hb]
    simp
  · exact hend b hb

/-- What is read as a number is digits, perhaps behind a sign. -/
theorem isDigit_or_sign_of_toInt64? {s : Bytes} {n : Int} (h : toInt64? s = some n) :
    ∀ b ∈ s, isDigit b = true ∨ b = 43 ∨ b = 45 := by
  unfold toInt64? at h
  split at h
  rename_i negative digits hparts
  have hdigits : ∀ b ∈ digits, isDigit b = true ∨ b = 43 ∨ b = 45 := by
    intro b hb
    split at h
    · cases h
    · rename_i hall
      rw [Bool.not_eq_true, Bool.or_eq_false_iff, Bool.not_eq_false'] at hall
      exact Or.inl (List.all_eq_true.1 hall.2 b hb)
  split at hparts
  · obtain ⟨-, rfl⟩ := Prod.mk.inj hparts
    exact List.forall_mem_cons.2 ⟨Or.inr (Or.inl rfl), hdigits⟩
  · obtain ⟨-, rfl⟩ := Prod.mk.inj hparts
    exact List.forall_mem_cons.2 ⟨Or.inr (Or.inr rfl), hdigits⟩
  · obtain ⟨-, rfl⟩ := Prod.mk.inj hparts
    exact hdigits

/-- A token that reads as a placeholder has digits between the marker and its end, perhaps with a sign
in front of them. -/
theorem eq_append_of_placeholderIndex? {token : Bytes} {n : Nat}
    (h : placeholderIndex? token = some n) : ∃ digits, token = marker ++ (digits ++ markerEnd) ∧
      ∀ b ∈ digits, isDigit b = true ∨ b = 43 ∨ b = 45 := by
  obtain ⟨rest, hrest, h⟩ := Option.bind_eq_some_iff.1 h
  obtain ⟨digits, hdigits, h⟩ := Option.bind_eq_some_iff.1 h
  obtain ⟨value, hvalue, -⟩ := Option.bind_eq_some_iff.1 h
  obtain ⟨r, hr, rfl⟩ := Option.map_eq_some_iff.1 hdigits
  have hreverse := congrArg List.reverse (eq_append_of_dropLead? hr)
  rw [List.reverse_reverse, List.reverse_append, List.reverse_reverse] at hreverse
  refine ⟨r.reverse, ?_, isDigit_or_sign_of_toInt64? hvalue⟩
  rw [eq_append_of_dropLead? hrest, hreverse]

/-- A separator and what follows it do not make a token. -/
theorem tokenAt?_append_separator {x : UInt8} (hx : isWord x = false) (t : LiteralTable)
    (a s : Bytes) : t.tokenAt? (a ++ x :: s) = t.tokenAt? a := by
  have hnone : ∀ {u : Bytes}, (∀ p, t.tokenAt? u ≠ some p) → t.tokenAt? u = none :=
    fun h => Option.eq_none_iff_forall_ne_some.2 h
  have hfound : ∀ ds r, (∀ b ∈ ds, isDigit b = true) →
      t.tokenAt? (marker ++ ds ++ markerEnd ++ (r ++ x :: s))
        = t.tokenAt? (marker ++ ds ++ markerEnd ++ r) := by
    intro ds r hds
    rw [tokenAt?_of_digits t hds, tokenAt?_of_digits t hds]
  cases ha : t.tokenAt? a with
  | some p =>
    obtain ⟨ds, r, rfl, hds, -⟩ := digits_of_tokenAt? ha
    rw [← ha, List.append_assoc _ r, hfound ds r hds]
  | none =>
    refine hnone fun p hp => ?_
    obtain ⟨ds, rest, hs, hds, -⟩ := digits_of_tokenAt? hp
    have hmem : x ∉ marker ++ ds ++ markerEnd := by
      intro hmem
      rw [isWord_of_mem_token hds x hmem] at hx
      exact Bool.noConfusion hx
    obtain ⟨r, rfl, -⟩ := prefix_of_separator hmem hs
    rw [List.append_assoc _ r, hfound ds r hds, ha] at hp
    cases hp

theorem length_le_of_tokenAt? {t : LiteralTable} {s : Bytes} {l : Literal} {n : Nat}
    (h : t.tokenAt? s = some (l, n)) : n ≤ s.length := by
  obtain ⟨ds, rest, rfl, hds, -⟩ := digits_of_tokenAt? h
  rw [tokenAt?_of_digits t hds, Option.map_eq_some_iff] at h
  obtain ⟨_, -, heq⟩ := h
  rw [← (Prod.mk.inj heq).2]
  exact (List.prefix_append _ rest).length_le

theorem restoreFrom_append_separator {x : UInt8} (hx : isWord x = false) (t : LiteralTable)
    (a s : Bytes) {skip : Nat} (hskip : skip ≤ a.length) :
    restoreFrom t skip (a ++ x :: s) = restoreFrom t skip a ++ x :: restore s t := by
  induction a generalizing skip with
  | nil =>
    obtain rfl := Nat.le_zero.1 hskip
    have hnone : t.tokenAt? (x :: s) = none := tokenAt?_append_separator hx t [] s
    exact restore_cons_of_none hnone
  | cons b a ih =>
    cases skip with
    | succ n =>
      rw [List.cons_append, restoreFrom, restoreFrom]
      exact ih (Nat.le_of_succ_le_succ hskip)
    | zero =>
      have htoken : t.tokenAt? (b :: (a ++ x :: s)) = t.tokenAt? (b :: a) :=
        tokenAt?_append_separator hx t (b :: a) s
      rw [List.cons_append, restoreFrom, restoreFrom, htoken]
      cases hp : t.tokenAt? (b :: a) with
      | none =>
        dsimp only
        rw [ih (Nat.zero_le _), List.cons_append]
      | some p =>
        obtain ⟨l, n⟩ := p
        have hn := length_le_of_tokenAt? hp
        rw [List.length_cons] at hn
        dsimp only
        rw [ih (by omega), List.append_assoc]

/-- What stands on either side of a separator is restored separately. -/
theorem restore_append_separator {x : UInt8} (hx : isWord x = false) (t : LiteralTable)
    (a s : Bytes) : restore (a ++ x :: s) t = restore a t ++ x :: restore s t :=
  restoreFrom_append_separator hx t a s (Nat.zero_le _)

/-- A text without the start of a placeholder stays as it is. -/
theorem restore_of_unmarked (t : LiteralTable) {s : Bytes} (h : containsText s marker = false) :
    restore s t = s := by
  induction s with
  | nil => rfl
  | cons b s ih =>
    rw [containsText, cut?] at h
    split at h
    · simp at h
    · rename_i hlead
      have hnone : t.tokenAt? (b :: s) = none := by
        simp [LiteralTable.tokenAt?, hlead]
      rw [Option.isSome_map] at h
      rw [restore_cons_of_none hnone, ih h]

theorem restore_unmarked_append {x : UInt8} (hx : isWord x = false) (t : LiteralTable) {a : Bytes}
    (ha : containsText a marker = false) (s : Bytes) :
    restore (a ++ x :: s) t = a ++ x :: restore s t := by
  rw [restore_append_separator hx, restore_of_unmarked t ha]

theorem restore_quoted {v : Bytes} (hv : containsText v marker = false) (t : LiteralTable)
    (s : Bytes) : restore (doubleQuote :: v ++ [doubleQuote] ++ s) t
      = doubleQuote :: v ++ [doubleQuote] ++ restore s t := by
  have hopen := restore_append_separator (x := doubleQuote) rfl t [] (v ++ doubleQuote :: s)
  rw [restore_unmarked_append rfl t hv] at hopen
  simpa using hopen

/-- A name without the start of a placeholder stays as it is rendered. -/
theorem restore_quoteIdent {c : Bytes} (hquote : doubleQuote ∉ c)
    (hc : containsText c marker = false) (t : LiteralTable) {x : UInt8} (hx : isWord x = false)
    (s : Bytes) : restore (quoteIdent c ++ x :: s) t = quoteIdent c ++ x :: restore s t := by
  have hseparator : restore (x :: s) t = x :: restore s t := restore_append_separator hx t [] s
  have hreserved : ∀ v ∈ reservedWords, containsText v marker = false := by decide +kernel
  rw [quoteIdent]
  split
  · rw [doubleQuoted, replaceAll_of_notMem hquote, restore_quoted hc, hseparator]
  split
  · rename_i hmem
    rw [restore_quoted (hreserved _ (List.contains_iff_mem.1 hmem)), hseparator]
  · exact restore_unmarked_append hx t hc s

/-- A text without an underscore starts no placeholder. -/
theorem containsText_marker_of_notMem {s : Bytes} (h : (95 : UInt8) ∉ s) :
    containsText s marker = false := by
  induction s with
  | nil => rfl
  | cons b s ih =>
    rw [List.mem_cons, not_or] at h
    have hlead : dropLead? marker (b :: s) = none := if_neg h.1
    rw [containsText, cut?, hlead, Option.isSome_map]
    exact ih h.2

/-- A text between two separators that holds no start of a placeholder. -/
def Fence (f : Bytes) : Prop :=
  ∃ x g y, f = x :: g ++ [y] ∧ isWord x = false ∧ isWord y = false ∧
    containsText g marker = false

/-- What stands on either side of a fence is restored separately. -/
theorem Fence.restore_append {f : Bytes} (h : Fence f) (t : LiteralTable) (a s : Bytes) :
    restore (a ++ f ++ s) t = restore a t ++ f ++ restore s t := by
  obtain ⟨x, g, y, rfl, hx, hy, hg⟩ := h
  have hspread : ∀ u v : Bytes, u ++ (x :: g ++ [y]) ++ v = u ++ x :: (g ++ y :: v) := by
    intro u v
    simp only [List.append_assoc, List.cons_append, List.nil_append]
  rw [hspread, hspread, restore_append_separator hx, restore_unmarked_append hy t hg]

end SqlDialect
