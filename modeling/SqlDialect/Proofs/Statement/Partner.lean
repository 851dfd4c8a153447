import Mathlib.Order.Bounds.Basic
import SqlDialect.Proofs.Statement.TopLevel

set_option autoImplicit false

/-! # The partner of a parenthesis

The depth of a place never drops below zero, whereas the search for the partner of a parenthesis counts
from that parenthesis on and knows nothing of what stands in front. Still both agree, on texts with stray
parentheses as well: as long as the partner is missing, the place is deeper than the parenthesis, so
that no closing parenthesis is without effect there (`parenScanners_agree`). -/

namespace SqlDialect

open Bytes

/-- The depth in effect in front of the byte at a place. -/
def depthAt (s : Bytes) (k : Nat) : Nat :=
  depthAfter 0 (s.take k)

/-! ## Depth behind a parenthesis -/

theorem depthAt_behind (a r : Bytes) (k : Nat) :
    depthAt (a ++ openParen :: r) (a.length + 1 + k) = depthAfter (depthAfter 0 a + 1) (r.take k) := by
  rw [depthAt, Nat.add_assoc, List.take_length_add_append, Nat.add_comm 1 k, List.take_succ_cons,
    depthAfter_append]
  rfl

theorem depthAt_length (a r : Bytes) : depthAt (a ++ r) a.length = depthAfter 0 a := by
  rw [depthAt, List.take_left]

theorem Balanced.depthAfter {s : Bytes} (h : Balanced s) (d : Nat) : depthAfter d s = d := by
  have hnest := depthAfter_of_nest (nest_add (balanced_iff.1 h) d)
  rwa [Nat.zero_add] at hnest

/-- Nothing that starts a text that is nested correctly leads below the depth in front of it. -/
theorem lt_depthAfter_of_nest {depth : Nat} {t u : Bytes} (h : nest 0 (t ++ u) = some depth) (d : Nat) :
    d < depthAfter (d + 1) t := by
  rw [nest_append] at h
  obtain ⟨e, ht, -⟩ := Option.bind_eq_some_iff.1 h
  have hnest := depthAfter_of_nest (nest_add ht (d + 1))
  rw [Nat.zero_add] at hnest
  omega

/-! ## The search -/

/-- The search finds the parenthesis that closes a balanced text. -/
theorem parts_of_scanParen {pos j : Nat} {r : Bytes}
    (h : scanParen (0 + 1 : Nat) pos r = some j) :
    ∃ inner rest, r = inner ++ closeParen :: rest ∧ Balanced inner ∧ j = pos + inner.length := by
  obtain ⟨i, rfl, hi⟩ := getElem?_of_scanParen h
  obtain ⟨hlt, hget⟩ := List.getElem?_eq_some_iff.1 hi
  obtain ⟨-, hnest⟩ := nest_of_scanParen h
  rw [Nat.add_sub_cancel_left] at hnest
  refine ⟨r.take i, r.drop (i + 1), ?_, balanced_iff.2 hnest, ?_⟩
  · rw [← hget, ← List.drop_eq_getElem_cons hlt, List.take_append_drop]
  · rw [List.length_take_of_le (Nat.le_of_lt hlt)]

/-- The search finds nothing only if nothing closes the parenthesis. -/
theorem exists_nest_of_scanParen {depth pos : Nat} {r : Bytes}
    (h : scanParen (depth + 1 : Nat) pos r = none) : ∃ depth', nest depth r = some depth' := by
  induction r generalizing depth pos with
  | nil => exact ⟨depth, rfl⟩
  | cons b r ih =>
    rw [scanParen] at h
    split at h
    · rename_i hopen
      subst hopen
      have hrest : scanParen (depth + 1 + 1 : Nat) (pos + 1) r = none := h
      exact ih hrest
    · rename_i hopen
      split at h
      · rename_i hclose
        subst hclose
        split at h
        · cases h
        · rename_i hone
          obtain ⟨depth, rfl⟩ : ∃ d, depth = d + 1 := Nat.exists_eq_add_one_of_ne_zero (by omega)
          rw [show ((depth + 1 + 1 : Nat) : Int) - 1 = ((depth + 1 : Nat) : Int) by omega] at h
          exact ih h
      · rename_i hclose
        rw [nest_cons_of_ne hopen hclose]
        exact ih h

theorem matchParen?_append (a r : Bytes) :
    matchParen? (a ++ openParen :: r) a.length = scanParen (0 + 1 : Nat) (a.length + 1) r := by
  rw [matchParen?, List.drop_left, scanParen, if_pos rfl]
  rfl

section

variable {a r : Bytes}

/-- The partner is the first place behind which the depth is what it was in front of the parenthesis, and
what lies between the two is balanced. -/
theorem isLeast_of_matchParen? {j : Nat}
    (h : matchParen? (a ++ openParen :: r) a.length = some j) :
    IsLeast {k | a.length < k ∧ k < (a ++ openParen :: r).length ∧
        depthAt (a ++ openParen :: r) (k + 1) = depthAt (a ++ openParen :: r) a.length} j ∧
      Balanced (((a ++ openParen :: r).take j).drop (a.length + 1)) := by
  rw [matchParen?_append] at h
  obtain ⟨inner, rest, rfl, hinner, rfl⟩ := parts_of_scanParen h
  refine ⟨⟨⟨by omega, ?_, ?_⟩, ?_⟩, ?_⟩
  · simp only [List.length_append, List.length_cons]
    omega
  · rw [Nat.add_assoc, depthAt_behind, depthAt_length, List.take_length_add_append, depthAfter_append,
      hinner.depthAfter]
    rfl
  · -- in front of the partner the depth is still above that of the parenthesis
    rintro k ⟨hk, -, hdepth⟩
    by_contra hlt
    obtain ⟨i, rfl⟩ := Nat.exists_eq_add_of_lt hk
    have hle : i + 1 ≤ inner.length := by omega
    have hnest := balanced_iff.1 hinner
    rw [← List.take_append_drop (i + 1) inner] at hnest
    have habove := lt_depthAfter_of_nest hnest (depthAfter 0 a)
    rw [show a.length + i + 1 + 1 = a.length + 1 + (i + 1) by omega, depthAt_behind, depthAt_length,
      List.take_append_of_le_length hle] at hdepth
    omega
  · have hcut : a ++ openParen :: (inner ++ closeParen :: rest)
        = (a ++ [openParen]) ++ inner ++ closeParen :: rest := by simp
    have hlen : a.length + 1 = (a ++ [openParen]).length := by simp
    rw [hcut, hlen, ← List.length_append, List.take_left, List.drop_left]
    exact hinner

/-- Behind a parenthesis without partner the depth stays above that of the parenthesis. -/
theorem depthAt_of_matchParen?_eq_none (h : matchParen? (a ++ openParen :: r) a.length = none)
    {k : Nat} (hk : a.length < k) :
    depthAt (a ++ openParen :: r) a.length < depthAt (a ++ openParen :: r) k := by
  rw [matchParen?_append] at h
  obtain ⟨depth, hnest⟩ := exists_nest_of_scanParen h
  obtain ⟨i, rfl⟩ := Nat.exists_eq_add_of_lt hk
  rw [← List.take_append_drop i r] at hnest
  rw [Nat.add_right_comm, depthAt_behind, depthAt_length]
  exact lt_depthAfter_of_nest hnest _

end

/-! ## Agreement -/

/-- The scanners of parentheses agree on every text: a list is the join of its parts and no part is cut
further, the partner of a parenthesis is where its depth ends, and changing nothing in the items of a list
gives the list. -/
theorem parenScanners_agree (s : Bytes) :
    join [comma] (splitTop s) = s ∧ (∀ part ∈ splitTop s, splitTop part = [part]) ∧
    (∀ o, s[o]? = some openParen →
      (∀ j, matchParen? s o = some j →
        IsLeast {k | o < k ∧ k < s.length ∧ depthAt s (k + 1) = depthAt s o} j ∧
          Balanced ((s.take j).drop (o + 1))) ∧
      (matchParen? s o = none → ∀ k, o < k → k ≤ s.length → depthAt s o < depthAt s k)) ∧
    mapItems id s = s := by
  refine ⟨join_splitTopFrom 0 s, fun part hpart => ?_, fun o ho => ?_, ?_⟩
  · exact splitTopFrom_of_lacksComma ((isParts_splitTop s).plain part hpart)
  · obtain ⟨hlt, hget⟩ := List.getElem?_eq_some_iff.1 ho
    obtain ⟨a, r, rfl, rfl⟩ : ∃ a r, s = a ++ openParen :: r ∧ a.length = o := by
      refine ⟨s.take o, s.drop (o + 1), ?_, List.length_take_of_le (Nat.le_of_lt hlt)⟩
      rw [← hget, ← List.drop_eq_getElem_cons hlt, List.take_append_drop]
    exact ⟨fun j hj => isLeast_of_matchParen? hj,
      fun hnone k hk _ => depthAt_of_matchParen?_eq_none hnone hk⟩
  · have hid : Spaced.map id = id := rfl
    rw [mapItems, hid, List.map_id, ofItems_items]

/-- A stray parenthesis in front, a closed pair, and one that nothing closes. -/
theorem parenScanners_agree_stray :
    ascii "f(a,(b))" ∈ splitTop (ascii "x),f(a,(b)),(c") ∧
      splitTop (ascii "f(a,(b))") = [ascii "f(a,(b))"] ∧
      (ascii "x),f(a,(b)),(c")[4]? = some openParen ∧
      matchParen? (ascii "x),f(a,(b)),(c") 4 = some 10 ∧
      IsLeast {k | 4 < k ∧ k < (ascii "x),f(a,(b)),(c").length ∧
        depthAt (ascii "x),f(a,(b)),(c") (k + 1) = depthAt (ascii "x),f(a,(b)),(c") 4} 10 ∧
      (ascii "x),f(a,(b)),(c")[12]? = some openParen ∧
      matchParen? (ascii "x),f(a,(b)),(c") 12 = none ∧
      depthAt (ascii "x),f(a,(b)),(c") 12 < depthAt (ascii "x),f(a,(b)),(c") 14 :=
  ⟨by decide, (parenScanners_agree _).2.1 _ (by decide : _ ∈ splitTop (ascii "x),f(a,(b)),(c")),
    by decide, by decide, (((parenScanners_agree _).2.2.1 4 (by decide)).1 10 (by decide)).1,
    by decide, by decide,
    ((parenScanners_agree _).2.2.1 12 (by decide)).2 (by decide) 14 (by decide) (by decide)⟩

end SqlDialect
