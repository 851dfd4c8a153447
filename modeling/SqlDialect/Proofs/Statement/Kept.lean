import SqlDialect.Proofs.Text.Bytes
import SqlDialect.Proofs.Text.Glyphs
import SqlDialect.Statement.Clause

set_option autoImplicit false

/-! # The bytes that cutting keeps

When a text is trimmed, and when a list is cut at its commas and put together again, nothing is lost
but blanks, semicolons and commas. So the bytes of any other sort, which `List.filter` picks out, are
the same before and after. -/

namespace SqlDialect

open Bytes

variable {q : UInt8 → Bool}

/-! ## Trimming -/

theorem filter_dropTailWhile {p : UInt8 → Bool} (hp : ∀ b, p b = true → q b = false) (s : Bytes) :
    (dropTailWhile p s).filter q = s.filter q := by
  have hnone : (s.drop (dropTailWhile p s).length).filter q = [] := by
    rw [List.filter_eq_nil_iff]
    intro b hb
    rw [hp b (of_mem_drop_dropTailWhile hb)]
    exact Bool.false_ne_true
  have hcut := congrArg (List.filter q) (dropTailWhile_append_drop p s)
  rwa [List.filter_append, hnone, List.append_nil] at hcut

theorem filter_takeWhile {p : UInt8 → Bool} (hp : ∀ b, p b = true → q b = false) (s : Bytes) :
    (s.takeWhile p).filter q = [] := by
  rw [List.filter_eq_nil_iff]
  intro b hb
  rw [hp b (List.all_eq_true.1 List.all_takeWhile b hb)]
  exact Bool.false_ne_true

theorem filter_trimRight (hq : ∀ b, isBlank b = true → q b = false) (s : Bytes) :
    (trimRight s).filter q = s.filter q :=
  filter_dropTailWhile hq s

theorem filter_trimLeft (hq : ∀ b, isBlank b = true → q b = false) (s : Bytes) :
    (trimLeft s).filter q = s.filter q := by
  have hcut := congrArg (List.filter q) (List.takeWhile_append_dropWhile (p := isBlank) (l := s))
  rwa [List.filter_append, filter_takeWhile hq, List.nil_append] at hcut

theorem filter_trimStatementEnd (hq : ∀ b, (isBlank b || b == 59) = true → q b = false) (s : Bytes) :
    (trimStatementEnd s).1.filter q = s.filter q :=
  filter_dropTailWhile hq s

/-- White space holds no byte below 128 that is not white space itself. -/
theorem filter_trimSpace (hq : ∀ b, q b = true → b < 128 ∧ isSpace b.toNat = false) (s : Bytes) :
    (trimSpace s).filter q = s.filter q := by
  obtain ⟨lead, inner, trail, hglyphs, htrim, hlead, htrail⟩ := trimSpace_glyphs s
  have hspace : ∀ gs : List Glyph, (∀ g ∈ gs, g ∈ Utf8.glyphs s ∧ isSpace g.code = true) →
      (Utf8.ofGlyphs gs).filter q = [] := by
    intro gs hgs
    rw [List.filter_eq_nil_iff]
    intro b hb hkept
    obtain ⟨g, hg, hbg⟩ := List.mem_flatMap.1 hb
    obtain ⟨hmem, hcode⟩ := hgs g hg
    rw [Utf8.code_of_mem_raw (hq b hkept).1 hmem hbg, (hq b hkept).2] at hcode
    exact Bool.noConfusion hcode
  have hleft := hspace lead fun g hg => ⟨by simp [hglyphs, hg], hlead g hg⟩
  have hright := hspace trail fun g hg => ⟨by simp [hglyphs, hg], htrail g hg⟩
  have hs : s = Utf8.ofGlyphs lead ++ trimSpace s ++ Utf8.ofGlyphs trail := by
    rw [htrim, ← Utf8.ofGlyphs_glyphs s, hglyphs]
    simp [Utf8.ofGlyphs]
  have hall := congrArg (List.filter q) hs
  rw [List.filter_append, List.filter_append, hleft, hright, List.nil_append, List.append_nil] at hall
  exact hall.symm

/-! ## Lists -/

theorem filter_singleton_of_eq_false {b : UInt8} (hb : q b = false) : [b].filter q = [] := by
  rw [List.filter_cons, hb]
  rfl

theorem filter_join {sep : Bytes} (hsep : sep.filter q = []) (parts : List Bytes) :
    (join sep parts).filter q = parts.flatMap (List.filter q) := by
  rw [join]
  induction parts with
  | nil => rfl
  | cons part parts ih =>
    cases parts with
    | nil => simp
    | cons next parts =>
      rw [List.intercalate_cons_cons, List.filter_append, List.filter_append, hsep, ih,
        List.append_nil]
      rfl

theorem flatMap_filter_splitTopFrom (hq : q comma = false) (depth : Nat) (s : Bytes) :
    (splitTopFrom depth s).flatMap (List.filter q) = s.filter q := by
  have hcons : ∀ b parts, (consPart b parts).flatMap (List.filter q)
      = [b].filter q ++ parts.flatMap (List.filter q) := by
    intro b parts
    cases parts with
    | nil => simp [consPart]
    | cons part parts =>
      rw [consPart, List.flatMap_cons, List.flatMap_cons, ← List.append_assoc, ← List.filter_append]
      rfl
  induction s generalizing depth with
  | nil => rfl
  | cons b s ih =>
    have hsplit : (b :: s).filter q = [b].filter q ++ s.filter q := List.filter_append [b] s
    rw [splitTopFrom, hsplit]
    split
    · rename_i hcomma
      rw [hcomma.1, List.flatMap_cons, ih, filter_singleton_of_eq_false hq]
      rfl
    · rw [hcons, ih]

/-- Separating a part of a list from the blanks around it loses none of its other bytes. -/
theorem filter_ofText (hq : ∀ b, isBlank b = true → q b = false) (t : Bytes) :
    (Spaced.ofText t).text.filter q = t.filter q ∧ (Spaced.ofText t).core.filter q = t.filter q := by
  have hcore : (Spaced.ofText t).core.filter q = t.filter q := by
    rw [Spaced.ofText, filter_trimRight hq, filter_trimLeft hq]
  have hlead : (Spaced.ofText t).lead.filter q = [] := filter_takeWhile hq t
  have htrail : (Spaced.ofText t).trail.filter q = [] := by
    rw [List.filter_eq_nil_iff]
    intro b hb
    rw [hq b (of_mem_drop_dropTailWhile hb)]
    exact Bool.false_ne_true
  refine ⟨?_, hcore⟩
  rw [Spaced.text, List.filter_append, List.filter_append, hlead, hcore, htrail, List.append_nil]
  rfl

theorem flatMap_filter_items (hq : ∀ b, isBlank b = true → q b = false) (hcomma : q comma = false)
    (list : Bytes) : (items list).flatMap (fun p => p.text.filter q) = list.filter q := by
  rw [items, List.flatMap_map]
  simp only [(filter_ofText hq _).1]
  exact flatMap_filter_splitTopFrom hcomma 0 list

theorem filter_ofItems (hcomma : q comma = false) (ps : List Spaced) :
    (ofItems ps).filter q = ps.flatMap fun p => p.text.filter q := by
  rw [ofItems, filter_join (filter_singleton_of_eq_false hcomma), List.flatMap_map]

end SqlDialect
