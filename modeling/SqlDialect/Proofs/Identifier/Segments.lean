import SqlDialect.Proofs.Identifier.TableName

set_option autoImplicit false

/-! # Qualified names

A qualified name is written segment by segment, each between backticks, and is rendered segment by
segment. What is rendered is read once more where it names a table or a column: a name that starts with
a double quote is kept, and any other is cut at its dots only if there is no double quote in it. So
a rendered name stays as it is if its first segment is in quotes, or if none of them is
(`StaysQualified`). Any other is taken for a single name, and its dots come between quotes. -/

namespace SqlDialect

open Bytes

/-- A segment without the bytes that delimit segments. -/
structure PlainSegment (s : Bytes) : Prop where
  backtick_notMem : backtick ∉ s
  dot_notMem : (46 : UInt8) ∉ s
  quote_notMem : doubleQuote ∉ s

/-- A qualified name with each of its segments between backticks. -/
def inBackticks (segments : List Bytes) : Bytes :=
  join [46] (segments.map fun s => backtick :: (s ++ [backtick]))

/-- A qualified name with each of its segments as it appears in the output. -/
def qualified (segments : List Bytes) : Bytes :=
  join [46] (segments.map quoteIdent)

/-- The segment appears between double quotes in the output. -/
def IsQuoted (s : Bytes) : Prop :=
  (quoteIdent s).head? = some doubleQuote

instance (s : Bytes) : Decidable (IsQuoted s) :=
  inferInstanceAs (Decidable (_ = _))

/-- The first segment is in quotes, or none of them is. -/
def StaysQualified (segments : List Bytes) : Prop :=
  (∃ s ∈ segments.head?, IsQuoted s) ∨ ∀ s ∈ segments, ¬ IsQuoted s

instance (segments : List Bytes) : Decidable (StaysQualified segments) :=
  inferInstanceAs (Decidable (_ ∨ _))

/-! ## Segments -/

/-- A segment that gets no quotes is not changed. -/
theorem quoteIdent_of_not_isQuoted {s : Bytes} (h : ¬ IsQuoted s) : quoteIdent s = s := by
  rw [IsQuoted] at h
  unfold quoteIdent at h ⊢
  split
  · rename_i hquote
    rw [if_pos hquote] at h
    exact absurd rfl h
  · rename_i hquote
    rw [if_neg hquote] at h
    split
    · rename_i hreserved
      rw [if_pos hreserved] at h
      exact absurd rfl h
    · rfl

theorem ne_nil_of_not_isQuoted {s : Bytes} (h : ¬ IsQuoted s) : s ≠ [] := by
  rintro rfl
  exact h rfl

/-- A name with a dot in it is put between quotes as it is. -/
theorem quoteIdent_of_dot_mem {s : Bytes} (h : (46 : UInt8) ∈ s) : quoteIdent s = doubleQuoted s := by
  have hquote : needsQuoting s = true := by
    by_contra hbare
    have hbyte := isNameByte_of_needsQuoting (Bool.eq_false_iff.2 hbare) _ h
    exact absurd hbyte (by decide)
  rw [quoteIdent, hquote, Bool.or_true]
  rfl

/-! ## Joined segments -/

theorem splitOnByte_join {sep : UInt8} {parts : List Bytes} (hne : parts ≠ [])
    (h : ∀ part ∈ parts, sep ∉ part) : splitOnByte sep (join [sep] parts) = parts := by
  induction parts with
  | nil => exact absurd rfl hne
  | cons part parts ih =>
    obtain ⟨hpart, hparts⟩ := List.forall_mem_cons.1 h
    cases parts with
    | nil =>
      have hjoin : join [sep] [part] = part := by simp [join]
      rw [hjoin, splitOnByte_of_notMem hpart]
    | cons next parts =>
      rw [join_cons_cons, List.singleton_append, splitOnByte_append_cons hpart,
        ih (List.cons_ne_nil _ _) hparts]

/-- The names between backticks are rendered one by one. -/
theorem replaceBackticks_inBackticks {segments : List Bytes} (h : ∀ s ∈ segments, backtick ∉ s) :
    replaceBackticks (inBackticks segments) = qualified segments := by
  rw [inBackticks, qualified]
  induction segments with
  | nil => exact replaceBackticks_nil
  | cons s segments ih =>
    obtain ⟨hs, hsegments⟩ := List.forall_mem_cons.1 h
    cases segments with
    | nil =>
      have hname := replaceBackticks_name hs []
      rw [replaceBackticks_nil] at hname
      simpa [join] using hname
    | cons next segments =>
      have hdot : ∀ r : Bytes, replaceBackticks (46 :: r) = 46 :: replaceBackticks r :=
        replaceBackticks_append (a := [46]) (by decide)
      have hrest := ih hsegments
      rw [List.map_cons, List.map_cons] at hrest
      rw [List.map_cons, List.map_cons, join_cons_cons, List.map_cons, List.map_cons, join_cons_cons,
        ← hrest, List.singleton_append, List.singleton_append, ← hdot, List.cons_append,
        List.append_assoc]
      exact replaceBackticks_name hs _

/-- The first segment opens the name. -/
theorem head?_qualified {s : Bytes} {segments : List Bytes} :
    (qualified (s :: segments)).head? = (quoteIdent s).head? := by
  have hne : quoteIdent s ≠ [] := by
    by_cases h : IsQuoted s
    · intro hnil
      rw [IsQuoted, hnil] at h
      cases h
    · rw [quoteIdent_of_not_isQuoted h]
      exact ne_nil_of_not_isQuoted h
  rw [qualified, List.map_cons]
  cases segments with
  | nil => simp [join]
  | cons next segments => rw [List.map_cons, join_cons_cons, head?_append_left hne]

theorem mem_qualified_of_mem {s : Bytes} {segments : List Bytes} (hs : s ∈ segments) {b : UInt8}
    (hb : b ∈ quoteIdent s) : b ∈ qualified segments := by
  obtain ⟨before, after, hjoin, -⟩ := join_of_mem [46] (List.mem_map_of_mem (f := quoteIdent) hs)
  rw [qualified, hjoin]
  exact List.mem_append_left _ (List.mem_append_right _ hb)

theorem dot_mem_qualified {s next : Bytes} {segments : List Bytes} :
    (46 : UInt8) ∈ qualified (s :: next :: segments) := by
  rw [qualified, List.map_cons, List.map_cons, join_cons_cons]
  exact List.mem_append_right _ List.mem_cons_self

/-- A name without any quotes is made of the segments themselves. -/
theorem qualified_of_forall_not_isQuoted {segments : List Bytes}
    (h : ∀ s ∈ segments, ¬ IsQuoted s) : qualified segments = join [46] segments := by
  rw [qualified, List.map_congr_left fun s hs => quoteIdent_of_not_isQuoted (h s hs), List.map_id']

/-! ## Rendered names -/

/-- A name without any quotes is cut at its dots, if it has some, and each segment stays. -/
theorem normalizeName_of_forall_not_isQuoted {segments : List Bytes} (hne : segments ≠ [])
    (hplain : ∀ s ∈ segments, PlainSegment s) (h : ∀ s ∈ segments, ¬ IsQuoted s) :
    normalizeName (qualified segments) = qualified segments := by
  have hbare := qualified_of_forall_not_isQuoted h
  rw [normalizeName]
  split
  · rfl
  split
  · rw [hbare, splitOnByte_join hne fun s hs => (hplain s hs).dot_notMem, ← hbare, qualified]
  · rename_i hwhole
    obtain ⟨s, later, rfl⟩ := List.exists_cons_of_ne_nil hne
    cases later with
    | nil =>
      have hs := List.forall_mem_singleton.1 h
      have hself : qualified [s] = s := by rw [hbare]; simp [join]
      rw [hself, quoteIdent_of_not_isQuoted hs]
    | cons next segments =>
      -- a name of several segments has a dot, and no quote stands in any of them
      have hquotes : doubleQuote ∉ qualified (s :: next :: segments) := by
        rw [hbare]
        intro hmem
        rcases mem_of_mem_join hmem with hdot | ⟨part, hpart, hmem⟩
        · exact absurd hdot (by decide)
        · exact (hplain part hpart).quote_notMem hmem
      simp [dot_mem_qualified, hquotes] at hwhole

/-- A name that opens with a bare segment and has quotes further on is taken for a single name. -/
theorem normalizeName_of_not_staysQualified {segments : List Bytes}
    (h : ¬ StaysQualified segments) :
    normalizeName (qualified segments) = doubleQuoted (qualified segments) := by
  rw [StaysQualified, not_or] at h
  obtain ⟨hfirst, hlater⟩ := h
  push Not at hlater
  obtain ⟨q, hq, hquoted⟩ := hlater
  obtain ⟨s, segments, rfl⟩ := List.exists_cons_of_ne_nil (List.ne_nil_of_mem hq)
  have hs : ¬ IsQuoted s := fun hs => hfirst ⟨s, rfl, hs⟩
  have hrest : q ∈ segments := by
    rcases List.mem_cons.1 hq with rfl | hq
    · exact absurd hquoted hs
    · exact hq
  obtain ⟨next, segments, rfl⟩ := List.exists_cons_of_ne_nil (List.ne_nil_of_mem hrest)
  have hdot : (46 : UInt8) ∈ qualified (s :: next :: segments) := dot_mem_qualified
  have hempty : (qualified (s :: next :: segments)).isEmpty = false :=
    List.isEmpty_eq_false_iff.2 (List.ne_nil_of_mem hdot)
  have hhead : ((qualified (s :: next :: segments)).head? == some doubleQuote) = false := by
    rw [head?_qualified]
    exact beq_eq_false_iff_ne.2 hs
  have hquote : doubleQuote ∈ qualified (s :: next :: segments) :=
    mem_qualified_of_mem hq (List.mem_of_mem_head? hquoted)
  rw [normalizeName, hempty, hhead, not_isPlaceholder_of_dot hdot, quoteIdent_of_dot_mem hdot]
  simp [hquote]

/-- **Qualified names are rendered segment by segment and stay rendered**, if the first segment gets
quotes or none does; any other name comes between quotes as a whole. -/
theorem normalizeName_inBackticks {segments : List Bytes} (hne : segments ≠ [])
    (hplain : ∀ s ∈ segments, PlainSegment s) :
    (StaysQualified segments →
      normalizeName (replaceBackticks (inBackticks segments)) = qualified segments ∧
      normalizeName (qualified segments) = qualified segments) ∧
    (¬ StaysQualified segments →
      normalizeName (replaceBackticks (inBackticks segments))
        = doubleQuoted (qualified segments)) := by
  rw [replaceBackticks_inBackticks fun s hs => (hplain s hs).backtick_notMem]
  refine ⟨fun h => ?_, normalizeName_of_not_staysQualified⟩
  have hstays : normalizeName (qualified segments) = qualified segments := by
    rcases h with ⟨s, hs, hquoted⟩ | hbare
    · obtain ⟨rest, rfl⟩ := List.head?_eq_some_iff.1 hs
      exact normalizeName_of_quoted (head?_qualified.trans hquoted)
    · exact normalizeName_of_forall_not_isQuoted hne hplain hbare
  exact ⟨hstays, hstays⟩

/-- A reserved word in front, and names that need no quotes behind it. -/
theorem normalizeName_inBackticks_order :
    let segments := [ascii "order", ascii "my table", ascii "a", []]
    (segments ≠ [] ∧ (∀ s ∈ segments, PlainSegment s) ∧ StaysQualified segments) ∧
    normalizeName (replaceBackticks (ascii "`order`.`my table`.`a`.``"))
      = ascii "\"order\".\"my table\".a.\"\"" := by
  intro segments
  have hplain : ∀ s ∈ segments, PlainSegment s := by
    intro s hs
    have hall : ∀ s ∈ segments, backtick ∉ s ∧ (46 : UInt8) ∉ s ∧ doubleQuote ∉ s := by decide
    obtain ⟨hbacktick, hdot, hquote⟩ := hall s hs
    exact ⟨hbacktick, hdot, hquote⟩
  have hstays : StaysQualified segments := by decide +kernel
  refine ⟨⟨by decide, hplain, hstays⟩, ?_⟩
  exact ((normalizeName_inBackticks (by decide) hplain).1 hstays).1.trans (by decide +kernel)

/-- A bare schema in front of a quoted table: the name is quoted as if it were one. -/
theorem normalizeName_schema_order :
    normalizeName (replaceBackticks (inBackticks [ascii "s", ascii "order"]))
        = ascii "\"s.\"\"order\"\"\"" ∧
      qualified [ascii "s", ascii "order"] = ascii "s.\"order\"" := by
  repeat rw [ascii_ofList]
  decide +kernel

end SqlDialect
