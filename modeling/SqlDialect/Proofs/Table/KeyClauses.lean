import SqlDialect.Proofs.Pattern.Ends
import SqlDialect.Proofs.Pattern.Preference
import SqlDialect.Table.Index

set_option autoImplicit false

/-! # Key clauses

A key clause has a kind, such as UNIQUE, or the word KEY or INDEX, or both; then come its name, if it
has one, and its columns in parentheses. In front there may be the word CONSTRAINT and the name of
the constraint. Here this is said by patterns that leave no choice between the words
(`SaysKind`, `SaysKey`), and what the matcher finds is exactly that: an item is a key clause if it is
written as one, and its kind is the one that is written (`isSome_keyClause?_iff`, `saysKind_iff`).

Two things are read in another way (`ReadsPlainly`). Where a constraint has no name, the word behind
CONSTRAINT is taken for it, although it is the first word of the key (`LacksName`). And where anything
but a name of one word stands between the words of a key and its columns, such as a name in quotes with
a blank in it, no key clause is found. -/

namespace SqlDialect

open Bytes Pattern

/-! ## How key clauses are written -/

/-- The words for the kinds of keys. -/
def keyKinds : List String :=
  ["UNIQUE", "FULLTEXT", "SPATIAL"]

/-- One of the kinds. -/
def kindWord (kinds : List String) : Pattern :=
  .seqs [.group 2 (.keywords kinds), .wordEdge, .blanks]

/-- KEY or INDEX. -/
def keyWord : Pattern :=
  .seqs [.group 3 (.keywords ["KEY", "INDEX"]), .wordEdge, .blanks]

/-- The name of a key, if it has one, and the parenthesis in front of its columns. The name has no blank
and no parenthesis. -/
def keyEnd : Pattern :=
  .seqs [.group 4 (.many (.one (CharSet.blank.union (CharSet.ofString "(")).compl)), .blanks,
    .text "("]

/-- A clause with one of the kinds, such as `UNIQUE KEY k (`. -/
def kindClause (kinds : List String) : Pattern :=
  .seq (kindWord kinds) (.seq (.opt keyWord) keyEnd)

/-- A clause without a kind, such as `KEY k (`. -/
def plainClause : Pattern :=
  .seq keyWord keyEnd

/-- CONSTRAINT and the name of the constraint. -/
def namedLead : Pattern :=
  .seqs [.keyword "CONSTRAINT", .blanks1, .group 1 nameUpToParen, .blanks1]

/-- CONSTRAINT without a name. -/
def unnamedLead : Pattern :=
  .seqs [.keyword "CONSTRAINT", .blanks1]

/-- The item is written as a key clause with one of the kinds. -/
def SaysKind (kinds : List String) (item : Bytes) : Prop :=
  (Pattern.seq .textStart (.seq constraintLead (kindClause kinds))).occursIn item = true

/-- The item is written as a key clause without a kind. -/
def SaysKey (item : Bytes) : Prop :=
  (Pattern.seq .textStart (.seq constraintLead plainClause)).occursIn item = true

/-- The item is written as a key clause. -/
def IsKeyClause (item : Bytes) : Prop :=
  SaysKind keyKinds item ∨ SaysKey item

/-- The item is written as a key clause behind CONSTRAINT, without a name between them. -/
def LacksName (item : Bytes) : Prop :=
  (Pattern.seq .textStart (.seq unnamedLead (kindClause keyKinds))).occursIn item = true ∨
    (Pattern.seq .textStart (.seq unnamedLead plainClause)).occursIn item = true

/-- The item opens with the words of a key, whatever follows them. -/
def OpensKey (item : Bytes) : Prop :=
  (Pattern.seqs [.textStart, constraintLead, .keywords (keyKinds ++ ["KEY", "INDEX"]),
    .one (CharSet.blank.union (CharSet.ofString "("))]).occursIn item = true

/-- The item is about a key. -/
def WritesKey (item : Bytes) : Prop :=
  IsKeyClause item ∨ OpensKey item

/-- If the item is about a key, it is written as a key clause, and its constraint has a name. -/
structure ReadsPlainly (item : Bytes) : Prop where
  named : ¬ LacksName item
  clause : OpensKey item → IsKeyClause item

instance (kinds : List String) (item : Bytes) : Decidable (SaysKind kinds item) :=
  inferInstanceAs (Decidable (_ = true))

instance (item : Bytes) : Decidable (SaysKey item) :=
  inferInstanceAs (Decidable (_ = true))

instance (item : Bytes) : Decidable (IsKeyClause item) :=
  inferInstanceAs (Decidable (_ ∨ _))

instance (item : Bytes) : Decidable (LacksName item) :=
  inferInstanceAs (Decidable (_ ∨ _))

instance (item : Bytes) : Decidable (OpensKey item) :=
  inferInstanceAs (Decidable (_ = true))

instance (item : Bytes) : Decidable (WritesKey item) :=
  inferInstanceAs (Decidable (_ ∨ _))

instance (item : Bytes) : Decidable (ReadsPlainly item) :=
  decidable_of_iff (¬ LacksName item ∧ (OpensKey item → IsKeyClause item))
    ⟨fun h => ⟨h.1, h.2⟩, fun h => ⟨h.1, h.2⟩⟩

theorem ReadsPlainly.isKeyClause_iff {item : Bytes} (h : ReadsPlainly item) :
    IsKeyClause item ↔ WritesKey item :=
  ⟨Or.inl, fun hwrites => hwrites.elim id h.clause⟩

/-! ## Behind the name of a constraint -/

/-- What the matcher looks for behind CONSTRAINT and its name. -/
def keyRest : Pattern :=
  .seq (.opt (kindWord keyKinds)) (.seq (.opt keyWord) keyEnd)

theorem keyClausePattern_eq :
    keyClausePattern = .seq .textStart (.seq constraintLead keyRest) :=
  rfl

section

variable {c c' c₁ c₂ r : Cursor} {clause : Pattern} {kinds : List String}

theorem leads_kindWord (hkinds : kinds ≠ []) (h : Leads (kindWord kinds) c c₁) :
    ∃ kind ∈ kinds, ∃ d, Leads (keyword kind) c d ∧ Leads (kindWord [kind]) c c₁ ∧
      c₁.groups.find? (·.number == 2) = some ⟨2, c.taken, d.taken - c.taken⟩ := by
  obtain ⟨d', hgroup, hrest⟩ := leads_seqs_cons.1 h
  obtain ⟨d, hkeys, rfl⟩ := leads_group.1 hgroup
  obtain ⟨kind, hkind, hkey⟩ := leads_keywords hkinds hkeys
  refine ⟨kind, hkind, d, hkey, leads_seqs_cons.2 ⟨_, .group hkey, hrest⟩, ?_⟩
  rw [hrest.find?_groups rfl]
  rfl

theorem kindClause_mono {kinds' : List String} (hkinds : kinds ≠ []) (hsub : kinds ⊆ kinds')
    (h : Leads (kindClause kinds) c c') : Leads (kindClause kinds') c c' := by
  obtain ⟨c₁, hword, hrest⟩ := leads_seq.1 h
  obtain ⟨d', hgroup, hedge⟩ := leads_seqs_cons.1 hword
  obtain ⟨d, hkeys, rfl⟩ := leads_group.1 hgroup
  obtain ⟨kind, hkind, hkey⟩ := leads_keywords hkinds hkeys
  have hmore := leads_keywords_of_mem (hsub hkind) hkey
  exact .seq (leads_seqs_cons.2 ⟨_, .group hmore, hedge⟩) hrest

theorem isSome_find?_keyWord (h : Leads keyWord c c₁) :
    (c₁.groups.find? (·.number == 3)).isSome := by
  obtain ⟨d', hgroup, hrest⟩ := leads_seqs_cons.1 h
  obtain ⟨d, -, rfl⟩ := leads_group.1 hgroup
  rw [hrest.find?_groups rfl]
  rfl

/-- The clause that was found: with a kind, or else with KEY or INDEX, if it is written so. -/
inductive ClauseFound (c r : Cursor) : Prop where
  | kind (kind : String) (hkind : kind ∈ keyKinds) (d : Cursor) (hword : Leads (keyword kind) c d)
      (hclause : Leads (kindClause [kind]) c r)
      (hfound : r.groups.find? (·.number == 2) = some ⟨2, c.taken, d.taken - c.taken⟩)
  | key (hkind : ∀ c', ¬ Leads (kindClause keyKinds) c c') (hclause : Leads plainClause c r)
      (hnone : r.groups.find? (·.number == 2) = none)
      (hfound : (r.groups.find? (·.number == 3)).isSome)
  | neither (hkind : ∀ c', ¬ Leads (kindClause keyKinds) c c')
      (hkey : ∀ c', ¬ Leads plainClause c c')
      (hnone : r.groups.find? (·.number == 2) = none)
      (hnone' : r.groups.find? (·.number == 3) = none)

/-- The words of the clause are found wherever they are written. -/
theorem clauseFound_of_run (h : keyRest.run c some = some r)
    (h₂ : c.groups.find? (·.number == 2) = none) (h₃ : c.groups.find? (·.number == 3) = none) :
    ClauseFound c r := by
  rcases run_opt_cases h with hkind | ⟨hkind, h⟩
  · obtain ⟨c₁, hword, hrest⟩ := leads_seq.1 (leads_of_run hkind)
    obtain ⟨kind, hmem, d, hkey, hone, hfound⟩ := leads_kindWord (by decide) hword
    refine .kind kind hmem d hkey (.seq hone hrest) ?_
    rw [hrest.find?_groups (n := 2) rfl, hfound]
  rcases run_opt_cases h with hkey | ⟨hkey, h⟩
  · obtain ⟨c₁, hword, hend⟩ := leads_seq.1 (leads_of_run hkey)
    refine .key hkind (.seq hword hend) ?_ ?_
    · rw [hend.find?_groups (n := 2) rfl, hword.find?_groups rfl, h₂]
    · rw [hend.find?_groups (n := 3) rfl]
      exact isSome_find?_keyWord hword
  · have hend := leads_of_run h
    refine .neither hkind hkey ?_ ?_
    · rw [hend.find?_groups (n := 2) rfl, h₂]
    · rw [hend.find?_groups (n := 3) rfl, h₃]

/-! ## The words of a clause -/

/-- The text starts with a byte that is neither a blank nor a parenthesis. -/
def OpensWord (s : Bytes) : Prop :=
  ∃ x u, s = x :: u ∧ CharSet.blank.contains x.toNat = false ∧ x ≠ openParen

theorem opensWord_of_keyword {word : String} (hword : IsKeyword word)
    (h : Leads (keyword word) c c') : OpensWord c.rest := by
  obtain ⟨t, htakes, hne, ht⟩ := leads_keyword_bytes hword h
  obtain ⟨x, u, rfl⟩ := List.exists_cons_of_ne_nil hne
  refine ⟨x, u ++ c'.rest, htakes.rest, ?_, ?_⟩
  · rw [Bool.eq_false_iff]
    intro hblank
    have hx := ht x List.mem_cons_self (ascii_of_blank hblank).1
    exact Bool.noConfusion ((ascii_of_blank hblank).2.2.symm.trans hx)
  · rintro rfl
    exact Bool.noConfusion (ht openParen List.mem_cons_self (by decide))

/-- A clause that starts with one of the words for kinds, or with KEY or INDEX. -/
def StartsKey (clause : Pattern) : Prop :=
  ∀ c c', Leads clause c c' →
    ∃ word ∈ keyKinds ++ ["KEY", "INDEX"], ∃ d, Leads (keyword word) c d

theorem startsKey_kindClause (hkinds : kinds ≠ []) (hsub : kinds ⊆ keyKinds) :
    StartsKey (kindClause kinds) := by
  intro c c' h
  obtain ⟨c₁, hword, -⟩ := leads_seq.1 h
  obtain ⟨kind, hkind, d, hkey, -⟩ := leads_kindWord hkinds hword
  exact ⟨kind, List.mem_append_left _ (hsub hkind), d, hkey⟩

theorem startsKey_plainClause : StartsKey plainClause := by
  intro c c' h
  obtain ⟨c₁, hword, -⟩ := leads_seq.1 h
  obtain ⟨d', hgroup, -⟩ := leads_seqs_cons.1 hword
  obtain ⟨d, hkeys, -⟩ := leads_group.1 hgroup
  obtain ⟨word, hmem, hkey⟩ := leads_keywords (by decide) hkeys
  exact ⟨word, List.mem_append_right _ hmem, d, hkey⟩

theorem StartsKey.opensWord (h : StartsKey clause) (hleads : Leads clause c c') :
    OpensWord c.rest := by
  obtain ⟨word, hword, d, hkey⟩ := h _ _ hleads
  have hwords : ∀ word ∈ keyKinds ++ ["KEY", "INDEX"], IsKeyword word := by decide
  exact opensWord_of_keyword (hwords word hword) hkey

/-- No such clause starts with CONSTRAINT. -/
theorem StartsKey.not_leads_constraint (h : StartsKey clause) (hleads : Leads clause c c')
    (d : Cursor) : ¬ Leads (keyword "CONSTRAINT") c d := by
  obtain ⟨word, hword, d', hkey⟩ := h _ _ hleads
  intro hconstraint
  have hwords : ∀ word ∈ keyKinds ++ ["KEY", "INDEX"], (∀ ch ∈ word.toList, ch.toNat < 128) ∧
      word ≠ "" ∧ ∀ ch ∈ "CONSTRAINT".toList.head?, ∀ ch' ∈ word.toList.head?,
        lowerByte (charByte ch) ≠ lowerByte (charByte ch') := by decide
  obtain ⟨hascii, hne, hheads⟩ := hwords word hword
  exact not_leads_keyword_of_head (by decide) hascii (by decide) hheads hconstraint hne hkey

/-- Only one of the kinds stands in a place. -/
theorem kind_unique {kind kind' : String} (hkind : kind ∈ keyKinds) (hkind' : kind' ∈ keyKinds)
    (h : Leads (keyword kind) c c₁) (h' : Leads (keyword kind') c c₂) : kind = kind' := by
  have hapart : ∀ a ∈ keyKinds, ∀ b ∈ keyKinds, a = b ∨
      (∀ ch ∈ a.toList, ch.toNat < 128) ∧ a ≠ "" ∧ (AsciiHead a ∨ AsciiHead b) ∧
        ∀ ch ∈ a.toList.head?, ∀ ch' ∈ b.toList.head?,
          lowerByte (charByte ch) ≠ lowerByte (charByte ch') := by decide
  rcases hapart kind hkind kind' hkind' with heq | ⟨hascii, hne, hhead, hheads⟩
  · exact heq
  rcases hapart kind' hkind' kind hkind with heq | ⟨hascii', hne', -, hheads'⟩
  · exact heq.symm
  rcases hhead with hhead | hhead
  · exact absurd h' (not_leads_keyword_of_head hascii hascii' hhead hheads h hne')
  · exact absurd h (not_leads_keyword_of_head hascii' hascii hhead hheads' h' hne)

/-! ## In front of the words -/

/-- CONSTRAINT stands there with a name or without one. -/
def someLead : Pattern :=
  .seqs [.keyword "CONSTRAINT", .opt (.seq .blanks1 (.group 1 nameUpToParen)), .blanks1]

theorem leads_someLead_iff : Leads someLead c c' ↔ Leads namedLead c c' ∨ Leads unnamedLead c c' := by
  constructor
  · intro h
    obtain ⟨d, hword, hrest⟩ := leads_seqs_cons.1 h
    obtain ⟨e, hopt, hblanks⟩ := leads_seqs_cons.1 hrest
    rcases leads_alt.1 hopt with hname | hnone
    · obtain ⟨b, hgap, hgroup⟩ := leads_seq.1 hname
      exact Or.inl (leads_seqs_cons.2 ⟨d, hword, leads_seqs_cons.2 ⟨b, hgap,
        leads_seqs_cons.2 ⟨e, hgroup, hblanks⟩⟩⟩)
    · obtain rfl := leads_nothing.1 hnone
      exact Or.inr (leads_seqs_cons.2 ⟨_, hword, hblanks⟩)
  · rintro (h | h)
    · obtain ⟨d, hword, hrest⟩ := leads_seqs_cons.1 h
      obtain ⟨b, hgap, hrest⟩ := leads_seqs_cons.1 hrest
      obtain ⟨e, hgroup, hblanks⟩ := leads_seqs_cons.1 hrest
      exact leads_seqs_cons.2 ⟨d, hword,
        leads_seqs_cons.2 ⟨e, .altLeft (.seq hgap hgroup), hblanks⟩⟩
    · obtain ⟨d, hword, hblanks⟩ := leads_seqs_cons.1 h
      exact leads_seqs_cons.2 ⟨d, hword,
        leads_seqs_cons.2 ⟨d, .altRight (.nothing d), hblanks⟩⟩

theorem leads_constraintLead_iff :
    Leads constraintLead c c' ↔ (Leads namedLead c c' ∨ Leads unnamedLead c c') ∨ c' = c := by
  rw [← leads_someLead_iff, ← leads_nothing (c := c)]
  exact leads_alt

/-- The word behind CONSTRAINT is taken for its name if the rest of the clause can be read behind it,
and CONSTRAINT is passed over if the rest can be read behind that. -/
theorem lead_cases (h : (seq constraintLead keyRest).run c some = some r) :
    (∃ c₁, Leads namedLead c c₁ ∧ keyRest.run c₁ some = some r) ∨
      (∀ c', ¬ Leads (seq namedLead keyRest) c c') ∧
        ((∃ c₁, Leads unnamedLead c c₁ ∧ keyRest.run c₁ some = some r) ∨
          keyRest.run c some = some r) := by
  rcases run_opt_cases h with hlead | ⟨hlead, h⟩
  · -- the parts of the lead one by one: the word, the name if it is there, and the blanks
    have hparts : (seq (keyword "CONSTRAINT") (seq (opt (seq blanks1 (group 1 nameUpToParen)))
        (seq blanks1 keyRest))).run c some = some r := hlead
    obtain ⟨d, hword, hrest⟩ := run_seq_some hparts
    rcases run_opt_cases hrest with hname | ⟨hname, hrest⟩
    · obtain ⟨e, hname, hrest⟩ := run_seq_some hname
      obtain ⟨c₁, hblanks, hrun⟩ := run_seq_some hrest
      obtain ⟨b, hgap, hgroup⟩ := leads_seq.1 hname
      exact Or.inl ⟨c₁, leads_seqs_cons.2 ⟨d, hword, leads_seqs_cons.2 ⟨b, hgap,
        leads_seqs_cons.2 ⟨e, hgroup, leads_seqs_cons.2 ⟨c₁, hblanks, .nothing _⟩⟩⟩⟩, hrun⟩
    · obtain ⟨c₁, hblanks, hrun⟩ := run_seq_some hrest
      refine Or.inr ⟨fun c' hnamed => ?_, Or.inl ⟨c₁, leads_seqs_cons.2 ⟨d, hword,
        leads_seqs_cons.2 ⟨c₁, hblanks, .nothing _⟩⟩, hrun⟩⟩
      obtain ⟨c₂, hnamed, hrest₂⟩ := leads_seq.1 hnamed
      obtain ⟨d₂, hword₂, hnamed⟩ := leads_seqs_cons.1 hnamed
      obtain ⟨b₂, hgap₂, hnamed⟩ := leads_seqs_cons.1 hnamed
      obtain ⟨e₂, hgroup₂, hnamed⟩ := leads_seqs_cons.1 hnamed
      obtain ⟨f₂, hblanks₂, hnil⟩ := leads_seqs_cons.1 hnamed
      obtain rfl := leads_nothing.1 hnil
      have hall : Leads (seq (seq blanks1 (group 1 nameUpToParen)) (seq blanks1 keyRest)) d₂ c' :=
        .seq (.seq hgap₂ hgroup₂) (.seq hblanks₂ hrest₂)
      obtain ⟨d', hmoved, -⟩ :=
        hall.samePlace (leads_keyword_unique (by decide) hword₂ hword)
      exact hname d' hmoved
  · refine Or.inr ⟨fun c' hnamed => ?_, Or.inr h⟩
    obtain ⟨c₁, hnamed, hrest⟩ := leads_seq.1 hnamed
    exact hlead c' (.seq (leads_someLead_iff.2 (Or.inl hnamed)) hrest)

/-- Whether the byte is a blank of a pattern. -/
def isPatternBlank (b : UInt8) : Bool :=
  CharSet.blank.contains b.toNat

/-- The text behind the first word and the blanks around it. -/
def behindWord (s : Bytes) : Bytes :=
  ((s.dropWhile isPatternBlank).dropWhile fun b => !isPatternBlank b).dropWhile isPatternBlank

theorem exists_takes_nameUpToParen (h : Leads nameUpToParen c c') :
    ∃ x name, c.Takes (x :: name) c' := by
  obtain ⟨c₁, hone, hmany⟩ := leads_seq.1 h
  obtain ⟨u, hu⟩ := hmany.takes
  cases hone with
  | one hnext _ =>
    obtain ⟨x, t, hx, -⟩ := Cursor.takes_of_next? hnext
    exact ⟨x, t ++ u, hx.trans hu⟩

/-- Behind the name of a constraint stands what follows the word behind CONSTRAINT. -/
theorem behindWord_of_namedLead (h : Leads namedLead c c₁) :
    ∃ d, Leads (keyword "CONSTRAINT") c d ∧
      behindWord d.rest = c₁.rest.dropWhile isPatternBlank := by
  obtain ⟨d, hword, h⟩ := leads_seqs_cons.1 h
  obtain ⟨b, hgap, h⟩ := leads_seqs_cons.1 h
  obtain ⟨e', hgroup, h⟩ := leads_seqs_cons.1 h
  obtain ⟨f, hblanks, hnil⟩ := leads_seqs_cons.1 h
  obtain rfl := leads_nothing.1 hnil
  obtain ⟨e, hname, rfl⟩ := leads_group.1 hgroup
  obtain ⟨bl, -, hbl, htakes⟩ := leads_blanks1 hgap
  obtain ⟨bl₁, hne₁, hbl₁, htakes₁⟩ := leads_blanks1 hblanks
  obtain ⟨x, name, hnameTakes⟩ := exists_takes_nameUpToParen hname
  have hunblank : ∀ z ∈ x :: name, isPatternBlank z = false :=
    unblank_of_leads (by decide +kernel) hname hnameTakes
  have hbl : ∀ z ∈ bl, isPatternBlank z = true := hbl
  have hbl₁ : ∀ z ∈ bl₁, isPatternBlank z = true := hbl₁
  obtain ⟨y, bl₁, rfl⟩ := List.exists_cons_of_ne_nil hne₁
  have htext : d.rest = bl ++ (x :: name ++ (y :: bl₁ ++ c₁.rest)) := by
    rw [htakes.rest, hnameTakes.rest, ← htakes₁.rest]
    rfl
  refine ⟨d, hword, ?_⟩
  rw [behindWord, htext, List.dropWhile_append_of_pos hbl, List.cons_append,
    List.dropWhile_cons_of_neg (by simp [hunblank x]), ← List.cons_append,
    List.dropWhile_append_of_pos (fun z hz => by simp [hunblank z hz]), List.cons_append,
    List.dropWhile_cons_of_neg (by simp [hbl₁ y]), ← List.cons_append,
    List.dropWhile_append_of_pos hbl₁]

theorem OpensWord.dropWhile {s : Bytes} (h : OpensWord s) : s.dropWhile isPatternBlank = s := by
  obtain ⟨x, u, rfl, hx, -⟩ := h
  exact List.dropWhile_cons_of_neg (by rw [isPatternBlank, hx]; exact Bool.false_ne_true)

theorem leads_keyRest_iff : Leads keyRest c r ↔
    Leads (kindClause keyKinds) c r ∨ Leads plainClause c r ∨ Leads keyEnd c r := by
  constructor
  · intro h
    obtain ⟨c₁, hkind, hrest⟩ := leads_seq.1 h
    rcases leads_alt.1 hkind with hkind | hnone
    · exact Or.inl (.seq hkind hrest)
    obtain rfl := leads_nothing.1 hnone
    obtain ⟨c₂, hkey, hend⟩ := leads_seq.1 hrest
    rcases leads_alt.1 hkey with hkey | hnone
    · exact Or.inr (Or.inl (.seq hkey hend))
    · obtain rfl := leads_nothing.1 hnone
      exact Or.inr (Or.inr hend)
  · rintro (h | h | h)
    · obtain ⟨c₁, hkind, hrest⟩ := leads_seq.1 h
      exact .seq (.altLeft hkind) hrest
    · obtain ⟨c₁, hkey, hend⟩ := leads_seq.1 h
      exact .seq (.altRight (.nothing c)) (.seq (.altLeft hkey) hend)
    · exact .seq (.altRight (.nothing c)) (.seq (.altRight (.nothing c)) h)

/-- The rest of a clause does not start with blanks, unless the parenthesis follows them. -/
theorem dropWhile_of_keyRest (h : Leads keyRest c r) :
    c.rest.dropWhile isPatternBlank = c.rest ∨
      (c.rest.dropWhile isPatternBlank).head? = some openParen := by
  rcases leads_keyRest_iff.1 h with hkind | hkey | hend
  · exact Or.inl
      ((startsKey_kindClause (by decide) (List.Subset.refl _)).opensWord hkind).dropWhile
  · exact Or.inl (startsKey_plainClause.opensWord hkey).dropWhile
  obtain ⟨d', hgroup, hend⟩ := leads_seqs_cons.1 hend
  obtain ⟨e, hblanks, hend⟩ := leads_seqs_cons.1 hend
  obtain ⟨f, hopen, -⟩ := leads_seqs_cons.1 hend
  obtain ⟨d, hname, rfl⟩ := leads_group.1 hgroup
  obtain ⟨name, hnameTakes⟩ := hname.takes
  obtain ⟨bl, hbl, htakes⟩ := leads_blanks hblanks
  have hparen : e.rest = openParen :: f.rest := (leads_text (by decide) hopen).rest
  have htext : c.rest = name ++ (bl ++ openParen :: f.rest) := by
    rw [hnameTakes.rest, ← hparen, ← htakes.rest]
    rfl
  have hbl : ∀ x ∈ bl, isPatternBlank x = true := hbl
  cases name with
  | nil =>
    right
    rw [htext, List.nil_append, List.dropWhile_append_of_pos hbl]
    rfl
  | cons x name =>
    left
    have hx := unblank_of_leads (by decide +kernel) hname hnameTakes x List.mem_cons_self
    rw [htext, List.cons_append,
      List.dropWhile_cons_of_neg (by rw [isPatternBlank, hx]; exact Bool.false_ne_true)]

/-- Where the words of a key stand behind the name of a constraint, the matcher looks for them. -/
theorem samePlace_of_namedLead (h₁ : Leads namedLead c c₁) (hopens : OpensWord c₁.rest)
    (h₂ : Leads namedLead c c₂) (hrest : Leads keyRest c₂ r) : c₁.SamePlace c₂ := by
  obtain ⟨d₁, hword₁, hbehind₁⟩ := behindWord_of_namedLead h₁
  obtain ⟨d₂, hword₂, hbehind₂⟩ := behindWord_of_namedLead h₂
  have hsame := leads_keyword_unique (by decide) hword₁ hword₂
  rw [hopens.dropWhile] at hbehind₁
  rw [hsame.rest, hbehind₁] at hbehind₂
  have hrests : c₁.rest = c₂.rest := by
    rcases dropWhile_of_keyRest hrest with hself | hopen
    · exact hbehind₂.trans hself
    · obtain ⟨x, u, hx, -, hne⟩ := hopens
      rw [← hbehind₂, hx] at hopen
      exact absurd (Option.some.inj hopen) hne
  obtain ⟨t₁, ht₁⟩ := h₁.takes
  obtain ⟨t₂, ht₂⟩ := h₂.takes
  have htexts : t₁ = t₂ := by
    have hall := ht₁.rest.symm.trans ht₂.rest
    rw [hrests] at hall
    exact List.append_cancel_right hall
  refine ⟨hrests.symm, ?_⟩
  rw [ht₁.prev, ht₂.prev, htexts]

/-- Where a clause is written, and not behind CONSTRAINT without a name, the matcher reads it. -/
theorem exists_run_of_written (hstarts : StartsKey clause)
    (hrest : ∀ c c', Leads clause c c' → Leads keyRest c c')
    (hnamed : ∀ c', ¬ Leads (seq unnamedLead clause) c c')
    (hwritten : Leads (seq constraintLead clause) c c')
    (hrun : (seq constraintLead keyRest).run c some = some r) :
    ∃ c₁ c₂, Leads constraintLead c c₁ ∧ Leads clause c₁ c₂ ∧ keyRest.run c₁ some = some r := by
  obtain ⟨c₁, hlead, hclause⟩ := leads_seq.1 hwritten
  rcases leads_constraintLead_iff.1 hlead with (hlead₁ | hlead₁) | rfl
  · -- behind the name there is only one place where the clause can start
    rcases lead_cases hrun with ⟨c₂, hlead₂, hrun⟩ | ⟨hnone, -⟩
    · have hsame := samePlace_of_namedLead hlead₁ (hstarts.opensWord hclause) hlead₂
        (leads_of_run hrun)
      obtain ⟨c₃, hmoved, -⟩ := hclause.samePlace hsame
      exact ⟨c₂, c₃, leads_constraintLead_iff.2 (Or.inl (Or.inl hlead₂)), hmoved, hrun⟩
    · exact absurd (.seq hlead₁ (hrest _ _ hclause)) (hnone c')
  · exact absurd (.seq hlead₁ hclause) (hnamed c')
  · -- a clause of its own does not start with CONSTRAINT
    have hno := hstarts.not_leads_constraint hclause
    rcases lead_cases hrun with ⟨c₂, hlead₂, -⟩ | ⟨-, ⟨c₂, hlead₂, -⟩ | hrun⟩
    · obtain ⟨d, hword, -⟩ := leads_seqs_cons.1 hlead₂
      exact absurd hword (hno d)
    · obtain ⟨d, hword, -⟩ := leads_seqs_cons.1 hlead₂
      exact absurd hword (hno d)
    · exact ⟨_, c', hlead, hclause, hrun⟩

end

/-! ## What is found is what is written -/

section

variable {item : Bytes} {m : Match} {kinds : List String} {clause : Pattern} {c c' c₁ d r : Cursor}

theorem saysKind_iff_leads : SaysKind kinds item ↔
    ∃ c', Leads (seq constraintLead (kindClause kinds)) { prev := none, rest := item } c' :=
  occursIn_textStart

theorem SaysKind.mono {kinds' : List String} (h : SaysKind kinds item) (hne : kinds ≠ [])
    (hsub : kinds ⊆ kinds') : SaysKind kinds' item := by
  obtain ⟨c', hleads⟩ := saysKind_iff_leads.1 h
  obtain ⟨c₁, hlead, hclause⟩ := leads_seq.1 hleads
  exact saysKind_iff_leads.2 ⟨c', .seq hlead (kindClause_mono hne hsub hclause)⟩

theorem saysKey_iff_leads : SaysKey item ↔
    ∃ c', Leads (seq constraintLead plainClause) { prev := none, rest := item } c' :=
  occursIn_textStart

theorem not_leads_of_not_lacksName (h : ¬ LacksName item) (c' : Cursor) :
    ¬ Leads (seq unnamedLead (kindClause keyKinds)) { prev := none, rest := item } c' ∧
      ¬ Leads (seq unnamedLead plainClause) { prev := none, rest := item } c' := by
  rw [LacksName, not_or] at h
  exact ⟨fun hleads => h.1 (occursIn_textStart.2 ⟨c', hleads⟩),
    fun hleads => h.2 (occursIn_textStart.2 ⟨c', hleads⟩)⟩

/-- What the matcher recorded in a match of the pattern for key clauses, and where the clause starts
behind what may stand in front of it. -/
structure FoundIn (item : Bytes) (m : Match) (c₁ r : Cursor) : Prop where
  group : ∀ n, m.group? n = (r.groups.find? (·.number == n)).map (·.text item)
  lead : Leads constraintLead { prev := none, rest := item } c₁
  found : ClauseFound c₁ r

theorem foundIn_of_run
    (hgroups : ∀ n, m.group? n = (r.groups.find? (·.number == n)).map (·.text item))
    (hlead : Leads constraintLead { prev := none, rest := item } c₁)
    (hrest : keyRest.run c₁ some = some r) : FoundIn item m c₁ r := by
  refine ⟨hgroups, hlead, clauseFound_of_run hrest ?_ ?_⟩
  · rw [hlead.find?_groups (n := 2) rfl]
    rfl
  · rw [hlead.find?_groups (n := 3) rfl]
    rfl

theorem exists_foundIn (h : keyClausePattern.find? item = some m) :
    ∃ c₁ r, FoundIn item m c₁ r := by
  rw [keyClausePattern_eq] at h
  obtain ⟨r, hrun, -, hgroups⟩ := exists_run_of_textStart h
  obtain ⟨c₁, hlead, hrest⟩ := run_seq_some hrun
  exact ⟨c₁, r, foundIn_of_run hgroups hlead hrest⟩

/-- A clause that is written is found where it is written. -/
theorem exists_foundIn_of_written (hstarts : StartsKey clause)
    (hrest : ∀ c c', Leads clause c c' → Leads keyRest c c')
    (hnamed : ∀ c', ¬ Leads (seq unnamedLead clause) { prev := none, rest := item } c')
    (hwritten : Leads (seq constraintLead clause) { prev := none, rest := item } c') :
    ∃ m c₁ r, keyClausePattern.find? item = some m ∧ FoundIn item m c₁ r ∧
      ∃ c₂, Leads clause c₁ c₂ := by
  obtain ⟨c₁, hlead, hclause⟩ := leads_seq.1 hwritten
  obtain ⟨m, hm⟩ := Option.isSome_iff_exists.1
    (occursIn_textStart.2 ⟨c', .seq hlead (hrest _ _ hclause)⟩)
  obtain ⟨r, hrun, -, hgroups⟩ := exists_run_of_textStart hm
  obtain ⟨c₂, c₃, hlead₂, hclause₂, hrun₂⟩ :=
    exists_run_of_written hstarts hrest hnamed hwritten hrun
  exact ⟨m, c₂, r, hm, foundIn_of_run hgroups hlead₂ hrun₂, c₃, hclause₂⟩

/-- A kind that was found is recorded. -/
theorem FoundIn.toUpper_group (h : FoundIn item m c₁ r) {kind : String} (hkind : kind ∈ keyKinds)
    (hword : Leads (keyword kind) c₁ d)
    (hfound : r.groups.find? (·.number == 2) = some ⟨2, c₁.taken, d.taken - c₁.taken⟩) :
    (m.group? 2).isSome ∧ toUpper (m.group 2) = ascii kind := by
  have hkinds : ∀ kind ∈ keyKinds, OneCapital kind ∧ toUpper (ascii kind) = ascii kind := by
    decide +kernel
  obtain ⟨hcapital, hself⟩ := hkinds kind hkind
  obtain ⟨u, hu⟩ := h.lead.takes
  obtain ⟨t, ht, hupper⟩ := toUpper_of_leads_keyword hcapital hword
  have htext : m.group? 2 = some t := by
    rw [h.group 2, hfound, Option.map_some]
    exact congrArg some (text_recorded rfl hu ht 2)
  rw [Match.group, htext]
  exact ⟨rfl, hupper.trans hself⟩

theorem isSome_keyClause?_of_group (hm : keyClausePattern.find? item = some m)
    (hwords : (m.group? 2).isSome ∨ (m.group? 3).isSome) : (keyClause? item).isSome = true := by
  rw [keyClause?, hm, Option.filter_some, if_pos (Bool.or_eq_true_iff.2 hwords)]
  rfl

/-- **An item is read as a key clause exactly if it is written as one**, unless a constraint lacks its
name. -/
theorem isSome_keyClause?_iff (h : ¬ LacksName item) :
    (keyClause? item).isSome = true ↔ IsKeyClause item := by
  constructor
  · intro hsome
    obtain ⟨m, hm⟩ := Option.isSome_iff_exists.1 hsome
    obtain ⟨hfind, hwords⟩ := Option.filter_eq_some_iff.1 hm
    obtain ⟨c₁, r, hfound⟩ := exists_foundIn hfind
    cases hfound.found with
    | kind kind hkind d hword hclause _ =>
      have hmore : Leads (kindClause keyKinds) c₁ r :=
        kindClause_mono (List.cons_ne_nil _ _) (List.cons_subset.2 ⟨hkind, List.nil_subset _⟩) hclause
      exact Or.inl (saysKind_iff_leads.2 ⟨r, .seq hfound.lead hmore⟩)
    | key _ hclause _ _ => exact Or.inr (saysKey_iff_leads.2 ⟨r, .seq hfound.lead hclause⟩)
    | neither _ _ hnone hnone' =>
      rw [hfound.group 2, hfound.group 3, hnone, hnone'] at hwords
      cases hwords
  · rintro (hkind | hkey)
    · obtain ⟨c', hwritten⟩ := saysKind_iff_leads.1 hkind
      obtain ⟨m, c₁, r, hm, hfound, c₂, hclause⟩ := exists_foundIn_of_written
        (startsKey_kindClause (by decide) (List.Subset.refl _))
        (fun _ _ hleads => leads_keyRest_iff.2 (Or.inl hleads))
        (fun c' => (not_leads_of_not_lacksName h c').1) hwritten
      cases hfound.found with
      | kind kind hkind d hword _ hrec =>
        exact isSome_keyClause?_of_group hm (Or.inl (hfound.toUpper_group hkind hword hrec).1)
      | key hno _ _ _ => exact absurd hclause (hno c₂)
      | neither hno _ _ _ => exact absurd hclause (hno c₂)
    · obtain ⟨c', hwritten⟩ := saysKey_iff_leads.1 hkey
      obtain ⟨m, c₁, r, hm, hfound, c₂, hclause⟩ := exists_foundIn_of_written startsKey_plainClause
        (fun _ _ hleads => leads_keyRest_iff.2 (Or.inr (Or.inl hleads)))
        (fun c' => (not_leads_of_not_lacksName h c').2) hwritten
      cases hfound.found with
      | kind kind hkind d hword _ hrec =>
        exact isSome_keyClause?_of_group hm (Or.inl (hfound.toUpper_group hkind hword hrec).1)
      | key _ _ _ hrec =>
        refine isSome_keyClause?_of_group hm (Or.inr ?_)
        rw [hfound.group 3, Option.isSome_map]
        exact hrec
      | neither _ hno _ _ => exact absurd hclause (hno c₂)

theorem kind_ofClause (m : Match) (lits : LiteralTable) :
    (TableIndex.ofClause m lits).1.kind = KeyKind.ofKeyword (toUpper (m.group 2)) :=
  rfl

/-- **A key has the kind that its clause is written with**, unless a constraint lacks its name. -/
theorem saysKind_iff (h : ¬ LacksName item) (hm : keyClause? item = some m) (lits : LiteralTable)
    (hne : kinds ≠ []) (hkinds : kinds ⊆ keyKinds) :
    SaysKind kinds item ↔
      ∃ kind ∈ kinds, (TableIndex.ofClause m lits).1.kind = KeyKind.ofKeyword (ascii kind) := by
  obtain ⟨hfind, -⟩ := Option.filter_eq_some_iff.1 hm
  constructor
  · intro hkind
    obtain ⟨c', hwritten⟩ := saysKind_iff_leads.1 hkind
    have hnamed : ∀ c', ¬ Leads (seq unnamedLead (kindClause kinds))
        { prev := none, rest := item } c' := by
      intro c' hleads
      obtain ⟨c₁, hlead, hclause⟩ := leads_seq.1 hleads
      exact (not_leads_of_not_lacksName h c').1 (.seq hlead (kindClause_mono hne hkinds hclause))
    obtain ⟨m', c₁, r, hm', hfound, c₂, hclause⟩ := exists_foundIn_of_written
      (startsKey_kindClause hne hkinds)
      (fun _ _ hleads => leads_keyRest_iff.2 (Or.inl (kindClause_mono hne hkinds hleads)))
      hnamed hwritten
    obtain rfl := Option.some.inj (hfind.symm.trans hm')
    have hmore := kindClause_mono hne hkinds hclause
    cases hfound.found with
    | kind kind hkind d hword _ hrec =>
      obtain ⟨e, hkindWord, -⟩ := leads_seq.1 hclause
      obtain ⟨kind', hkind', d', hword', -⟩ := leads_kindWord hne hkindWord
      obtain rfl := kind_unique hkind (hkinds hkind') hword hword'
      refine ⟨kind, hkind', ?_⟩
      rw [kind_ofClause, (hfound.toUpper_group hkind hword hrec).2]
    | key hno _ _ _ => exact absurd hmore (hno c₂)
    | neither hno _ _ _ => exact absurd hmore (hno c₂)
  · rintro ⟨kind, hkind, heq⟩
    have hapart : ∀ a ∈ keyKinds, KeyKind.ofKeyword (ascii a) ≠ .plain ∧ ∀ b ∈ keyKinds,
        KeyKind.ofKeyword (ascii a) = KeyKind.ofKeyword (ascii b) → a = b := by decide
    obtain ⟨c₁, r, hfound⟩ := exists_foundIn hfind
    have hplain : r.groups.find? (·.number == 2) = none →
        (TableIndex.ofClause m lits).1.kind = .plain := by
      intro hnone
      have hgroup : m.group? 2 = none := by
        rw [hfound.group 2, hnone]
        rfl
      rw [kind_ofClause, Match.group, hgroup]
      rfl
    cases hfound.found with
    | kind kind' hkind' d hword hclause hrec =>
      rw [kind_ofClause, (hfound.toUpper_group hkind' hword hrec).2] at heq
      obtain rfl := (hapart kind' hkind').2 kind (hkinds hkind) heq
      have hmore : Leads (kindClause kinds) c₁ r :=
        kindClause_mono (List.cons_ne_nil _ _) (List.cons_subset.2 ⟨hkind, List.nil_subset _⟩) hclause
      exact saysKind_iff_leads.2 ⟨r, .seq hfound.lead hmore⟩
    | key _ _ hnone _ =>
      exact absurd (heq.symm.trans (hplain hnone)) (hapart kind (hkinds hkind)).1
    | neither _ _ hnone _ =>
      exact absurd (heq.symm.trans (hplain hnone)) (hapart kind (hkinds hkind)).1

/-- A key is left out if its clause says FULLTEXT or SPATIAL. -/
theorem isDropped_iff_saysKind (h : ¬ LacksName item) (hm : keyClause? item = some m)
    (lits : LiteralTable) : (TableIndex.ofClause m lits).1.kind.isDropped = true ↔
      SaysKind ["FULLTEXT", "SPATIAL"] item := by
  rw [saysKind_iff h hm lits (by decide) (by decide)]
  have hkinds : ∀ kind : KeyKind, kind.isDropped = true ↔
      ∃ word ∈ ["FULLTEXT", "SPATIAL"], kind = KeyKind.ofKeyword (ascii word) := by
    intro kind
    cases kind <;> decide
  exact hkinds _

theorem isUnique_iff_saysKind (h : ¬ LacksName item) (hm : keyClause? item = some m)
    (lits : LiteralTable) :
    (TableIndex.ofClause m lits).1.kind = .unique ↔ SaysKind ["UNIQUE"] item := by
  rw [saysKind_iff h hm lits (by decide) (by decide)]
  have hkinds : ∀ kind : KeyKind, kind = .unique ↔
      ∃ word ∈ ["UNIQUE"], kind = KeyKind.ofKeyword (ascii word) := by
    intro kind
    cases kind <;> decide
  exact hkinds _

theorem writesKey_of_keyClause? (h : ReadsPlainly item) (hm : keyClause? item = some m) :
    WritesKey item := by
  rw [← h.isKeyClause_iff, ← isSome_keyClause?_iff h.named, hm]
  rfl

theorem not_writesKey_of_keyClause? (h : ReadsPlainly item) (hm : keyClause? item = none) :
    ¬ WritesKey item := by
  rw [← h.isKeyClause_iff, ← isSome_keyClause?_iff h.named, hm]
  exact Bool.false_ne_true

end

end SqlDialect
