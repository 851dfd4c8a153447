import SqlDialect.Proofs.Identifier.Absent
import SqlDialect.Proofs.Pattern.Preference
import SqlDialect.Proofs.Statement.Ending

set_option autoImplicit false

/-! # The clauses of an upsert

What an insert with `ON DUPLICATE KEY UPDATE` becomes is put together from the statement in front of
the clause, the columns that identify a row and the assignments. Where a word is absent from the
statement, it is absent from each of these parts, so it stands in the result only where the rules write
it. The exception is a reference `VALUES(column)` with a word right behind it: the column and the word
become one (`Sought.FollowedApart`). -/

namespace SqlDialect

open Bytes

/-! ## The head of an insert -/

/-- The last letters of the words with which an insert starts. -/
def headLetters : Bytes := ascii "tyde"

/-- A text that ends in blanks behind a word that ends in one of these letters. -/
def EndsHead (lead : Bytes) : Prop :=
  ∃ w y t, lead = w ++ y :: t ∧ lowerByte y ∈ headLetters ∧ AllBlank t ∧ t ≠ []

theorem last_of_allBlank {t : Bytes} (ht : AllBlank t) (hne : t ≠ []) (a : Bytes) :
    (a ++ t).getLast?.any isWord = false := by
  rw [Pattern.getLast?_append_of_ne_nil _ hne]
  exact any_isWord_eq_false fun x hx => (ascii_of_blank (ht x (List.mem_of_getLast? hx))).2.2

theorem EndsHead.append {lead : Bytes} (h : EndsHead lead) (a : Bytes) : EndsHead (a ++ lead) := by
  obtain ⟨w, y, t, rfl, hend⟩ := h
  exact ⟨a ++ w, y, t, (List.append_assoc _ _ _).symm, hend⟩

theorem EndsHead.last {lead : Bytes} (h : EndsHead lead) :
    lead.getLast?.any isWord = false := by
  obtain ⟨w, y, t, rfl, -, ht, hne⟩ := h
  rw [show w ++ y :: t = w ++ [y] ++ t by simp]
  exact last_of_allBlank ht hne _

/-- A word that has none of the letters does not end there. -/
theorem EndsHead.sealedBy {lead l : Bytes} (h : EndsHead lead) (hl : ∀ b ∈ headLetters, b ∉ l) :
    Sought.SealedBy l lead := by
  obtain ⟨w, y, t, rfl, hy, ht, -⟩ := h
  refine ⟨y, ?_, hl _ hy⟩
  have hyblank : Sought.isPatternBlank y = false := by
    exact forall_lowerByte (P := fun b => Sought.isPatternBlank b = false) (by decide) hy
  have htail : ∀ b ∈ t.reverse, Sought.isPatternBlank b = true :=
    fun b hb => ht b (List.mem_reverse.1 hb)
  rw [dropTailWhile, List.reverse_append, List.reverse_cons, List.append_assoc,
    List.dropWhile_append_of_pos htail, List.singleton_append,
    List.dropWhile_cons_of_neg (by rw [hyblank]; exact Bool.false_ne_true), List.reverse_cons,
    List.getLast?_concat]
  rfl

namespace Pattern

/-- What a word with blanks behind it takes. -/
theorem leads_headWord {s : String} (hs : LastLetter s)
    (hlast : ∀ ch ∈ s.toList.getLast?, lowerByte (charByte ch) ∈ headLetters) {c c₁ c' : Cursor}
    (hword : Leads (keyword s) c c₁) (hblanks : Leads blanks1 c₁ c') :
    ∃ u, c.Takes u c' ∧ EndsHead u := by
  obtain ⟨hascii, ch, hch, hset, -⟩ := hs
  obtain ⟨w, hw, hspells, -⟩ := leads_keyword_spells hascii hword
  obtain ⟨y, hy, hlower⟩ := hspells.last ch hch hset
  obtain ⟨t, hne, ht, hbl⟩ := leads_blanks1 hblanks
  obtain ⟨w₀, hw₀⟩ := List.getLast?_eq_some_iff.1 hy
  refine ⟨w ++ t, hw.trans hbl, w₀, y, t, by rw [hw₀]; simp, ?_, ht, hne⟩
  rw [hlower]
  exact hlast ch hch

/-- What stands in front of IGNORE in the head of an insert. -/
theorem leads_insertLead {c c' : Cursor}
    (h : Leads (.seqs [.blanks, .keyword "INSERT", .blanks1,
      .opt (.seq (.keywords ["LOW_PRIORITY", "DELAYED", "HIGH_PRIORITY"]) .blanks1)]) c c') :
    ∃ lead, c.Takes lead c' ∧ EndsHead lead := by
  obtain ⟨c₁, hblanks, h₁⟩ := leads_seqs_cons.1 h
  obtain ⟨c₂, hinsert, h₂⟩ := leads_seqs_cons.1 h₁
  obtain ⟨c₃, hblanks', h₃⟩ := leads_seqs_cons.1 h₂
  obtain ⟨c₄, hopt, hnil⟩ := leads_seqs_cons.1 h₃
  obtain rfl := leads_nothing.1 hnil
  obtain ⟨a, -, ha⟩ := leads_blanks hblanks
  obtain ⟨u, hu, hend⟩ := leads_headWord (by decide) (by decide) hinsert hblanks'
  rcases leads_alt.1 hopt with hword | hnone
  · obtain ⟨c₅, hkeys, hblanks''⟩ := leads_seq.1 hword
    obtain ⟨s, hs, hkey⟩ := leads_keywords (List.cons_ne_nil _ _) hkeys
    have hwords : ∀ s ∈ ["LOW_PRIORITY", "DELAYED", "HIGH_PRIORITY"], LastLetter s ∧
        ∀ ch ∈ s.toList.getLast?, lowerByte (charByte ch) ∈ headLetters := by decide
    obtain ⟨v, hv, hend'⟩ := leads_headWord (hwords s hs).1 (hwords s hs).2 hkey hblanks''
    exact ⟨_, (ha.trans hu).trans hv, hend'.append _⟩
  · obtain rfl := leads_nothing.1 hnone
    exact ⟨_, ha.trans hu, hend.append _⟩

end Pattern

/-- What the head of an insert has recorded: what stands in front of IGNORE, IGNORE if it is there, and
the table. -/
def RecordsHead (lead ign : Bytes) (gs : List Pattern.Recorded) : Prop :=
  ∃ i n, gs = [⟨3, i, n⟩, ⟨2, lead.length, ign.length⟩, ⟨1, 0, lead.length⟩] ∨
    ign = [] ∧ gs = [⟨3, i, n⟩, ⟨1, 0, lead.length⟩]

theorem leads_insertPattern {s : Bytes} {c' : Pattern.Cursor}
    (h : Pattern.Leads insertPattern { prev := none, rest := s } c') :
    ∃ lead ign rest, s = lead ++ ign ++ rest ∧ EndsHead lead ∧ EndsHead (lead ++ ign) ∧
      RecordsHead lead ign c'.groups := by
  obtain ⟨c₀, hstart, h₀⟩ := Pattern.leads_seqs_cons.1 h
  obtain rfl : c₀ = { prev := none, rest := s } := by cases hstart; rfl
  obtain ⟨c₁, hgroup₁, h₁⟩ := Pattern.leads_seqs_cons.1 h₀
  obtain ⟨d₁, hlead, rfl⟩ := Pattern.leads_group.1 hgroup₁
  obtain ⟨lead, htakes₁, hend⟩ := Pattern.leads_insertLead hlead
  obtain ⟨c₂, hopt, h₂⟩ := Pattern.leads_seqs_cons.1 h₁
  obtain ⟨c₃, hinto, h₃⟩ := Pattern.leads_seqs_cons.1 h₂
  obtain ⟨c₄, hgroup₃, h₄⟩ := Pattern.leads_seqs_cons.1 h₃
  obtain ⟨d₃, htable, rfl⟩ := Pattern.leads_group.1 hgroup₃
  have hd₁ : d₁.groups = [] := hlead.groups_eq (by decide)
  have hc₃ : c₃.groups = c₂.groups := hinto.groups_eq (by decide)
  have hd₃ : d₃.groups = c₃.groups := htable.groups_eq (by decide)
  have hc' : c'.groups = ⟨3, c₃.taken, d₃.taken - c₃.taken⟩ :: c₂.groups := by
    rw [h₄.groups_eq (by decide), Pattern.Cursor.record, hd₃, hc₃]
  have hlen₁ : d₁.taken = lead.length := htakes₁.taken.trans (Nat.zero_add _)
  have hone : (d₁.record 1 { prev := none, rest := s }).groups = [⟨1, 0, lead.length⟩] := by
    rw [Pattern.Cursor.record, hd₁, hlen₁]
    rfl
  rcases Pattern.leads_alt.1 hopt with hgroup₂ | hnone
  · obtain ⟨d₂, hign, rfl⟩ := Pattern.leads_group.1 hgroup₂
    obtain ⟨c₅, hword, hblanks⟩ := Pattern.leads_seq.1 hign
    obtain ⟨u, hu, hend₂⟩ := Pattern.leads_headWord (by decide) (by decide) hword hblanks
    have htakes₂ : (d₁.record 1 { prev := none, rest := s }).Takes u d₂ := hu
    have hd₂ : d₂.groups = [⟨1, 0, lead.length⟩] := (hign.groups_eq (by decide)).trans hone
    have hlen₂ : d₂.taken - d₁.taken = u.length :=
      (congrArg (· - d₁.taken) htakes₂.taken).trans (Nat.add_sub_cancel_left _ _)
    refine ⟨lead, u, d₂.rest, (htakes₁.record 1 _).trans htakes₂ |>.rest, hend, hend₂.append _,
      c₃.taken, d₃.taken - c₃.taken, Or.inl (hc'.trans ?_)⟩
    change [_, ⟨2, d₁.taken, d₂.taken - d₁.taken⟩] ++ d₂.groups = _
    rw [hd₂, hlen₂, hlen₁]
    rfl
  · obtain rfl := Pattern.leads_nothing.1 hnone
    refine ⟨lead, [], d₁.rest, ?_, hend, ?_, c₃.taken, d₃.taken - c₃.taken,
      Or.inr ⟨rfl, hc'.trans ?_⟩⟩
    · rw [List.append_nil]
      exact htakes₁.rest
    · rwa [List.append_nil]
    · rw [hone]

theorem RecordsHead.group {lead ign : Bytes} {gs : List Pattern.Recorded}
    (h : RecordsHead lead ign gs) {s rest : Bytes} (hs : s = lead ++ ign ++ rest) {m : Match}
    (hm : m.groups = gs.map fun g => (g.number, g.text s)) :
    m.group 1 = lead ∧ m.group 2 = ign := by
  have hone : Pattern.Recorded.text ⟨1, 0, lead.length⟩ s = lead := by
    rw [Pattern.Recorded.text, hs, List.drop_zero, List.append_assoc]
    exact List.take_left' rfl
  have htwo : Pattern.Recorded.text ⟨2, lead.length, ign.length⟩ s = ign := by
    rw [Pattern.Recorded.text, hs, List.append_assoc, List.drop_left' rfl]
    exact List.take_left' rfl
  rw [Match.group, Match.group?, Match.group, Match.group?, hm]
  obtain ⟨i, n, rfl | ⟨rfl, rfl⟩⟩ := h
  · exact ⟨hone, htwo⟩
  · exact ⟨hone, rfl⟩

/-- Where the head of an insert is cut to leave out IGNORE. -/
theorem insertHead_cut {s : Bytes} {m : Match} (h : insertPattern.find? s = some m) :
    ∃ lead ign rest, s = lead ++ ign ++ rest ∧ m.group 1 = lead ∧ m.group 2 = ign ∧
      EndsHead lead ∧ EndsHead (lead ++ ign) := by
  have hbefore := Pattern.before_eq_nil h
  have htext := Pattern.text_of_find? h
  rw [hbefore, List.nil_append] at htext
  obtain ⟨c', hplaces, hgroups⟩ := Pattern.places_of_findFrom? h
  have hleads := hplaces.leads
  rw [hbefore, htext] at hleads
  rw [htext] at hgroups
  obtain ⟨lead, ign, rest, hs, hend, hend', hrecorded⟩ := leads_insertPattern hleads
  obtain ⟨hone, htwo⟩ := hrecorded.group hs hgroups
  exact ⟨lead, ign, rest, hs, hone, htwo, hend, hend'⟩

/-- What the head of an insert says, where IGNORE stands between blanks or is missing. -/
theorem Insert.cut_of_ofText? {s : Bytes} {ins : Insert} (h : Insert.ofText? s = some ins) :
    ∃ lead ign rest, s = lead ++ ign ++ rest ∧ ins.withoutIgnore = lead ++ rest ∧
      EndsHead lead ∧ EndsHead (lead ++ ign) := by
  obtain ⟨m, hfind, hm⟩ := Option.bind_eq_some_iff.1 h
  obtain ⟨columns, -, hins⟩ := Option.bind_eq_some_iff.1 hm
  obtain rfl := Option.some.inj hins
  obtain ⟨lead, ign, rest, rfl, hlead, hign, hends⟩ := insertHead_cut hfind
  refine ⟨lead, ign, rest, rfl, ?_, hends⟩
  dsimp only
  rw [hlead, hign, ← List.length_append, List.drop_left' rfl]

/-! ## Groups outside words -/

namespace Pattern

/-- A match of the pattern ends behind no word byte. -/
def LastOutside (p : Pattern) : Prop :=
  ∀ c c' : Cursor, Leads p c c' → c'.prev.any isWord = false

/-- A match of the pattern starts in front of no word byte. -/
def HeadOutside (p : Pattern) : Prop :=
  ∀ c c' : Cursor, Leads p c c' → c.rest.head?.any isWord = false

theorem lastOutside_textStart : LastOutside textStart := by
  intro c c' h
  cases h with
  | textStart hprev =>
    rw [hprev]
    rfl

theorem lastOutside_text {s : String} (hs : ∀ ch ∈ s.toList, ch.toNat < 128) {x : UInt8}
    (hlast : (ascii s).getLast? = some x) (hx : isWord x = false) : (text s).LastOutside := by
  intro c c' h
  rw [(leads_text hs h).prev, hlast]
  exact hx

theorem lastOutside_group {set : CharSet} (hset : AsciiSet set)
    (hword : ∀ b : UInt8, set.contains b.toNat = true → isWord b = false) (n : Nat) :
    (group n (one set)).LastOutside := by
  intro c c' h
  obtain ⟨c₁, hone, rfl⟩ := leads_group.1 h
  obtain ⟨b, -, hb, htakes, -⟩ := leads_one_ascii hset hone
  show c₁.prev.any isWord = false
  rw [htakes.prev]
  exact hword b hb

theorem LastOutside.append {p : Pattern} (hp : p.LastOutside) (l : List Pattern) :
    (seqs (l ++ [p])).LastOutside := by
  intro c c' h
  obtain ⟨c₁, -, hend⟩ := (leads_seqs_append l _).1 h
  obtain ⟨c₂, hlead, hnil⟩ := leads_seqs_cons.1 hend
  obtain rfl := leads_nothing.1 hnil
  exact hp _ _ hlead

/-- Blanks are outside words. -/
theorem LastOutside.blanks {l : List Pattern} (hps : (seqs l).LastOutside) :
    (seqs (l ++ [blanks])).LastOutside := by
  intro c c' h
  obtain ⟨c₁, hlead, hend⟩ := (leads_seqs_append l _).1 h
  obtain ⟨c₂, hblanks, hnil⟩ := leads_seqs_cons.1 hend
  obtain rfl := leads_nothing.1 hnil
  obtain ⟨t, ht, htakes⟩ := leads_blanks hblanks
  rw [htakes.prev]
  cases hlast : t.getLast? with
  | none => exact hps _ _ hlead
  | some x => exact (ascii_of_blank (ht x (List.mem_of_getLast? hlast))).2.2

theorem headOutside_textEnd : (seqs [textEnd]).HeadOutside := by
  intro c c' h
  obtain ⟨c₁, hend, -⟩ := leads_seqs_cons.1 h
  cases hend with
  | textEnd hrest =>
    rw [hrest]
    rfl

theorem headOutside_text {s : String} (hs : ∀ ch ∈ s.toList, ch.toNat < 128) {x : UInt8}
    (hhead : (ascii s).head? = some x) (hx : isWord x = false) (ps : List Pattern) :
    (seqs (text s :: ps)).HeadOutside := by
  intro c c' h
  obtain ⟨c₁, htext, -⟩ := leads_seqs_cons.1 h
  rw [(leads_text hs htext).rest, List.head?_append, hhead]
  exact hx

theorem HeadOutside.blanks {ps : List Pattern} (hps : (seqs ps).HeadOutside) :
    (seqs (blanks :: ps)).HeadOutside := by
  intro c c' h
  obtain ⟨c₁, hblanks, hlead⟩ := leads_seqs_cons.1 h
  obtain ⟨t, ht, htakes⟩ := leads_blanks hblanks
  rw [htakes.rest, List.head?_append]
  cases hhead : t.head? with
  | none => exact hps _ _ hlead
  | some x => exact (ascii_of_blank (ht x (List.mem_of_head? hhead))).2.2

end Pattern

namespace Sought

variable {q : Sought} {s u v : Bytes}

/-- What a group holds that is outside words on both sides. -/
theorem Absent.group {l r : List Pattern} {p : Pattern} {n skip : Nat} {prev : Option UInt8}
    {m : Match}
    (hm : (Pattern.seqs (l ++ .group n p :: r)).findFrom? skip prev s = some m)
    (hl : (Pattern.seqs l).LastOutside) (hr : (Pattern.seqs r).HeadOutside)
    (hnum : (Pattern.seqs r).recordedAs n = []) (h : q.Absent s) : q.Absent (m.group n) := by
  obtain ⟨c₁, c₂, c', u, v, htext, hlead, hu, -, -, htail, hrest⟩ := Pattern.leads_of_group hm hnum
  have hleft : (m.before ++ u).getLast?.any isWord = false := by
    have hprev := hl _ _ hlead
    rw [hu.prev] at hprev
    rw [List.getLast?_append]
    cases hlast : u.getLast? with
    | some x =>
      rw [hlast] at hprev
      exact hprev
    | none =>
      rw [hlast, Option.none_or] at hprev
      cases hbefore : m.before.getLast? with
      | some x =>
        rw [hbefore] at hprev
        exact hprev
      | none => rfl
  have hright : (v ++ m.after).head?.any isWord = false := by
    have hhead := hr _ _ htail
    rwa [show (c₂.record n c₁).rest = v ++ m.after from hrest] at hhead
  rw [← Pattern.text_of_findFrom? hm, htext, show m.before ++ (u ++ m.group n ++ v) ++ m.after
    = m.before ++ u ++ m.group n ++ (v ++ m.after) by simp] at h
  exact (h.left (Or.inr (Or.inl hright))).right (Or.inl (Or.inl hleft))

/-! ## What the rules write -/

/-- What the rules for inserts write around the parts of a statement. -/
def upsertTexts : List Bytes :=
  [" = ", "EXCLUDED.", " - ", " + ", " * ", " / ", ", ", " (", ") DO UPDATE SET ",
    " DO NOTHING"].map ascii

/-- What is looked for takes no part in the texts that the rules write, nor in the words that they
quote or leave out. -/
structure NotWritten (q : Sought) : Prop where
  calls : ∀ r ∈ callTexts, q.Neutral r
  clauses : ∀ r ∈ upsertTexts, q.Neutral r
  bare : q.ApartFromBare
  foreign : q.Foreign 115
  head : ∀ l ∈ q.lead, ∀ b ∈ headLetters, b ∉ l

/-- The text behind a name with which the word does not go on and is not made a pair. -/
def FollowedApart (q : Sought) (after : Bytes) : Prop :=
  after.head?.any isWord = false ∧
    ∀ _l ∈ q.lead, ¬ q.word <+: (after.dropWhile isPatternBlank).map lowerByte

instance (q : Sought) (after : Bytes) : Decidable (q.FollowedApart after) :=
  inferInstanceAs (Decidable (_ ∧ _))

/-- A text is put in front of one with which the word does not go on. -/
theorem FollowedApart.apart (h : q.FollowedApart v) (u : Bytes) : q.Apart u v := by
  refine .of_edge (Or.inr h.1) ?_
  rintro l hl o t p p' w ho ht hot - hw - ⟨c, rfl⟩
  have hblank : ∀ b ∈ p', isPatternBlank b = true := by
    rcases List.append_eq_append_iff.1 hot with ⟨d, -, rfl⟩ | ⟨d, rfl, rfl⟩
    · exact fun b hb => ht b (List.mem_append_right _ hb)
    · cases d with
      | nil => exact ht
      | cons y d =>
        have hy := (isWord_of_lower (q.isWord_lead l hl) ho).2 y (by simp)
        have hhead := h.1
        rw [List.append_assoc, List.append_assoc, List.cons_append, List.head?_cons, Option.any_some,
          hy] at hhead
        exact Bool.noConfusion hhead
  refine h.2 l hl ?_
  obtain ⟨y, w', rfl⟩ := List.exists_cons_of_ne_nil (isWord_of_lower q.isWord_word hw).1
  have hy : isPatternBlank y = false :=
    not_blank_of_isWord ((isWord_of_lower q.isWord_word hw).2 y List.mem_cons_self)
  rw [List.append_assoc, List.dropWhile_append_of_pos hblank, List.cons_append,
    List.dropWhile_cons_of_neg (by rw [hy]; exact Bool.false_ne_true), ← List.cons_append,
    List.map_append, hw]
  exact List.prefix_append _ _

/-- Matches are replaced behind the text `u`, where no word goes on behind a match. -/
theorem Absent.rewriteBehind {p : Pattern} {f : Match → Bytes} (hconsumes : p.Consumes)
    (houtside : p.StartsOutside) (hstart : p.StartsAtEdge)
    (hwrite : ∀ {t : Bytes} {prev : Option UInt8} {m : Match}, p.findFrom? 0 prev t = some m →
      q.Absent t → ∀ x, q.Absent x → x.getLast?.any isWord = false → q.Absent (x ++ f m))
    {prev : Option UInt8} (h : q.Absent (u ++ s))
    (hedge : u.getLast?.any isWord = false ∨ s.head?.any isWord = false)
    (hafter : ∀ m ∈ p.allFrom prev s, q.FollowedApart m.after) :
    q.Absent (u ++ p.rewriteFrom f prev s) := by
  induction hlen : s.length using Nat.strongRecOn generalizing s u prev with
  | _ k ih =>
    cases hm : p.findFrom? 0 prev s with
    | none =>
      rw [Pattern.rewriteFrom_eq, hm]
      exact h
    | some m =>
      have htext := Pattern.text_of_findFrom? hm
      have hlt := hconsumes.after_lt hm
      obtain ⟨c', hplaces, -⟩ := Pattern.places_of_findFrom? hm
      have hprev := houtside _ _ hplaces.leads
      have hhere := hstart _ _ hplaces.leads
      rw [Pattern.Cursor.atWordEdge, hprev] at hhere
      -- no word byte stands in front of the match
      have hleft : (u ++ m.before).getLast?.any isWord = false := by
        cases hlast : m.before.getLast? with
        | some x =>
          rw [List.getLast?_append, hlast]
          rw [hlast] at hprev
          exact hprev
        | none =>
          rw [List.getLast?_eq_none_iff.1 hlast, List.append_nil]
          refine hedge.resolve_right fun hhead => ?_
          rw [← htext, List.getLast?_eq_none_iff.1 hlast, List.nil_append] at hhead
          rw [hhead] at hhere
          exact Bool.noConfusion hhere
      have hs : q.Absent s := h.right (hedge.imp Or.inl id)
      have hall := Pattern.allFrom_of_findFrom? hm hlt
      have hfollow := hafter m (by rw [hall]; exact List.mem_cons_self)
      have hrest : q.Absent m.after := by
        rw [← htext] at hs
        exact hs.right (Or.inr hfollow.1)
      have hbefore : q.Absent (u ++ m.before) := by
        rw [← htext, show u ++ (m.before ++ m.text ++ m.after)
          = u ++ m.before ++ (m.text ++ m.after) by simp] at h
        exact h.left (Or.inl hleft)
      have hwritten := (hwrite hm hs _ hbefore hleft).append hrest (hfollow.apart _)
      have hdone := ih _ (hlen ▸ hlt) hwritten (Or.inr hfollow.1)
        (fun m' hm' => hafter m' (by rw [hall]; exact List.mem_cons_of_mem _ hm')) rfl
      rw [Pattern.rewriteFrom_of_findFrom? hconsumes hm]
      simpa only [List.append_assoc] using hdone

section

variable (hq : q.NotWritten)

include hq

theorem NotWritten.likely {r : Bytes} (hr : r ∈ upsertTexts) (hhead : r.head?.any isWord = false)
    (hu : q.Absent u) (hv : q.Absent v) : q.Absent (u ++ r ++ v) := by
  refine hu.insert (hq.clauses r hr) hv (Or.inr fun x hx => ?_)
  rw [hx] at hhead
  exact foreign_of_not_isWord hhead

/-- Leaving out IGNORE brings no word about. -/
theorem Absent.withoutIgnore (h : q.Absent s) {ins : Insert} (hins : Insert.ofText? s = some ins) :
    q.Absent ins.withoutIgnore := by
  obtain ⟨lead, ign, rest, rfl, hcut, hend, hend'⟩ := Insert.cut_of_ofText? hins
  rw [hcut]
  have hlead := hend.last
  have hrest := h.right (Or.inl (Or.inl hend'.last))
  rw [List.append_assoc] at h
  refine (h.left (Or.inl hlead)).append hrest (.of_edge (Or.inl hlead) ?_)
  -- the head ends in a letter that the first word does not have
  intro l hl o t p p' w ho ht hot hp _ hsuffix
  exact absurd hsuffix
    ((hend.sealedBy (hq.head l hl)).not_suffix (q.isWord_lead l hl) ho ht hot hp)

end

/-- The columns of an insert. -/
theorem Absent.columns (h : q.Absent s) {ins : Insert} (hins : Insert.ofText? s = some ins) :
    ∀ col ∈ ins.columns, q.Absent col := by
  intro col hcol
  obtain ⟨a, inner, list, rest, part, rfl, hparen, hpart, rfl⟩ := Insert.of_mem_columns hins hcol
  rw [eq_append_of_splitParen? hparen, show a ++ openParen :: (list ++ closeParen :: rest)
    = a ++ [openParen] ++ list ++ closeParen :: rest by simp] at h
  have hlist := (h.left (Or.inr (Or.inl rfl))).right (Or.inl (Or.inl (by
    rw [List.getLast?_concat]
    rfl)))
  exact (hlist.splitTop hpart).trimSpace.normalizeName

/-- The columns that identify the row an insert collides with. -/
theorem Absent.conflictTarget (h : q.Absent s) {ins : Insert} (hins : Insert.ofText? s = some ins)
    {catalog : KeyCatalog} {lits : LiteralTable}
    (hkeys : ∀ table, ∀ key ∈ catalog.keys table, ∀ col ∈ key.columns, q.Absent col) :
    ∀ col ∈ ins.conflictTarget catalog lits, q.Absent col := by
  intro col hcol
  rw [Insert.conflictTarget] at hcol
  split at hcol
  · cases hkey : (catalog.keys (bareName (lastSegment ins.table) lits)).head? with
    | none =>
      rw [hkey] at hcol
      exact absurd hcol List.not_mem_nil
    | some key =>
      rw [hkey] at hcol
      obtain ⟨c, hc, rfl⟩ := List.mem_map.1 hcol
      exact (hkeys _ key (List.mem_of_head? hkey) c hc).quoteIdent
  · split at hcol
    · exact h.columns hins col (List.mem_of_mem_take hcol)
    · obtain ⟨t, -, hfind⟩ := List.mem_filterMap.1 hcol
      exact h.columns hins col (List.mem_of_find?_eq_some hfind)

end Sought

/-! ## Assignments -/

/-- What is written for a reference to an inserted value. -/
def excludedColumn (m : Match) : Bytes :=
  ascii "EXCLUDED." ++ normalizeName (m.group 1)

theorem startsAtEdge_valuesRef : valuesRefPattern.StartsAtEdge := by
  intro c c' h
  obtain ⟨c₁, hcall, -⟩ := Pattern.leads_seqs_cons.1 h
  exact Pattern.startsAtEdge_wordEdge _ _ _ hcall

theorem startsOutside_valuesRef : valuesRefPattern.StartsOutside := by
  intro c c' h
  obtain ⟨c₁, hcall, -⟩ := Pattern.leads_seqs_cons.1 h
  exact Pattern.startsOutside_keyword (s := "VALUES") (by decide) (by decide) _ _ _ hcall

theorem consumes_valuesRef : valuesRefPattern.Consumes :=
  Pattern.consumes_of_mem List.mem_cons_self (Pattern.consumes_of_mem
    (List.mem_cons_of_mem _ List.mem_cons_self) (Pattern.consumes_keyword (s := "VALUES") (by decide)))

/-- The operator of an operation on a name, between blanks. -/
theorem selfOp_mem_upsertTexts {expr : Bytes} {m : Match} (hm : selfOpPattern.find? expr = some m) :
    ascii " " ++ m.group 2 ++ ascii " " ∈ Sought.upsertTexts := by
  have hset : Pattern.AsciiSet (CharSet.ofString "-+*/") := by decide
  obtain ⟨c₁, c₂, c', u, v, -, -, -, hop, htakes, -, -⟩ := Pattern.leads_of_group
    (l := [.textStart, .group 1 (.many1 (.one (CharSet.blank.union (CharSet.ofString "+-*/")).compl)),
      .blanks]) (r := [.blanks, .group 3 (.many (.one CharSet.any)), .textEnd])
    (q := .one (CharSet.ofString "-+*/")) (n := 2) hm (by decide)
  obtain ⟨b, -, hb, htakes', -⟩ := Pattern.leads_one_ascii hset hop
  rw [htakes.unique htakes']
  revert hb
  exact forall_byte (P := fun b => (CharSet.ofString "-+*/").contains b.toNat = true →
    ascii " " ++ [b] ++ ascii " " ∈ Sought.upsertTexts) (by decide +kernel) b

namespace Sought

variable {q : Sought} {s u v : Bytes}

section

variable (hq : q.NotWritten)

include hq

/-- References to inserted values are replaced. -/
theorem Absent.references (h : q.Absent s)
    (hrefs : ∀ m ∈ valuesRefPattern.all s, q.FollowedApart m.after) :
    q.Absent (valuesRefPattern.rewriteFrom excludedColumn none s) := by
  refine Absent.rewriteBehind (u := []) consumes_valuesRef startsOutside_valuesRef
    startsAtEdge_valuesRef (fun hm ht x hx hlast => ?_) h (Or.inl rfl) hrefs
  have hcol := ht.group (l := [valuesRefPattern.callValues, .blanks]) (r := [.blanks, .text ")"]) hm
    (Pattern.LastOutside.blanks (l := [valuesRefPattern.callValues])
      (Pattern.LastOutside.append (l := [])
        (Pattern.LastOutside.append (Pattern.lastOutside_text (by decide) rfl rfl)
          [.wordEdge, .keyword "VALUES", .blanks])))
    (Pattern.headOutside_text (by decide) rfl rfl []).blanks (by decide)
  have hname := hx.insert (hq.clauses (ascii "EXCLUDED.") (by decide)) hcol.normalizeName
    (Or.inl hlast)
  rwa [List.append_assoc] at hname

theorem Absent.excludedExpr {col expr : Bytes} (hcol : q.Absent col) (h : q.Absent expr)
    (hrefs : ∀ m ∈ valuesRefPattern.all expr, q.FollowedApart m.after) (lits : LiteralTable) :
    q.Absent (excludedExpr col expr lits) := by
  have hexpr := Absent.references hq h hrefs
  rw [SqlDialect.excludedExpr, Pattern.replaceWith_eq]
  split
  · exact hexpr
  · rename_i m hm
    split
    · have hother : q.Absent (m.group 3) := hexpr.group
        (l := [.textStart,
          .group 1 (.many1 (.one (CharSet.blank.union (CharSet.ofString "+-*/")).compl)), .blanks,
          .group 2 (.one (CharSet.ofString "-+*/")), .blanks]) (r := [.textEnd]) hm
        (Pattern.LastOutside.blanks (Pattern.LastOutside.append
          (Pattern.lastOutside_group (by decide) (forall_byte (by decide +kernel)) 2)
          [.textStart, .group 1 (.many1 (.one (CharSet.blank.union (CharSet.ofString "+-*/")).compl)),
            .blanks]))
        Pattern.headOutside_textEnd (by decide)
      have hname := absent_nil.insert (hq.clauses (ascii "EXCLUDED.") (by decide)) hcol (Or.inl rfl)
      have hall := hq.likely (selfOp_mem_upsertTexts hm) rfl hname hother
      simpa only [List.nil_append, List.append_assoc] using hall
    · exact hexpr

end

end Sought

/-- The value that an assignment in the text assigns. -/
def assignedValue? (text : Bytes) : Option Bytes :=
  (assignmentPattern.find? (trimSpace text)).map fun m => trimSpace (m.group 2)

/-- The assignments behind ON DUPLICATE KEY UPDATE in an insert. -/
def upsertAssignments (s : Bytes) : List Bytes :=
  match (Insert.ofText? s).bind fun ins => findTop? onDuplicatePattern ins.withoutIgnore with
  | some m => splitTop (trimStatementEnd m.after).1
  | none => []

/-- Behind each reference to an inserted value stands a text with which the word does not go on. -/
def Sought.ReferencesApart (q : Sought) (s : Bytes) : Prop :=
  ∀ text ∈ upsertAssignments s, ∀ value ∈ assignedValue? text,
    ∀ m ∈ valuesRefPattern.all value, q.FollowedApart m.after

instance (q : Sought) (s : Bytes) : Decidable (q.ReferencesApart s) :=
  inferInstanceAs (Decidable (∀ text ∈ upsertAssignments s, _))

namespace Sought

variable {q : Sought} {s : Bytes}

theorem Absent.upsertAssignment (hq : q.NotWritten) {text : Bytes} (h : q.Absent text)
    (hrefs : ∀ value ∈ assignedValue? text, ∀ m ∈ valuesRefPattern.all value,
      q.FollowedApart m.after) (lits : LiteralTable) : q.Absent (upsertAssignment lits text) := by
  rw [SqlDialect.upsertAssignment]
  dsimp only
  cases hm : assignmentPattern.find? (Bytes.trimSpace text) with
  | none => exact h.trimSpace
  | some m =>
    have hcol : q.Absent (m.group 1) := h.trimSpace.group (l := [.textStart])
      (r := [.blanks, .text "=", .blanks, .group 2 (.many (.one CharSet.any)), .textEnd]) hm
      (Pattern.LastOutside.append Pattern.lastOutside_textStart [])
      (Pattern.headOutside_text (by decide) rfl rfl _).blanks (by decide)
    have hvalue : q.Absent (m.group 2) := h.trimSpace.group
      (l := [.textStart,
        .group 1 (.many1 (.one (CharSet.blank.union (CharSet.ofString "=")).compl)), .blanks,
        .text "=", .blanks]) (r := [.textEnd]) hm
      (Pattern.LastOutside.blanks (Pattern.LastOutside.append
        (Pattern.lastOutside_text (by decide) rfl rfl) [.textStart,
          .group 1 (.many1 (.one (CharSet.blank.union (CharSet.ofString "=")).compl)), .blanks]))
      Pattern.headOutside_textEnd (by decide)
    have hassigned : assignedValue? text = some (Bytes.trimSpace (m.group 2)) := by
      rw [assignedValue?, hm]
      rfl
    refine hq.likely (r := ascii " = ") (by decide) rfl hcol.normalizeName ?_
    exact Absent.excludedExpr hq hcol.normalizeName hvalue.trimSpace (hrefs _ hassigned) lits

end Sought

/-! ## The clauses of an insert -/

/-- What the head of an insert ends in has no say in how the insert ends. -/
theorem EndsHead.ending {lead : Bytes} (h : EndsHead lead) (v : Bytes) :
    (trimStatementEnd (lead ++ v)).2 = (trimStatementEnd v).2 := by
  obtain ⟨w, y, t, rfl, hy, ht, -⟩ := h
  have hfirm : EndsFirmly [y] := by
    intro x hx
    obtain rfl := Option.some.inj hx
    exact forall_lowerByte (P := fun b => isEnding b = false) (by decide) hy
  have hblank : 59 ∉ t := fun hmem => absurd (ht 59 hmem) (by decide)
  rw [show w ++ y :: t ++ v = w ++ [y] ++ (t ++ v) by simp,
    trimStatementEnd_firm_append (endsFirmly_append hfirm (List.cons_ne_nil _ _) w), ending_append hblank]

/-- Leaving out IGNORE does not change whether an insert ends in a semicolon. -/
theorem ending_withoutIgnore {s : Bytes} {ins : Insert} (h : Insert.ofText? s = some ins) :
    (trimStatementEnd ins.withoutIgnore).2 = (trimStatementEnd s).2 := by
  obtain ⟨lead, ign, rest, rfl, hcut, hend, hend'⟩ := Insert.cut_of_ofText? h
  rw [hcut, hend.ending, hend'.ending]

theorem endsFirm_onDuplicate : onDuplicatePattern.EndsFirm :=
  Pattern.endsFirm_wordEdge (l := [.wordEdge])
    (Pattern.endsFirm_append (l := [.keyword "ON", .blanks1])
      (Pattern.endsFirm_append (l := [.keyword "DUPLICATE", .blanks1])
        (Pattern.endsFirm_append (l := [.keyword "KEY", .blanks1])
          (Pattern.endsFirm_keyword (s := "UPDATE") (by decide)))))

theorem consumes_onDuplicate : onDuplicatePattern.Consumes :=
  Pattern.consumes_wholePhrase (by decide) _

/-- The clause for conflicts of an upsert stands between texts that hold no words that the statement
does not hold. -/
theorem convertOnDuplicate?_parts {s : Bytes} {lits : LiteralTable} {catalog : KeyCatalog}
    {u : Upserted} (h : convertOnDuplicate? s lits catalog = some u) :
    ∃ head rest, u.text = head ++ ascii " ON CONFLICT" ++ rest ++ returningAll ++
        semicolonIf (trimStatementEnd s).2 ∧ rest.head? = some 32 ∧
      ∀ q : Sought, q.NotWritten → q.Absent s → q.ReferencesApart s →
        (∀ table, ∀ key ∈ catalog.keys table, ∀ col ∈ key.columns, q.Absent col) →
          q.Absent head ∧ q.Absent rest := by
  obtain ⟨ins, hins, hrest⟩ := Option.bind_eq_some_iff.1 h
  obtain ⟨m, hm, hu⟩ := Option.bind_eq_some_iff.1 hrest
  obtain ⟨hcut, c', hplaces⟩ := Pattern.places_of_findTop? consumes_onDuplicate hm
  have hend : (trimStatementEnd m.after).2 = (trimStatementEnd s).2 := by
    have hfirm : EndsFirmly m.text := fun x hx =>
      endsFirm_onDuplicate _ _ hplaces.leads x (by rwa [hplaces.prev_eq consumes_onDuplicate])
    rw [← ending_withoutIgnore hins, hcut, trimStatementEnd_firm_append
      (endsFirmly_append hfirm (hplaces.text_ne_nil consumes_onDuplicate) m.before)]
  have habsent : ∀ q : Sought, q.NotWritten → q.Absent s →
      q.Absent m.before ∧ q.Absent m.after := by
    intro q hq hs
    exact (Sought.Absent.withoutIgnore hq hs hins).aroundTop consumes_onDuplicate
      (Pattern.startsAtEdge_wordEdge _) (Pattern.endsOutside_wordEdge [.wordEdge, _]) hm
  dsimp only at hu
  split at hu
  · obtain rfl := Option.some.inj hu
    refine ⟨trimRight m.before, ascii " DO NOTHING", ?_, rfl, fun q hq hs _ _ => ?_⟩
    · dsimp only
      rw [hend, show ascii " ON CONFLICT DO NOTHING" = ascii " ON CONFLICT" ++ ascii " DO NOTHING"
        from rfl, ← List.append_assoc]
    · exact ⟨(habsent q hq hs).1.trimRight,
        Sought.absent_of_infixFree (hq.clauses (ascii " DO NOTHING") (by decide)).infixFree⟩
  · obtain rfl := Option.some.inj hu
    refine ⟨trimRight m.before, ascii " (" ++ join (ascii ", ") (ins.conflictTarget catalog lits) ++
      ascii ") DO UPDATE SET " ++ join (ascii ", ")
        ((splitTop (trimStatementEnd m.after).1).map (upsertAssignment lits)), ?_, rfl,
      fun q hq hs hrefs hkeys => ⟨(habsent q hq hs).1.trimRight, ?_⟩⟩
    · dsimp only
      rw [hend, show ascii " ON CONFLICT (" = ascii " ON CONFLICT" ++ ascii " (" from rfl]
      simp only [List.append_assoc]
    · have hcomma := hq.clauses (ascii ", ") (by decide)
      have hsets : ∀ set ∈ (splitTop (trimStatementEnd m.after).1).map (upsertAssignment lits),
          q.Absent set := by
        intro set hset
        obtain ⟨text, htext, rfl⟩ := List.mem_map.1 hset
        refine ((habsent q hq hs).2.trimStatementEnd.splitTop htext).upsertAssignment hq ?_ lits
        refine hrefs text ?_
        rw [upsertAssignments, hins, Option.bind_some, hm]
        exact htext
      have htarget : q.Absent (join (ascii ", ") (ins.conflictTarget catalog lits)) :=
        Sought.Absent.join hcomma rfl (hs.conflictTarget hins hkeys)
      have hopen := hq.likely (r := ascii " (") (by decide) rfl Sought.absent_nil htarget
      exact hq.likely (by decide) rfl hopen (Sought.Absent.join hcomma rfl hsets)

/-- The clause for conflicts of an insert that ignores them. -/
theorem convertInsertIgnore_parts {s : Bytes} {ins : Insert} (h : Insert.ofText? s = some ins) :
    ∃ head, convertInsertIgnore ins = head ++ ascii " ON CONFLICT" ++ ascii " DO NOTHING" ++
        returningAll ++ semicolonIf (trimStatementEnd s).2 ∧
      ∀ q : Sought, q.NotWritten → q.Absent s → q.Absent head := by
  refine ⟨(trimStatementEnd ins.withoutIgnore).1, ?_, fun q hq hs => ?_⟩
  · rw [convertInsertIgnore]
    dsimp only
    rw [ending_withoutIgnore h,
      show ascii " ON CONFLICT DO NOTHING" = ascii " ON CONFLICT" ++ ascii " DO NOTHING" from rfl,
      ← List.append_assoc]
  · exact (Sought.Absent.withoutIgnore hq hs h).trimStatementEnd

end SqlDialect
