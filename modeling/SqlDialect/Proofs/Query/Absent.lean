import SqlDialect.Proofs.Query.Settled
import SqlDialect.Proofs.Statement.Nesting
import SqlDialect.Proofs.Text.Absent
import SqlDialect.Proofs.Text.OneLine
import SqlDialect.Query.Operator
import SqlDialect.Query.Upsert

set_option autoImplicit false

/-! # Rules that bring no word about

Where a word is absent, the rules for operators and calls keep it absent: they cut a statement at the
edges of words and at parentheses, and what they write takes no part in the word (`callTexts`). The
patterns for `RETURNING` and `ON CONFLICT` occur in a text exactly if the words they stand for do not
(`hasReturning_eq_false_iff`, `occursIn_onConflict_eq_false_iff`). -/

namespace SqlDialect

open Bytes

/-! ## Patterns -/

namespace Pattern

/-- A match of the pattern starts at the edge of a word. -/
def StartsAtEdge (p : Pattern) : Prop :=
  ∀ c c' : Cursor, Leads p c c' → c.atWordEdge = true

theorem startsAtEdge_wordEdge (ps : List Pattern) : (seqs (wordEdge :: ps)).StartsAtEdge := by
  intro c c' h
  obtain ⟨c₁, hedge, -⟩ := leads_seqs_cons.1 h
  exact (leads_wordEdge.1 hedge).2

/-- Where a single word matches. -/
theorem leads_wholeWord_iff {w : String} (hw : IsKeyword w) (hascii : AsciiKeyword w)
    {prev : Option UInt8} {a b : Bytes} :
    (∃ c', Leads (wholeWord w) (.behind prev a b) c') ↔
      ∃ t r, b = t ++ r ∧ t.map lowerByte = (ascii w).map lowerByte ∧
        (a.getLast?.or prev).any isWord = false ∧ r.head?.any isWord = false := by
  constructor
  · rintro ⟨c', h⟩
    obtain ⟨t, htakes, hword, hlower, -⟩ := leads_keyword_text hw hascii (leads_edged.1 h).1
    obtain rfl : b = t ++ c'.rest := htakes.rest
    have hhead := isWord_head hword []
    rw [List.append_nil] at hhead
    exact ⟨t, c'.rest, rfl, hlower, edges_of_edged h htakes hhead (isWord_last hword [])⟩
  · rintro ⟨t, r, rfl, hlower, ha, hr⟩
    have hword := hw.isWord.of_map_lowerByte hlower
    obtain ⟨x, hx, hxword⟩ := (Option.any_eq_true _ _).1 (isWord_head hword [])
    obtain ⟨y, hy, hyword⟩ := (Option.any_eq_true _ _).1 (isWord_last hword [])
    rw [List.append_nil] at hx
    exact leads_edged_of_retakes (retakes_keyword hw hlower) hx hxword hy hyword ha hr

/-- What two words match. -/
theorem leads_wholePhrase_text {v w : String} (hv : IsKeyword v ∧ AsciiKeyword v)
    (hw : IsKeyword w ∧ AsciiKeyword w) {prev : Option UInt8} {a b : Bytes} {c' : Cursor}
    (h : Leads (wholePhrase [v, w]) (.behind prev a b) c') :
    ∃ t bl u, b = t ++ bl ++ u ++ c'.rest ∧ t.map lowerByte = (ascii v).map lowerByte ∧
      AllBlank bl ∧ bl ≠ [] ∧ u.map lowerByte = (ascii w).map lowerByte ∧
      (a.getLast?.or prev).any isWord = false ∧ c'.rest.head?.any isWord = false := by
  obtain ⟨c₁, hfirst, h₁⟩ := leads_seqs_cons.1 (leads_edged.1 h).1
  obtain ⟨c₂, hblanks, h₂⟩ := leads_seqs_cons.1 h₁
  obtain ⟨c₃, hsecond, hnil⟩ := leads_seqs_cons.1 h₂
  obtain rfl := leads_nothing.1 hnil
  obtain ⟨t, ht, htword, htlower, -⟩ := leads_keyword_text hv.1 hv.2 hfirst
  obtain ⟨bl, hne, hblank, hbl⟩ := leads_blanks1 hblanks
  obtain ⟨u, hu, huword, hulower, -⟩ := leads_keyword_text hw.1 hw.2 hsecond
  have htakes := (ht.trans hbl).trans hu
  obtain rfl : b = t ++ bl ++ u ++ c'.rest := htakes.rest
  have hhead := isWord_head htword (bl ++ u)
  rw [← List.append_assoc] at hhead
  exact ⟨t, bl, u, rfl, htlower, hblank, hne, hulower,
    edges_of_edged h htakes hhead (isWord_last huword _)⟩

/-- Where two words match. -/
theorem leads_wholePhrase_iff {v w : String} (hv : IsKeyword v ∧ AsciiKeyword v)
    (hw : IsKeyword w ∧ AsciiKeyword w) {prev : Option UInt8} {a b : Bytes} :
    (∃ c', Leads (wholePhrase [v, w]) (.behind prev a b) c') ↔
      ∃ t bl u r, b = t ++ bl ++ u ++ r ∧ t.map lowerByte = (ascii v).map lowerByte ∧
        AllBlank bl ∧ bl ≠ [] ∧ u.map lowerByte = (ascii w).map lowerByte ∧
        (a.getLast?.or prev).any isWord = false ∧ r.head?.any isWord = false := by
  constructor
  · rintro ⟨c', h⟩
    obtain ⟨t, bl, u, hb, hparts⟩ := leads_wholePhrase_text hv hw h
    exact ⟨t, bl, u, c'.rest, hb, hparts⟩
  · rintro ⟨t, bl, u, r, rfl, htlower, hblank, hne, hulower, ha, hr⟩
    have htword := hv.1.isWord.of_map_lowerByte htlower
    have huword := hw.1.isWord.of_map_lowerByte hulower
    obtain ⟨x, hx, hxword⟩ := (Option.any_eq_true _ _).1 (isWord_head htword (bl ++ (u ++ [])))
    obtain ⟨y, hy, hyword⟩ := (Option.any_eq_true _ _).1 (isWord_last huword (t ++ (bl ++ [])))
    have hretakes := (retakes_keyword hv.1 htlower).seq ((retakes_blanks1 hne hblank).seq
      ((retakes_keyword hw.1 hulower).seq retakes_nothing))
    simp only [List.append_nil] at hx hy hretakes
    refine leads_edged_of_retakes (q := phrase [v, w]) (t := t ++ bl ++ u) ?_ ?_ hxword ?_ hyword ha hr
    · rw [List.append_assoc]
      exact hretakes
    · rwa [List.append_assoc]
    · rwa [List.append_assoc] at hy ⊢

end Pattern

/-! ## Cutting a statement -/

theorem any_isWord_eq_false {o : Option UInt8} (h : ∀ x ∈ o, isWord x = false) :
    o.any isWord = false := by
  cases o with
  | none => rfl
  | some x => exact h x rfl

/-- White space that is trimmed ends a word. -/
theorem trimSpace_edges (s : Bytes) :
    ∃ a b, s = a ++ trimSpace s ++ b ∧ a.getLast?.any isWord = false ∧
      b.head?.any isWord = false := by
  obtain ⟨lead, inner, trail, hglyphs, htrim, hlead, htrail⟩ := trimSpace_glyphs s
  have hspace : ∀ gs : List Glyph, (∀ g ∈ gs, g ∈ Utf8.glyphs s) →
      (∀ g ∈ gs, isSpace g.code = true) → ∀ x ∈ Utf8.ofGlyphs gs, isWord x = false := by
    intro gs hgs hall x hx
    obtain ⟨g, hg, hxg⟩ := List.mem_flatMap.1 hx
    exact not_isWord_of_isSpace (hgs g hg) (hall g hg) x hxg
  refine ⟨Utf8.ofGlyphs lead, Utf8.ofGlyphs trail, ?_, ?_, ?_⟩
  · rw [htrim, ← Utf8.ofGlyphs_glyphs s, hglyphs]
    simp [Utf8.ofGlyphs]
  · exact any_isWord_eq_false fun x hx => hspace lead (by simp +contextual [hglyphs]) hlead x
      (List.mem_of_getLast? hx)
  · exact any_isWord_eq_false fun x hx => hspace trail (by simp +contextual [hglyphs]) htrail x
      (List.mem_of_head? hx)

/-- A list is its parts with commas between them. -/
theorem join_splitTopFrom (depth : Nat) (s : Bytes) : join [comma] (splitTopFrom depth s) = s := by
  induction s generalizing depth with
  | nil => rfl
  | cons b s ih =>
    rw [splitTopFrom]
    split
    · rename_i hcomma
      obtain ⟨part, parts, hparts⟩ := List.exists_cons_of_ne_nil (splitTopFrom_ne_nil depth s)
      rw [hparts, join_cons_cons, ← hparts, ih, hcomma.1]
      rfl
    · obtain ⟨part, parts, hparts⟩ :=
        List.exists_cons_of_ne_nil (splitTopFrom_ne_nil (stepDepth depth b) s)
      have hjoin := ih (stepDepth depth b)
      rw [hparts] at hjoin ⊢
      rw [consPart]
      cases parts with
      | nil => simpa [join] using hjoin
      | cons next parts =>
        rw [join_cons_cons] at hjoin ⊢
        rw [← hjoin]
        rfl

namespace Sought

variable {q : Sought} {s u v : Bytes}

theorem Absent.trimSpace (h : q.Absent s) : q.Absent (trimSpace s) := by
  obtain ⟨a, b, hs, ha, hb⟩ := trimSpace_edges s
  rw [hs] at h
  exact (h.left (Or.inr (Or.inl hb))).right (Or.inl (Or.inl ha))

theorem Absent.dropTailWhile {p : UInt8 → Bool} (hp : ∀ b, p b = true → isWord b = false)
    (h : q.Absent s) : q.Absent (dropTailWhile p s) := by
  rw [← dropTailWhile_append_drop p s] at h
  refine h.left (Or.inr (Or.inl (any_isWord_eq_false fun x hx => ?_)))
  exact hp x (of_mem_drop_dropTailWhile (List.mem_of_head? hx))

theorem Absent.of_mem_join {c : UInt8} (hsep : isWord c = false) {parts : List Bytes}
    (h : q.Absent (join [c] parts)) {part : Bytes} (hpart : part ∈ parts) : q.Absent part := by
  obtain ⟨a, b, hjoin, ha, hb⟩ := join_of_mem [c] hpart
  rw [hjoin] at h
  refine (h.left (Or.inr (Or.inl ?_))).right (Or.inl (Or.inl ?_))
  · rcases hb with rfl | ⟨b, rfl⟩
    · rfl
    · exact hsep
  · rcases ha with rfl | ⟨a, rfl⟩
    · rfl
    · rw [List.getLast?_concat]
      exact hsep

theorem Absent.splitTop (h : q.Absent s) {part : Bytes} (hpart : part ∈ splitTop s) :
    q.Absent part :=
  Absent.of_mem_join (c := comma) rfl
    (by rwa [show join [comma] (SqlDialect.splitTop s) = s from join_splitTopFrom 0 s]) hpart

theorem Absent.trimStatementEnd (h : q.Absent s) : q.Absent (trimStatementEnd s).1 :=
  h.dropTailWhile fun _ => isWord_of_trimmed

theorem Absent.trimRight (h : q.Absent s) : q.Absent (trimRight s) :=
  h.dropTailWhile fun _ => isWord_of_isBlank

/-! ## Replacing -/

theorem Absent.join {r : Bytes} (hr : q.Neutral r) (hhead : r.head?.any isWord = false)
    {parts : List Bytes} (h : ∀ part ∈ parts, q.Absent part) : q.Absent (join r parts) := by
  induction parts with
  | nil => exact absent_nil
  | cons part parts ih =>
    obtain ⟨hpart, hparts⟩ := List.forall_mem_cons.1 h
    cases parts with
    | nil => simpa [Bytes.join] using hpart
    | cons next parts =>
      rw [join_cons_cons, ← List.append_assoc]
      refine hpart.insert hr (ih hparts) (Or.inr fun x hx => ?_)
      rw [hx] at hhead
      exact foreign_of_not_isWord hhead

/-- What surrounds a match that starts at the edge of a word and does not end inside one. -/
theorem Absent.besides {p : Pattern} (hconsumes : p.Consumes) (hstart : p.StartsAtEdge)
    (hends : p.EndsOutside) {prev : Option UInt8} {m : Match} {c' : Pattern.Cursor}
    (hplaces : p.Places prev m c') (h : q.Absent (m.before ++ m.text ++ m.after)) :
    q.Absent m.before ∧ q.Absent m.after := by
  constructor
  · rw [List.append_assoc] at h
    refine h.left ?_
    have hedge := hstart _ _ hplaces.leads
    rw [Pattern.Cursor.atWordEdge] at hedge
    cases hbefore : m.before.getLast? with
    | none => exact Or.inl rfl
    | some x =>
      rw [hbefore, Option.some_or] at hedge
      cases hx : isWord x with
      | false => exact Or.inl hx
      | true =>
        refine Or.inr (Or.inl ?_)
        simpa [hx] using hedge
  · refine h.right ?_
    cases hlast : c'.prev.any isWord with
    | true =>
      refine Or.inr ?_
      rw [hplaces.after]
      exact hends _ _ hplaces.leads hlast
    | false =>
      refine Or.inl (Or.inl ?_)
      rwa [Pattern.getLast?_append_of_ne_nil _ (hplaces.text_ne_nil hconsumes),
        ← hplaces.prev_eq hconsumes]

theorem Absent.around {p : Pattern} (hconsumes : p.Consumes) (hstart : p.StartsAtEdge)
    (hends : p.EndsOutside) {prev : Option UInt8} {m : Match}
    (hm : p.findFrom? 0 prev s = some m) (h : q.Absent s) :
    q.Absent m.before ∧ q.Absent m.after := by
  obtain ⟨c', hplaces, -⟩ := Pattern.places_of_findFrom? hm
  exact Absent.besides hconsumes hstart hends hplaces (by rwa [Pattern.text_of_findFrom? hm])

theorem Absent.aroundTop {p : Pattern} (hconsumes : p.Consumes) (hstart : p.StartsAtEdge)
    (hends : p.EndsOutside) {m : Match} (hm : findTop? p s = some m) (h : q.Absent s) :
    q.Absent m.before ∧ q.Absent m.after := by
  obtain ⟨hs, c', hplaces⟩ := Pattern.places_of_findTop? hconsumes hm
  exact Absent.besides hconsumes hstart hends hplaces (by rwa [← hs])

/-- The two parts of a text that is cut in front of a clause, or not at all. -/
theorem Absent.splitAtClause {ps : List Pattern} (hps : ∀ p ∈ ps, p.Consumes ∧ p.StartsOutside)
    (h : q.Absent s) : ∃ a b, splitAtClause ps s = (a, b) ∧ s = a ++ b ∧ q.Absent a ∧ q.Absent b ∧
      (a.getLast?.any isWord = false ∨ b = []) := by
  rcases splitAtClause_cases (fun p hp => (hps p hp).1) s with hcut | ⟨p, hp, m, c', hm, hs, hcut⟩
  · exact ⟨s, [], hcut, (List.append_nil s).symm, h, absent_nil, Or.inr rfl⟩
  · have hlast := (hps p hp).2 _ _ hm.leads
    rw [Option.or_none] at hlast
    rw [List.append_assoc] at hs
    rw [hs] at h
    exact ⟨m.before, m.text ++ m.after, hcut, hs, h.left (Or.inl hlast),
      h.right (Or.inl (Or.inl hlast)), Or.inl hlast⟩

/-- Replacing matches by a text that takes no part in the word. -/
theorem Absent.rewriteFrom {p : Pattern} (hconsumes : p.Consumes) (hstart : p.StartsAtEdge)
    (hends : p.EndsOutside) {r : Bytes} (hr : q.Neutral r)
    (hhead : p.StartsOutside ∨ ∀ x ∈ r.head?, q.Foreign x) (h : q.Absent s)
    (prev : Option UInt8) : q.Absent (p.rewriteFrom (fun _ => r) prev s) := by
  induction hlen : s.length using Nat.strongRecOn generalizing s prev with
  | _ k ih =>
    cases hm : p.findFrom? 0 prev s with
    | none =>
      rw [Pattern.rewriteFrom_eq, hm]
      exact h
    | some m =>
      obtain ⟨hbefore, hafter⟩ := h.around hconsumes hstart hends hm
      rw [Pattern.rewriteFrom_of_findFrom? hconsumes hm]
      refine hbefore.insert hr (ih _ (hlen ▸ hconsumes.after_lt hm) hafter _ rfl) ?_
      refine hhead.imp (fun houtside => ?_) id
      obtain ⟨c', hplaces, -⟩ := Pattern.places_of_findFrom? hm
      have hprev := houtside _ _ hplaces.leads
      cases hlast : m.before.getLast? with
      | none => rfl
      | some x =>
        rw [hlast, Option.some_or] at hprev
        exact hprev

theorem Absent.replace {p : Pattern} (hconsumes : p.Consumes) (hstart : p.StartsAtEdge)
    (hends : p.EndsOutside) {r : Bytes} (hr : q.Neutral r)
    (hhead : p.StartsOutside ∨ ∀ x ∈ r.head?, q.Foreign x) (h : q.Absent s) :
    q.Absent (p.replace r s) :=
  h.rewriteFrom hconsumes hstart hends hr hhead none

/-! ## Operators and calls -/

/-- What the rules for operators and calls write. -/
def callTexts : List Bytes :=
  ["~", "!~", "split_part(", "CURRENT_TIMESTAMP AT TIME ZONE 'UTC'", "COALESCE(", "RANDOM()",
    "extract(epoch from now())::bigint", "extract(epoch from ", ")::bigint"].map ascii

theorem Absent.regexpToTilde (hq : ∀ r ∈ callTexts, q.Neutral r) (h : q.Absent s) :
    q.Absent (regexpToTilde s) := by
  have hkeys : (Pattern.keywords ["REGEXP", "RLIKE"]).Consumes :=
    Pattern.consumes_keywords (List.cons_ne_nil _ _) (by decide)
  have hnot : q.Absent (notRegexpPattern.replace (ascii "!~") s) := by
    refine h.replace ?_ ?_ ?_ (hq _ (by decide)) (Or.inr fun x hx => ?_)
    · exact Pattern.consumes_of_mem (List.mem_cons_of_mem _ List.mem_cons_self)
        (Pattern.consumes_keyword (s := "NOT") (by decide))
    · exact Pattern.startsAtEdge_wordEdge _
    · exact Pattern.endsOutside_wordEdge
        [.wordEdge, .keyword "NOT", .blanks1, .keywords ["REGEXP", "RLIKE"]]
    · obtain rfl := Option.some.inj hx
      exact foreign_of_not_isWord rfl
  refine hnot.replace ?_ ?_ ?_ (hq _ (by decide)) (Or.inr fun x hx => ?_)
  · exact Pattern.consumes_of_mem (List.mem_cons_of_mem _ List.mem_cons_self) hkeys
  · exact Pattern.startsAtEdge_wordEdge _
  · exact Pattern.endsOutside_wordEdge [.wordEdge, .keywords ["REGEXP", "RLIKE"]]
  · obtain rfl := Option.some.inj hx
    exact foreign_of_not_isWord rfl

/-- A change of an argument that brings no word about, whatever it stands between. -/
def Wraps (q : Sought) (f : Bytes → Bytes) : Prop :=
  ∀ u arg v, q.Absent u → q.Absent arg → q.Absent v → u.getLast?.any isWord = false →
    q.Absent (u ++ f arg ++ v)

theorem Absent.mapCalls {name : String} (hname : Pattern.IsKeyword name)
    (hhead : Pattern.AsciiHead name) {f : Bytes → Bytes} (hf : Wraps q f) (h : q.Absent s) :
    q.Absent (mapCalls (callHead name) f s) := by
  fun_induction SqlDialect.mapCalls (callHead name) f s with
  | case1 => exact h
  | case2 => exact h
  | case3 s m hfind arg rest hparen ih =>
    obtain ⟨c', hplaces, -⟩ := Pattern.places_of_findFrom? hfind
    have hstart : m.before.getLast?.any isWord = false := by
      have hprev := Pattern.startsOutside_keyword hname hhead _ _ _ hplaces.leads
      rwa [Option.or_none] at hprev
    obtain ⟨hbefore, hafter⟩ := h.around (consumes_callHead hname)
      (Pattern.startsAtEdge_wordEdge _)
      (Pattern.endsOutside_text (by decide) rfl rfl [.wordEdge, .keyword name, .blanks]) hfind
    rw [eq_append_of_splitParen? hparen] at hafter
    refine hf _ _ _ hbefore (hafter.left (Or.inr (Or.inl rfl))) (ih ?_) hstart
    have hclose := hafter.right (Or.inr rfl)
    exact hclose.right (u := [closeParen]) (Or.inl (Or.inl rfl))

/-- An argument in parentheses of its own, or with fixed texts around it. -/
theorem wraps_of_neutral {open_ close : Bytes} (hopen : q.Neutral open_) (hclose : q.Neutral close)
    (hhead : close.head?.any isWord = false) :
    Wraps q fun arg => open_ ++ trimSpace arg ++ close := by
  intro u arg v hu harg hv hlast
  have hrest : q.Absent (Bytes.trimSpace arg ++ close ++ v) :=
    harg.trimSpace.insert hclose hv (Or.inr fun x hx => by
      rw [hx] at hhead
      exact foreign_of_not_isWord hhead)
  have hall := hu.insert hopen hrest (Or.inl hlast)
  simpa only [List.append_assoc] using hall

theorem wraps_epochOf (hq : ∀ r ∈ callTexts, q.Neutral r) :
    Wraps q convertFunctions.epochOf := by
  intro u arg v hu harg hv hlast
  rw [convertFunctions.epochOf]
  split
  · exact hu.insert (hq _ (by decide)) hv (Or.inl hlast)
  · exact wraps_of_neutral (hq _ (by decide)) (hq _ (by decide)) rfl u arg v hu harg hv hlast

theorem Absent.convertFunctions (hq : ∀ r ∈ callTexts, q.Neutral r) (hs : q.Foreign 115)
    (h : q.Absent s) : q.Absent (convertFunctions s) := by
  have hcall : ∀ {t : Bytes} (name : String) {r : Bytes}, Pattern.IsKeyword name → q.Neutral r →
      ((callHead name).StartsOutside ∨ ∀ x ∈ r.head?, q.Foreign x) → q.Absent t →
      q.Absent ((callHead name).replace r t) := fun name _ hname hr hhead ht =>
    ht.replace (consumes_callHead hname) (Pattern.startsAtEdge_wordEdge _)
      (Pattern.endsOutside_text (by decide) rfl rfl [.wordEdge, .keyword name, .blanks]) hr hhead
  have hempty : ∀ {t : Bytes} (name : String) {r : Bytes}, Pattern.IsKeyword name →
      Pattern.AsciiHead name → q.Neutral r → q.Absent t →
      q.Absent ((emptyCall name).replace r t) := by
    intro t name r hname hhead hr ht
    refine ht.replace (Pattern.consumes_of_mem List.mem_cons_self (consumes_callHead hname)) ?_
      (Pattern.endsOutside_text (by decide) rfl rfl [callHead name, .blanks]) hr (Or.inl ?_)
    · intro c c' hleads
      obtain ⟨c₁, hcall, -⟩ := Pattern.leads_seqs_cons.1 hleads
      exact Pattern.startsAtEdge_wordEdge _ _ _ hcall
    · intro c c' hleads
      obtain ⟨c₁, hcall, -⟩ := Pattern.leads_seqs_cons.1 hleads
      exact Pattern.startsOutside_keyword hname hhead _ _ _ hcall
  have h₁ := hcall "SUBSTRING_INDEX" (r := ascii "split_part(") (by decide) (hq _ (by decide))
    (Or.inr fun x hx => by obtain rfl := Option.some.inj hx; exact hs) h
  have h₂ := hempty "UTC_TIMESTAMP" (r := ascii "CURRENT_TIMESTAMP AT TIME ZONE 'UTC'") (by decide)
    (by decide) (hq _ (by decide)) h₁
  have h₃ := hcall "IFNULL" (r := ascii "COALESCE(") (by decide) (hq _ (by decide))
    (Or.inl (Pattern.startsOutside_keyword (by decide) (by decide) _)) h₂
  have h₄ := hempty "RAND" (r := ascii "RANDOM()") (by decide) (by decide) (hq _ (by decide)) h₃
  exact h₄.mapCalls (by decide) (by decide) (wraps_epochOf hq)

theorem Absent.likeToILike (hr : q.Neutral (ascii "ILIKE")) (h : q.Absent s) :
    q.Absent (likeToILike s) :=
  h.replace (Pattern.consumes_wholeWord (by decide)) (Pattern.startsAtEdge_wordEdge _)
    (Pattern.endsOutside_wordEdge [.wordEdge, .keyword "LIKE"]) hr
    (Or.inl (Pattern.startsOutside_keyword (by decide) (by decide) _))

end Sought

/-! ## Clauses of an insert -/

/-- The word RETURNING. -/
def returningWord : Sought where
  word := ascii "returning"
  isWord_word := by decide
  isWord_lead := by decide

/-- The word CONFLICT behind the word ON. -/
def conflictWords : Sought where
  word := ascii "conflict"
  lead := some (ascii "on")
  isWord_word := by decide
  isWord_lead := by decide

theorem edgeLeft_false_iff {a : Bytes} : EdgeLeft false a ↔ a.getLast?.any isWord = false :=
  ⟨fun h => h.resolve_right fun ⟨hfalse, _⟩ => Bool.noConfusion hfalse, Or.inl⟩

theorem edgeRight_false_iff {b : Bytes} : EdgeRight false b ↔ b.head?.any isWord = false :=
  ⟨fun h => h.resolve_right fun ⟨hfalse, _⟩ => Bool.noConfusion hfalse, Or.inl⟩

/-- A pattern does not occur exactly if what is looked for is where it matches, and is absent. -/
theorem Sought.occursIn_eq_false_iff {q : Sought} {p : Pattern} (hp : p.StartsAscii)
    (hiff : ∀ s, (∃ a b, s = a ++ b ∧ ∃ c', Pattern.Leads p (.behind none a b) c') ↔
      ∃ a o b, s = a ++ o ++ b ∧ q.Stands a o b) {s : Bytes} :
    p.occursIn s = false ↔ q.Absent s := by
  rw [Bool.eq_false_iff, ne_eq, Pattern.occursIn_iff hp, hiff, Sought.Absent]
  push Not
  rfl

/-- RETURNING is absent exactly where its pattern does not occur. -/
theorem hasReturning_eq_false_iff {s : Bytes} :
    hasReturning s = false ↔ returningWord.Absent s := by
  refine Sought.occursIn_eq_false_iff (fun c c' h => ?_) fun s => ?_
  · obtain ⟨x, u, hrest, hx⟩ := Pattern.leads_keyword_head (by decide) (Pattern.leads_edged.1 h).1
    exact ⟨x, u, hrest, hx⟩
  · simp only [Clause.returningPattern, Pattern.leads_wholeWord_iff (w := "RETURNING") (by decide)
      (by decide), Option.or_none]
    constructor
    · rintro ⟨a, b, rfl, t, r, rfl, hlower, ha, hr⟩
      exact ⟨a, t, r, (List.append_assoc a t r).symm, hlower.trans (by decide), Or.inl ha,
        Or.inl hr, fun l hl => by cases hl⟩
    · rintro ⟨a, o, b, rfl, hstands⟩
      exact ⟨a, o ++ b, List.append_assoc a o b, o, b, rfl, hstands.reads.trans (by decide),
        edgeLeft_false_iff.1 hstands.left, edgeRight_false_iff.1 hstands.right⟩

/-- What stands around the second of the two words where they match. -/
theorem conflictWords_stands {a t bl u r : Bytes} (htlower : t.map lowerByte = (ascii "ON").map lowerByte)
    (hblank : AllBlank bl) (hne : bl ≠ []) (hulower : u.map lowerByte = (ascii "CONFLICT").map lowerByte)
    (ha : a.getLast?.any isWord = false) (hr : r.head?.any isWord = false) :
    conflictWords.Stands (a ++ t ++ bl) u r := by
  refine ⟨hulower.trans (by decide), Or.inl ?_, Or.inl hr, ?_⟩
  · rw [Pattern.getLast?_append_of_ne_nil _ hne]
    exact any_isWord_eq_false fun x hx =>
      (ascii_of_blank (hblank x (List.mem_of_getLast? hx))).2.2
  · rintro l hl
    obtain rfl := Option.some.inj hl
    exact ⟨a, t, bl, rfl, htlower.trans (by decide), hblank, hne, Or.inl ha⟩

/-- ON CONFLICT is absent exactly where its pattern does not occur. -/
theorem occursIn_onConflict_eq_false_iff {s : Bytes} :
    onConflictPattern.occursIn s = false ↔ conflictWords.Absent s := by
  refine Sought.occursIn_eq_false_iff (fun c c' h => ?_) fun s => ?_
  · obtain ⟨c₁, hfirst, -⟩ := Pattern.leads_seqs_cons.1 (Pattern.leads_edged.1 h).1
    exact Pattern.leads_keyword_head (by decide) hfirst
  · simp only [onConflictPattern, Pattern.leads_wholePhrase_iff (v := "ON") (w := "CONFLICT")
      (by decide) (by decide), Option.or_none]
    constructor
    · rintro ⟨a, b, rfl, t, bl, u, r, rfl, htlower, hblank, hne, hulower, ha, hr⟩
      exact ⟨a ++ t ++ bl, u, r, by simp, conflictWords_stands htlower hblank hne hulower ha hr⟩
    · rintro ⟨a, o, b, rfl, hstands⟩
      obtain ⟨a', t, bl, rfl, htlower, hblank, hne, hleft⟩ := hstands.led _ rfl
      exact ⟨a', t ++ bl ++ o ++ b, by simp, t, bl, o, b, rfl, htlower.trans (by decide), hblank,
        hne, hstands.reads.trans (by decide), edgeLeft_false_iff.1 hleft,
        edgeRight_false_iff.1 hstands.right⟩

/-- A match of ON CONFLICT stands where the words do. -/
theorem stands_of_onConflict {prev : Option UInt8} {s : Bytes} {m : Match}
    (h : onConflictPattern.findFrom? 0 prev s = some m) :
    ∃ a o, s = a ++ o ++ m.after ∧ conflictWords.Stands a o m.after := by
  obtain ⟨c', hplaces, -⟩ := Pattern.places_of_findFrom? h
  obtain ⟨t, bl, u, htext, htlower, hblank, hne, hulower, ha, hr⟩ :=
    Pattern.leads_wholePhrase_text (v := "ON") (w := "CONFLICT") (by decide) (by decide)
      (a := m.before) (b := m.text ++ m.after) hplaces.leads
  rw [← hplaces.after] at htext hr
  refine ⟨m.before ++ t ++ bl, u, ?_, conflictWords_stands htlower hblank hne hulower ?_ hr⟩
  · rw [← Pattern.text_of_findFrom? h, List.append_assoc, htext]
    simp
  · cases hlast : m.before.getLast? with
    | none => rfl
    | some x =>
      rw [hlast] at ha
      exact ha

end SqlDialect
