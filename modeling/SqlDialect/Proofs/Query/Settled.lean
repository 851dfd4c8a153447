import SqlDialect.Proofs.Literal.Stray
import SqlDialect.Proofs.Statement.Cut
import SqlDialect.Query.Call
import SqlDialect.Query.FoundRows
import SqlDialect.Query.Order

set_option autoImplicit false

/-! # The rules keep texts settled

Each rule that runs before the one for sort columns keeps a settled text settled: what it writes can
be no part of a stray stretch, and it cuts words only at their edges. The exception is the rule that
drops the modifier of a query: it may join what stands on both sides of the modifier. Where no word
and no backtick follows the modifier (`ModifiersApart`), this rule keeps the text settled as well. -/

namespace SqlDialect

open Bytes

variable {n : Nat} {s : Bytes}

theorem isTokenByte_eq_false {b : UInt8} (hword : isWord b = false) (htick : b ≠ backtick)
    (ticks : Bool) : isTokenByte ticks b = false := by
  have hletters : ∀ x ∈ ascii "_pglit", isWord x = true := by decide
  have hnot : ¬ lowerByte b ∈ ascii "_pglit" := fun hmem =>
    ne_of_isWord (hletters _ hmem) ((isWord_lowerByte b).trans hword) rfl
  simp [isTokenByte, isDigit_of_not_isWord hword, hnot, htick]

theorem isTokenByte_false {b : UInt8} (hword : isWord b = false) : isTokenByte false b = false := by
  by_cases htick : b = backtick
  · rw [htick]
    rfl
  · exact isTokenByte_eq_false hword htick false

/-! ## Replacing matches by a fixed text -/

/-- No stray stretch can lie in the text or reach into it, whatever stands around it. -/
def Inert (r : Bytes) : Prop :=
  r.count 95 < 4 ∧ r.head?.any (· != 95) = true ∧ 95 ∉ r.takeWhile (isTokenByte false) ∧
    r.getLast?.any (fun x => !isTokenByte false x) = true

instance (r : Bytes) : Decidable (Inert r) :=
  inferInstanceAs (Decidable (_ ∧ _))

theorem Inert.sealed_left {r : Bytes} (h : Inert r) (u : Bytes) : Sealed false u r := by
  refine Or.inr ⟨r.takeWhile (isTokenByte false), r.dropWhile (isTokenByte false),
    List.takeWhile_append_dropWhile.symm, h.2.2.1, ?_, ?_⟩
  · intro hmem
    exact absurd (List.all_eq_true.1 List.all_takeWhile _ hmem) (by decide)
  · intro x hx
    have hnot := List.head?_dropWhile_not (isTokenByte false) r
    rw [hx] at hnot
    exact hnot

theorem Inert.sealed_right {r : Bytes} (h : Inert r) (u v : Bytes) : Sealed false (u ++ r) v := by
  obtain ⟨x, hlast, hx⟩ := (Option.any_eq_true _ _).1 h.2.2.2
  refine sealed_of_last (fun y hy => ?_) v
  rw [List.getLast?_append, hlast] at hy
  obtain rfl : x = y := Option.some.inj hy
  simpa using hx

/-- Where the new text starts with an underscore, the old text does. -/
theorem head?_rewriteFrom {p : Pattern} {f : Match → Bytes}
    (hf : ∀ m, (f m).head?.any (· != 95) = true) (prev : Option UInt8)
    (h : s.head? ≠ some 95) : (p.rewriteFrom f prev s).head? ≠ some 95 := by
  rw [Pattern.rewriteFrom_eq]
  cases hfind : p.findFrom? 0 prev s with
  | none => exact h
  | some m =>
    dsimp only
    split
    · have htext := Pattern.text_of_findFrom? hfind
      obtain ⟨x, hx, hne⟩ := (Option.any_eq_true _ _).1 (hf m)
      cases hbefore : m.before with
      | nil =>
        rw [List.nil_append, List.head?_append, hx]
        intro heq
        obtain rfl : x = 95 := Option.some.inj heq
        exact absurd hne (by decide)
      | cons b before =>
        rw [hbefore] at htext
        rw [← htext] at h
        exact h
    · exact h

/-- Replacing matches that do not end inside a word by an inert text keeps a text settled. -/
theorem Settled.rewriteFrom {p : Pattern} (hconsumes : p.Consumes) (hends : p.EndsOutside)
    {r : Bytes} (hr : Inert r) {prev : Option UInt8} (h : Settled false n prev s) :
    Settled false n prev (p.rewriteFrom (fun _ => r) prev s) := by
  induction hlen : s.length using Nat.strongRecOn generalizing s prev with
  | _ k ih =>
    rw [Pattern.rewriteFrom_eq]
    cases hfind : p.findFrom? 0 prev s with
    | none => exact h
    | some m =>
      dsimp only
      split
      · rename_i hlt
        obtain ⟨c', hplaces, -⟩ := Pattern.places_of_findFrom? hfind
        have hprev := hplaces.prev_eq hconsumes
        rw [← Pattern.text_of_findFrom? hfind] at h
        have hrest := ih _ (hlen ▸ hlt) (h.right_of_ne_nil (hplaces.text_ne_nil hconsumes)) rfl
        refine (h.left.left.append (settled_of_count hr.1 _) (hr.sealed_left _)).append
          (hrest.behind fun hword => Or.inr ?_) (hr.sealed_right _ _)
        -- behind a match that ends in a word byte no word goes on
        refine head?_rewriteFrom (fun _ => hr.2.1) _ fun hhead => ?_
        rw [← hprev] at hword
        have hnext := hends _ _ hplaces.leads hword
        rw [← hplaces.after, hhead] at hnext
        exact absurd hnext (by decide)
      · exact h

theorem Settled.replace {p : Pattern} (hconsumes : p.Consumes) (hends : p.EndsOutside)
    {r : Bytes} (hr : Inert r) (h : Settled false n none s) :
    Settled false n none (p.replace r s) :=
  h.rewriteFrom hconsumes hends hr

/-! ## Operators -/

theorem Settled.likeToILike (h : Settled false n none s) :
    Settled false n none (likeToILike s) := by
  refine h.replace (Pattern.consumes_of_mem (p := .keyword "LIKE") ?_ ?_) ?_ (by decide)
  · exact List.mem_cons_of_mem _ List.mem_cons_self
  · exact Pattern.consumes_keyword (by decide)
  · exact Pattern.endsOutside_wordEdge [.wordEdge, .keyword "LIKE"]

theorem Settled.regexpToTilde (h : Settled false n none s) :
    Settled false n none (regexpToTilde s) := by
  have hkeys : (Pattern.keywords ["REGEXP", "RLIKE"]).Consumes :=
    Pattern.consumes_keywords (List.cons_ne_nil _ _) (by decide)
  have hnot : Settled false n none (notRegexpPattern.replace (ascii "!~") s) := by
    refine h.replace (Pattern.consumes_of_mem (p := .keyword "NOT") ?_ ?_) ?_ (by decide)
    · exact List.mem_cons_of_mem _ List.mem_cons_self
    · exact Pattern.consumes_keyword (by decide)
    · exact Pattern.endsOutside_wordEdge
        [.wordEdge, .keyword "NOT", .blanks1, .keywords ["REGEXP", "RLIKE"]]
  refine hnot.replace (Pattern.consumes_of_mem ?_ hkeys) ?_ (by decide)
  · exact List.mem_cons_of_mem _ List.mem_cons_self
  · exact Pattern.endsOutside_wordEdge [.wordEdge, .keywords ["REGEXP", "RLIKE"]]

/-! ## Calls -/

theorem consumes_callHead {name : String} (hname : Pattern.IsKeyword name) :
    (callHead name).Consumes :=
  Pattern.consumes_of_mem (List.mem_cons_of_mem _ List.mem_cons_self)
    (Pattern.consumes_keyword hname)

theorem Settled.replace_callHead (name : String) (hname : Pattern.IsKeyword name) {r : Bytes}
    (hr : Inert r) (h : Settled false n none s) :
    Settled false n none ((callHead name).replace r s) :=
  h.replace (consumes_callHead hname) (Pattern.endsOutside_text (by decide) rfl rfl
    [.wordEdge, .keyword name, .blanks]) hr

theorem Settled.replace_emptyCall (name : String) (hname : Pattern.IsKeyword name) {r : Bytes}
    (hr : Inert r) (h : Settled false n none s) :
    Settled false n none ((emptyCall name).replace r s) :=
  h.replace (Pattern.consumes_of_mem List.mem_cons_self (consumes_callHead hname))
    (Pattern.endsOutside_text (by decide) rfl rfl [callHead name, .blanks]) hr

theorem prev_of_callHead {name : String} {c c' : Pattern.Cursor}
    (h : Pattern.Leads (callHead name) c c') : c'.prev = some openParen := by
  obtain ⟨c₁, -, hend⟩ := (Pattern.leads_seqs_append [.wordEdge, .keyword name, .blanks]
    [.text "("]).1 h
  obtain ⟨c₂, htext, hnil⟩ := Pattern.leads_seqs_cons.1 hend
  obtain rfl := Pattern.leads_nothing.1 hnil
  exact (Pattern.leads_text (by decide) htext).prev

/-- A change of an argument that keeps it settled and seals it to the right. -/
structure Seals (n : Nat) (f : Bytes → Bytes) : Prop where
  settled : ∀ arg, Settled false n none arg → Settled false n none (f arg)
  back : ∀ arg, ∃ u₁ x u₂, f arg = u₁ ++ x :: u₂ ∧ isTokenByte false x = false ∧ 95 ∉ u₂

theorem Settled.mapCalls {name : String} (hname : Pattern.IsKeyword name)
    (hhead : Pattern.AsciiHead name) {f : Bytes → Bytes} (hf : Seals n f)
    (h : Settled false n none s) : Settled false n none (mapCalls (callHead name) f s) := by
  fun_induction SqlDialect.mapCalls (callHead name) f s with
  | case1 => exact h
  | case2 => exact h
  | case3 s m hfind arg rest hparen ih =>
    obtain ⟨c', hplaces, -⟩ := Pattern.places_of_findFrom? hfind
    have hstart : (m.before.getLast?.or none).any isWord = false :=
      Pattern.startsOutside_keyword hname hhead _ _ _ hplaces.leads
    have hopen : m.text.getLast? = some openParen := by
      rw [← hplaces.prev_eq (consumes_callHead hname), prev_of_callHead hplaces.leads]
    rw [← Pattern.text_of_find? hfind, eq_append_of_splitParen? hparen] at h
    have hinner := h.right
    rw [List.getLast?_append, hopen] at hinner
    have harg : Settled false n none arg :=
      hinner.left.behind fun hword => absurd hword Bool.false_ne_true
    have hrest : Settled false n none rest := by
      have hclose : Settled false n (some closeParen) rest := by
        have hright := hinner.right (v := closeParen :: rest)
        exact (Settled.right (u := [closeParen]) hright)
      exact hclose.behind fun hword => absurd hword (by decide)
    have hbefore : Sealed false m.before (f arg) := by
      refine sealed_of_last (fun x hx => isTokenByte_false ?_) _
      rw [hx] at hstart
      exact hstart
    obtain ⟨u₁, x, u₂, hfarg, hx, hu₂⟩ := hf.back arg
    refine (h.left.left.append (hf.settled arg harg).of_none hbefore).append (ih hrest).of_none ?_
    rw [hfarg, ← List.append_assoc]
    exact sealed_of_append _ hx hu₂ _

theorem Settled.trimSpace {ticks : Bool} (h : Settled ticks n none s) :
    Settled ticks n none (Bytes.trimSpace s) := by
  obtain ⟨lead, inner, trail, hglyphs, htrim, hlead, -⟩ := trimSpace_glyphs s
  have hs : s = Utf8.ofGlyphs lead ++ Bytes.trimSpace s ++ Utf8.ofGlyphs trail := by
    rw [htrim, ← Utf8.ofGlyphs_glyphs s, hglyphs]
    simp [Utf8.ofGlyphs]
  rw [hs] at h
  refine h.left.right.behind fun hword => ?_
  obtain ⟨x, hx, hxword⟩ := (Option.any_eq_true _ _).1 hword
  rw [Option.or_none] at hx
  obtain ⟨g, hg, hxg⟩ := List.mem_flatMap.1 (List.mem_of_getLast? hx)
  have hspace := not_isWord_of_isSpace (s := s) (by rw [hglyphs]; simp [hg]) (hlead g hg) x hxg
  exact absurd (hspace.symm.trans hxword) Bool.false_ne_true

theorem seals_epochOf : Seals n convertFunctions.epochOf where
  settled arg harg := by
    rw [convertFunctions.epochOf]
    split
    · exact settled_of_count (by decide) _
    · refine Settled.append (Settled.append (settled_of_count (by decide) _)
        harg.trimSpace.of_none ?_) (settled_of_count (by decide) _) ?_
      · exact sealed_of_append (ascii "extract(epoch from") (x := 32) rfl List.not_mem_nil _
      · exact sealed_of_head _ (fun x hx => by obtain rfl := Option.some.inj hx; rfl)
  back arg := by
    rw [convertFunctions.epochOf]
    split
    · exact ⟨ascii "extract(epoch from now())::bigi", 110, ascii "t", by decide, by decide, by decide⟩
    · refine ⟨ascii "extract(epoch from " ++ Bytes.trimSpace arg ++ ascii ")::bigi", 110, ascii "t",
        ?_, by decide, by decide⟩
      rw [List.append_assoc _ (ascii ")::bigi")]
      rfl

theorem seals_castToDate : Seals n castToDate where
  settled arg harg := by
    rw [castToDate]
    split
    · refine harg.trimSpace.append (settled_of_count (by decide) _) ?_
      exact sealed_of_head _ (fun x hx => by obtain rfl := Option.some.inj hx; rfl)
    · refine Settled.append (Settled.append (settled_of_count (by decide) _)
        harg.trimSpace.of_none ?_) (settled_of_count (by decide) _) ?_
      · exact sealed_of_append [] (x := openParen) rfl List.not_mem_nil _
      · exact sealed_of_head _ (fun x hx => by obtain rfl := Option.some.inj hx; rfl)
  back arg := by
    rw [castToDate]
    split
    · refine ⟨Bytes.trimSpace arg ++ ascii "::dat", 101, [], ?_, by decide, List.not_mem_nil⟩
      rw [List.append_assoc]
      rfl
    · refine ⟨ascii "(" ++ Bytes.trimSpace arg ++ ascii ")::dat", 101, [], ?_, by decide,
        List.not_mem_nil⟩
      rw [List.append_assoc _ (ascii ")::dat")]
      rfl

theorem Settled.convertFunctions (h : Settled false n none s) :
    Settled false n none (convertFunctions s) :=
  have h₁ := h.replace_callHead "SUBSTRING_INDEX" (r := ascii "split_part(") (by decide) (by decide)
  have h₂ := h₁.replace_emptyCall "UTC_TIMESTAMP"
    (r := ascii "CURRENT_TIMESTAMP AT TIME ZONE 'UTC'") (by decide) (by decide)
  have h₃ := h₂.replace_callHead "IFNULL" (r := ascii "COALESCE(") (by decide) (by decide)
  have h₄ := h₃.replace_emptyCall "RAND" (r := ascii "RANDOM()") (by decide) (by decide)
  h₄.mapCalls (by decide) (by decide) seals_epochOf

/-! ## Clauses -/

theorem Settled.castDateCalls (h : Settled false n none s) :
    Settled false n none (castDateCalls s) := by
  rw [castDateCalls_eq]
  rcases splitAtClause_cases (fun p hp => (dateClauses_start p hp).1) s with
    hcut | ⟨p, hp, m, c', hm, hs, hcut⟩
  · rw [hcut]
    dsimp only
    refine h.append (Settled.mapCalls (by decide) (by decide) seals_castToDate
      (settled_of_count (by decide) _)).of_none (sealed_of_head _ fun x hx => ?_)
    rw [SqlDialect.mapCalls] at hx
    cases hx
  · rw [hcut]
    have hstart := (dateClauses_start p hp).2 _ _ hm.leads
    rw [hs, List.append_assoc] at h
    have hclauses : Settled false n none (m.text ++ m.after) :=
      h.right.behind fun hword => absurd (hstart.symm.trans hword) Bool.false_ne_true
    refine h.left.append
      (hclauses.mapCalls (by decide) (by decide) seals_castToDate).of_none ?_
    refine sealed_of_last (fun x hx => isTokenByte_false ?_) _
    rw [hx] at hstart
    exact hstart

/-! ## Sorting by a number -/

/-- The characters of a column with its qualifiers and quotes. -/
def columnSet : CharSet :=
  CharSet.word.union (CharSet.ofString ".\"")

theorem contains_columnSet {b : UInt8} (hb : isWord b = true) :
    columnSet.contains b.toNat = true := by
  revert hb
  exact forall_byte (P := fun b => isWord b = true → columnSet.contains b.toNat = true)
    (by decide +kernel) b

/-- What the pattern for `column + 0` takes and records. -/
theorem leads_plusZero {c c' : Pattern.Cursor} (h : Pattern.Leads plusZeroPattern c c') :
    ∃ col mid next, c.Takes (col ++ mid ++ next) c' ∧
      (∃ d d', Pattern.Leads (.seqs [.blanks, .text "+", .blanks, .text "0"]) d d' ∧
        d.Takes mid d') ∧
      (∃ x u, col = x :: u ∧ x < 128 ∧ columnSet.contains x.toNat = true) ∧
      (∀ b ∈ next, isWord b = false) ∧ (next = [] → c'.rest = []) ∧
      (c.taken = 0 → c.groups = [] →
        c'.groups.map (fun g => (g.number, g.text c.rest)) = [(2, next), (1, col)]) := by
  obtain ⟨c₁, hgroup, hrest⟩ := Pattern.leads_seqs_cons.1 h
  obtain ⟨d₁, hcol, rfl⟩ := Pattern.leads_group.1 hgroup
  obtain ⟨c₀, hone, hmany⟩ := Pattern.leads_seq.1 hcol
  obtain ⟨x, hx, hset, hfirst, hgroups⟩ := Pattern.leads_one_ascii (by decide) hone
  obtain ⟨u, hmore⟩ := hmany.takes
  have htakes₁ := hfirst.trans hmore
  obtain ⟨c₂, hmid, hend⟩ := (Pattern.leads_seqs_append
    [.blanks, .text "+", .blanks, .text "0"] _).1 hrest
  obtain ⟨mid, htakes₂⟩ := hmid.takes
  obtain ⟨c₃, hgroup', hnil⟩ := Pattern.leads_seqs_cons.1 hend
  obtain rfl := Pattern.leads_nothing.1 hnil
  obtain ⟨d₂, hnext, rfl⟩ := Pattern.leads_group.1 hgroup'
  -- group 2 is one character, or nothing at the end of the text
  obtain ⟨next, htakes₃, hword, hlast⟩ : ∃ next, c₂.Takes next d₂ ∧
      (∀ b ∈ next, isWord b = false) ∧ (next = [] → d₂.rest = []) := by
    rcases Pattern.leads_alt.1 hnext with hchar | hend
    · cases hchar with
      | one hcode hset =>
        obtain ⟨b, t, htakes, -, hb⟩ := Pattern.Cursor.takes_of_next? hcode
        refine ⟨b :: t, htakes, ?_, fun hnil => absurd hnil (List.cons_ne_nil _ _)⟩
        rcases hb with ⟨hb, rfl, rfl⟩ | ⟨hb, ht, -⟩
        · refine List.forall_mem_singleton.2 ?_
          revert hset
          exact forall_byte (P := fun b => (CharSet.word.union (CharSet.ofString ".")).compl.contains
            b.toNat = true → isWord b = false) (by decide +kernel) b
        · intro y hy
          rw [Bool.eq_false_iff]
          intro hword
          rcases List.mem_cons.1 hy with rfl | hy
          · exact UInt8.not_lt.2 hb (ascii_of_isWord hword)
          · exact UInt8.not_lt.2 (ht y hy) (ascii_of_isWord hword)
    · cases hend with
      | textEnd hempty =>
        exact ⟨[], .refl _, fun b hb => absurd hb List.not_mem_nil, fun _ => hempty⟩
  have htakes₁₂ : c.Takes ([x] ++ u ++ mid) c₂ := (htakes₁.record 1 c).trans htakes₂
  refine ⟨[x] ++ u, mid, next, (htakes₁₂.trans htakes₃).record 2 c₂, ⟨_, c₂, hmid, htakes₂⟩,
    ⟨x, u, rfl, hx, hset⟩, hword, hlast, ?_⟩
  intro htaken hnone
  have hd₁ : d₁.groups = [] := by rw [hmany.groups_eq (by decide), hgroups, hnone]
  have hd₂ : d₂.groups = [⟨1, c.taken, d₁.taken - c.taken⟩] := by
    rw [hnext.groups_eq (by decide), hmid.groups_eq (by decide), Pattern.Cursor.record, hd₁]
  rw [Pattern.Cursor.record, hd₂, List.map_cons, List.map_singleton]
  rw [Pattern.text_recorded htaken htakes₁₂ htakes₃,
    Pattern.text_recorded htaken (.refl c) htakes₁]

theorem consumes_plusZero : plusZeroPattern.Consumes := by
  intro c c' h
  obtain ⟨col, mid, next, htakes, -, ⟨x, u, rfl, -⟩, -⟩ := leads_plusZero h
  exact htakes.taken_lt (List.cons_ne_nil _ _)

/-- What is found of `column + 0` records the column and what follows the zero: no word byte, or the
zero ends the text. -/
theorem exists_between_of_find_plusZero {prev : Option UInt8} {m : Match}
    (h : plusZeroPattern.findFrom? 0 prev s = some m) :
    ∃ mid, m.text = m.group 1 ++ mid ++ m.group 2 ∧
      (∃ d d', Pattern.Leads (.seqs [.blanks, .text "+", .blanks, .text "0"]) d d' ∧
        d.Takes mid d') ∧
      (∀ b ∈ m.group 2, isWord b = false) ∧ (m.group 2 = [] → m.after = []) := by
  obtain ⟨c', hplaces, hgroups⟩ := Pattern.places_of_findFrom? h
  obtain ⟨col, mid, next, htakes, hmid, -, hnext, hend, hrecorded⟩ := leads_plusZero hplaces.leads
  rw [hrecorded rfl rfl] at hgroups
  have hcol : m.group 1 = col := by
    rw [Match.group, Match.group?, hgroups]
    rfl
  have hbehind : m.group 2 = next := by
    rw [Match.group, Match.group?, hgroups]
    rfl
  rw [hcol, hbehind]
  exact ⟨mid, hplaces.takes.unique htakes, hmid, hnext, fun hnil => hplaces.after.trans (hend hnil)⟩

/-- The column is found from its first byte on, unless the text starts within it. -/
theorem prev_of_find_plusZero {prev : Option UInt8} {m : Match}
    (h : plusZeroPattern.findFrom? 0 prev s = some m)
    (hedge : prev.any isWord = true →
      ∀ x, s.head? = some x → ¬ (x < 128 ∧ columnSet.contains x.toNat = true)) :
    (m.before.getLast?.or prev).any isWord = false := by
  refine Pattern.prev_of_findFrom? rfl (fun c c' hleads => ?_) (fun _ => contains_columnSet) h hedge
  obtain ⟨col, mid, next, htakes, -, ⟨x, u, rfl, hx⟩, -⟩ := leads_plusZero hleads
  exact ⟨x, _, htakes.rest, hx⟩

/-- What is written for a sort key `column + 0`. -/
def castKey (k : Match) : Bytes :=
  ascii "CAST(" ++ k.group 1 ++ ascii " AS INTEGER)" ++ k.group 2

theorem Settled.append_castKey {prev : Option UInt8} {before col next rest : Bytes}
    (hbefore : Settled false n prev before) (hcol : Settled false n none col)
    (hnext : ∀ b ∈ next, isWord b = false)
    (hrest : Settled false n (next.getLast?.or (some closeParen)) rest) :
    Settled false n prev
      (before ++ (ascii "CAST(" ++ col ++ ascii " AS INTEGER)" ++ next) ++ rest) := by
  have hinert : Inert (ascii "CAST(") ∧ Inert (ascii " AS INTEGER)") := by decide
  have hnext95 : 95 ∉ next := fun hmem => absurd (hnext 95 hmem) (by decide)
  have hopen : Settled false n prev (before ++ ascii "CAST(") :=
    hbefore.append (settled_of_count hinert.1.1 _) (hinert.1.sealed_left _)
  have hcolumn := hopen.append hcol.of_none (hinert.1.sealed_right _ _)
  have hclose := hcolumn.append (settled_of_count hinert.2.1 _) (hinert.2.sealed_left _)
  have htail : Settled false n (some closeParen) (next ++ rest) := by
    refine Settled.append (settled_of_count ?_ _) hrest
      (Or.inl ⟨[], next, rfl, hnext95, fun x hx => by cases hx⟩)
    rw [List.count_eq_zero_of_not_mem hnext95]
    decide
  have hlast : (before ++ ascii "CAST(" ++ col ++ ascii " AS INTEGER)").getLast?
      = some closeParen := by
    rw [List.getLast?_append]
    rfl
  have hall := hclose.append (by rw [hlast]; exact htail) (hinert.2.sealed_right _ _)
  simpa only [List.append_assoc] using hall

/-- Casting sort keys keeps a text settled. -/
theorem Settled.rewriteFrom_plusZero {prev : Option UInt8} (h : Settled false n prev s)
    (hedge : prev.any isWord = true →
      ∀ x, s.head? = some x → ¬ (x < 128 ∧ columnSet.contains x.toNat = true)) :
    Settled false n prev (plusZeroPattern.rewriteFrom castKey prev s) := by
  induction hlen : s.length using Nat.strongRecOn generalizing s prev with
  | _ k ih =>
    rw [Pattern.rewriteFrom_eq]
    cases hfind : plusZeroPattern.findFrom? 0 prev s with
    | none => exact h
    | some m =>
      dsimp only
      split
      · rename_i hlt
        have hstart := prev_of_find_plusZero hfind hedge
        obtain ⟨mid, htext, -, hnext, hend⟩ := exists_between_of_find_plusZero hfind
        rw [castKey]
        generalize m.group 1 = col at htext ⊢
        generalize m.group 2 = next at htext hnext hend ⊢
        rw [← Pattern.text_of_findFrom? hfind] at h
        have hcol : Settled false n none col := by
          have htextSettled := h.left.right
          rw [htext, List.append_assoc] at htextSettled
          exact htextSettled.left.behind fun hword =>
            absurd (hstart.symm.trans hword) Bool.false_ne_true
        have hrest : Settled false n (next.getLast?.or (some closeParen))
            (plusZeroPattern.rewriteFrom castKey m.text.getLast? m.after) := by
          cases hlast : next.getLast? with
          | none =>
            -- the zero ends the text
            rw [hend (List.getLast?_eq_none_iff.1 hlast), Pattern.rewriteFrom_nil]
            exact settled_of_count (by decide) _
          | some y =>
            have hy := hnext y (List.mem_of_getLast? hlast)
            have hlast' : m.text.getLast? = some y := by rw [htext, List.getLast?_append, hlast]; rfl
            have htext_ne : m.text ≠ [] := by
              intro hnil
              rw [hnil] at hlast'
              cases hlast'
            have hsettled := ih _ (hlen ▸ hlt) (h.right_of_ne_nil htext_ne) (fun hword => by
              rw [hlast'] at hword
              exact absurd (hy.symm.trans hword) Bool.false_ne_true) rfl
            rw [Option.some_or, ← hlast']
            exact hsettled
        exact h.left.left.append_castKey hcol hnext hrest
      · exact h

theorem leads_keyword_last {word : String} (hword : Pattern.AsciiKeyword word) {x : UInt8}
    (hlast : ((ascii word).map lowerByte).getLast? = some x) {c c' : Pattern.Cursor}
    (h : Pattern.Leads (.keyword word) c c') : ∃ y, c'.prev = some y ∧ lowerByte y = x := by
  obtain ⟨t, htakes, ht⟩ := Pattern.leads_keyword_ascii hword h
  rw [← ht, List.getLast?_map, Option.map_eq_some_iff] at hlast
  obtain ⟨y, hy, hyx⟩ := hlast
  exact ⟨y, by rw [htakes.prev, hy]; rfl, hyx⟩

/-- The words ORDER BY end in the letter Y. -/
theorem prev_of_orderBy {c c' : Pattern.Cursor} (h : Pattern.Leads Clause.orderByPattern c c') :
    ∃ y, c'.prev = some y ∧ lowerByte y = 121 := by
  obtain ⟨c₁, -, h₁⟩ := Pattern.leads_seqs_cons.1 h
  obtain ⟨c₂, hphrase, h₂⟩ := Pattern.leads_seqs_cons.1 h₁
  obtain ⟨c₃, hedge, hnil⟩ := Pattern.leads_seqs_cons.1 h₂
  obtain rfl := Pattern.leads_nothing.1 hnil
  obtain ⟨rfl, -⟩ := Pattern.leads_wordEdge.1 hedge
  obtain ⟨c₄, -, h₄⟩ := Pattern.leads_seqs_cons.1 hphrase
  obtain ⟨c₅, -, h₅⟩ := Pattern.leads_seqs_cons.1 h₄
  obtain ⟨c₆, hby, hnil⟩ := Pattern.leads_seqs_cons.1 h₅
  obtain rfl := Pattern.leads_nothing.1 hnil
  exact leads_keyword_last (by decide) (by decide) hby

/-- This letter is no part of a placeholder. -/
theorem last_of_orderBy {c c' : Pattern.Cursor} (h : Pattern.Leads Clause.orderByPattern c c') :
    ∃ y, c'.prev = some y ∧ isTokenByte false y = false := by
  obtain ⟨y, hy, hlower⟩ := prev_of_orderBy h
  refine ⟨y, hy, ?_⟩
  exact forall_lowerByte (P := fun y => isTokenByte false y = false) (l := [121]) (by decide)
    (List.mem_singleton.2 hlower)

theorem consumes_orderBy : Clause.orderByPattern.Consumes :=
  Pattern.consumes_wholePhrase (by decide) _

theorem endsOutside_orderBy : Clause.orderByPattern.EndsOutside :=
  Pattern.endsOutside_wordEdge [.wordEdge, .phrase ["ORDER", "BY"]]

theorem Settled.castOrderByPlusZero (h : Settled false n none s) :
    Settled false n none (castOrderByPlusZero s) := by
  rw [SqlDialect.castOrderByPlusZero]
  cases hfind : findTop? Clause.orderByPattern s with
  | none => exact h
  | some m =>
    obtain ⟨hs, c', hplaces⟩ := Pattern.places_of_findTop? consumes_orderBy hfind
    obtain ⟨y, hy, hytoken⟩ := last_of_orderBy hplaces.leads
    have hlast : (m.before ++ m.text).getLast? = some y := by
      rw [List.getLast?_append, ← hplaces.prev_eq consumes_orderBy, hy]
      rfl
    rw [hs] at h
    have hafter : Settled false n none m.after := by
      refine h.right.behind fun hword => Or.inr fun hhead => ?_
      rw [hlast] at hword
      have hnext := endsOutside_orderBy _ _ hplaces.leads (by rw [hy]; exact hword)
      rw [← hplaces.after, hhead] at hnext
      exact absurd hnext (by decide)
    refine h.left.append (v := plusZeroPattern.rewriteFrom castKey none m.after)
      (hafter.rewriteFrom_plusZero fun hword => absurd hword Bool.false_ne_true).of_none ?_
    refine sealed_of_last (fun x hx => ?_) _
    obtain rfl := Option.some.inj (hlast.symm.trans hx)
    exact hytoken

/-! ## Dropping the modifier of a query -/

/-- The modifier of a query is nowhere followed by a word or a backtick. -/
def ModifiersApart (s : Bytes) : Prop :=
  ∀ m ∈ calcFoundRowsPattern.all s, ∀ x ∈ m.after.head?, isWord x = false ∧ x ≠ backtick

instance (s : Bytes) : Decidable (ModifiersApart s) :=
  inferInstanceAs (Decidable (∀ m ∈ calcFoundRowsPattern.all s, ∀ x ∈ m.after.head?, _))

section

variable {p : Pattern} {prev : Option UInt8}

/-- If the text and what follows each match in front of it start with certain bytes, then so does the text
without the matches. -/
theorem head?_eraseFrom {P : UInt8 → Prop}
    (hapart : ∀ m ∈ (p.allFrom prev s).takeWhile (·.before.isEmpty), ∀ x ∈ m.after.head?, P x)
    (hhead : ∀ x ∈ s.head?, P x) :
    ∀ x ∈ (p.rewriteFrom (fun _ => []) prev s).head?, P x := by
  induction hlen : s.length using Nat.strongRecOn generalizing s prev with
  | _ k ih =>
    rw [Pattern.rewriteFrom_eq]
    cases hfind : p.findFrom? 0 prev s with
    | none => exact hhead
    | some m =>
      dsimp only
      split
      · rename_i hlt
        rw [Pattern.allFrom_of_findFrom? hfind hlt] at hapart
        have htext := Pattern.text_of_findFrom? hfind
        rw [List.append_nil]
        cases hbefore : m.before with
        | nil =>
          rw [List.takeWhile_cons_of_pos (by rw [hbefore]; rfl), List.forall_mem_cons] at hapart
          exact ih _ (hlen ▸ hlt) hapart.2 hapart.1 rfl
        | cons b before =>
          rw [hbefore] at htext
          rw [← htext] at hhead
          exact hhead
      · exact hhead

theorem Settled.eraseFrom {ticks : Bool} (h : Settled ticks n prev s)
    (hapart : ∀ m ∈ p.allFrom prev s, ∀ x ∈ m.after.head?, isWord x = false ∧ x ≠ backtick) :
    Settled ticks n prev (p.rewriteFrom (fun _ => []) prev s) := by
  induction hlen : s.length using Nat.strongRecOn generalizing s prev with
  | _ k ih =>
    rw [Pattern.rewriteFrom_eq]
    cases hfind : p.findFrom? 0 prev s with
    | none => exact h
    | some m =>
      dsimp only
      split
      · rename_i hlt
        rw [Pattern.allFrom_of_findFrom? hfind hlt, List.forall_mem_cons] at hapart
        obtain ⟨hm, hrest⟩ := hapart
        have hnot95 : ∀ {t : Bytes}, (∀ x ∈ t.head?, isWord x = false ∧ x ≠ backtick) →
            t.head? ≠ some 95 := by
          intro t ht h95
          exact absurd (ht 95 h95).1 (by decide)
        rw [← Pattern.text_of_findFrom? hfind] at h
        have hafter : Settled ticks n m.text.getLast? m.after :=
          h.right.behind fun _ => Or.inr (hnot95 hm)
        have hhead := head?_eraseFrom
          (fun m' hm' => hrest m' ((List.takeWhile_prefix _).subset hm')) hm
        rw [List.append_nil]
        refine h.left.left.append
          ((ih _ (hlen ▸ hlt) hafter hrest rfl).behind fun _ => Or.inr (hnot95 hhead)) ?_
        exact sealed_of_head _ fun x hx =>
          isTokenByte_eq_false (hhead x hx).1 (hhead x hx).2 ticks
      · exact h

end

theorem Settled.stripCalcFoundRows {ticks : Bool} (h : Settled ticks n none s)
    (hapart : ModifiersApart s) : Settled ticks n none (stripCalcFoundRows s) :=
  h.eraseFrom hapart

/-! ## Counting the last query -/

theorem SelectParts.eq_of_ofText? {p : SelectParts} (h : SelectParts.ofText? s = some p) :
    s = p.head ++ p.list ++ p.tail ∧ p.tail.head? ≠ some 95 := by
  obtain ⟨m, hfind, hp⟩ := Option.map_eq_some_iff.1 h
  have hs : s = m.text ++ m.after := by
    rw [← Pattern.text_of_find? hfind, Pattern.before_eq_nil hfind, List.nil_append]
  cases hfrom : findTop? Clause.fromPattern m.after with
  | none =>
    rw [hfrom] at hp
    subst hp
    exact ⟨by rw [hs, List.append_nil], fun h => by cases h⟩
  | some f =>
    rw [hfrom] at hp
    dsimp only at hp
    subst hp
    obtain ⟨hafter, c', hplaces⟩ :=
      Pattern.places_of_findTop? (Pattern.consumes_wholeWord (by decide)) hfrom
    refine ⟨by rw [hs, hafter]; simp only [List.append_assoc], ?_⟩
    obtain ⟨c₁, hedge, hrest⟩ := Pattern.leads_seqs_cons.1 hplaces.leads
    obtain ⟨rfl, -⟩ := Pattern.leads_wordEdge.1 hedge
    obtain ⟨c₂, hkey, -⟩ := Pattern.leads_seqs_cons.1 hrest
    obtain ⟨t, htakes, ht⟩ := Pattern.leads_keyword_ascii (by decide) hkey
    intro hhead
    rw [show f.text ++ f.after = t ++ c₂.rest from htakes.rest] at hhead
    cases t with
    | nil => exact absurd ht (by decide)
    | cons x t =>
      obtain rfl : x = 95 := Option.some.inj hhead
      exact absurd (List.cons.inj ht).1 (by decide)

/-- The query that counts keeps the literals of the last query, or has none. -/
theorem length_foundRowsQuery (last : Bytes) :
    (foundRowsQuery last).2.length ≤ (shield last).2.length := by
  rw [foundRowsQuery]
  split
  · exact Nat.zero_le _
  dsimp only
  split
  · exact Nat.zero_le _
  · split
    · exact Nat.zero_le _
    · split
      · exact Nat.le_refl _
      · exact Nat.le_refl _

theorem settled_foundRowsQuery {last : Bytes} (hlast : Unmarked last)
    (hapart : ModifiersApart (shield last).1) :
    Settled true (foundRowsQuery last).2.length none (foundRowsQuery last).1 := by
  have hnothing : Settled true countNothing.2.length none countNothing.1 :=
    settled_of_count (by decide) none
  rw [foundRowsQuery]
  split
  · exact hnothing
  have hstrip : Settled true (shield last).2.length none
      (trimStatementEnd (stripCalcFoundRows (shield last).1)).1 := by
    obtain ⟨cut, hcut⟩ := dropTailWhile_prefix (fun b => isBlank b || b == 59)
      (stripCalcFoundRows (shield last).1)
    have hsettled := (settled_shield hlast).stripCalcFoundRows hapart
    rw [← hcut] at hsettled
    exact hsettled.left
  dsimp only
  split
  · exact hnothing
  · rename_i p hp
    split
    · exact hnothing
    · obtain ⟨hs, htail⟩ := SelectParts.eq_of_ofText? hp
      let source := trimRight
        (splitAtClause (Clause.orderByPattern :: Clause.afterOrder) p.tail).1
      -- the source of the rows is a part of the last query, cut at a clause and trimmed
      obtain ⟨rest, hsource⟩ : ∃ rest, p.tail = source ++ rest := by
        obtain ⟨cut, hcut⟩ := dropTailWhile_prefix isBlank
          (splitAtClause (Clause.orderByPattern :: Clause.afterOrder) p.tail).1
        have hsplit := splitAtClause_append (Clause.orderByPattern :: Clause.afterOrder) p.tail
        rw [← hcut, List.append_assoc] at hsplit
        exact ⟨_, hsplit.symm⟩
      rw [hs, hsource, ← List.append_assoc] at hstrip
      split
      · have hquery : Settled true (shield last).2.length none
            (trimSpace (p.head ++ p.list ++ source)) := hstrip.left.trimSpace
        refine Settled.append (Settled.append (settled_of_count (by decide) _) hquery.of_none ?_)
          (settled_of_count (by decide) _) (sealed_of_head _ fun x hx => ?_)
        · exact sealed_of_append (ascii "SELECT COUNT(*) FROM ") (x := openParen) rfl
            List.not_mem_nil _
        · obtain rfl : closeParen = x := Option.some.inj hx
          rfl
      · have hsource95 : source.head? ≠ some 95 := by
          intro hhead
          rw [hsource, List.head?_append, hhead] at htail
          exact htail rfl
        refine Settled.append (settled_of_count (by decide) _)
          (hstrip.left.right.behind fun _ => Or.inr hsource95) ?_
        exact sealed_of_append (ascii "SELECT COUNT(*)") (x := 32) rfl List.not_mem_nil _

end SqlDialect
