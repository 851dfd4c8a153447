import SqlDialect.Proofs.Conversion.Untouched
import SqlDialect.Proofs.Query.Count
import SqlDialect.Proofs.Query.LimitClause
import SqlDialect.Proofs.Query.Nesting

set_option autoImplicit false

/-! # The marks that rules leave

A rule for queries that finds nothing gives back its text. One that finds something changes it, and no
later rule undoes that: each puts in a byte that the rules do not take out, or drops bytes and puts in
none. To see this for the whole chain at once, some bytes are counted. They form groups, and texts are
compared by how many bytes of the first group they hold, then of the second, and so on, and at last by
length (`Before`). A rule that finds something leads to a later text, so a chain gives back a text
exactly if none of its rules finds anything in it (`LeavesAlone.comp`). -/

namespace SqlDialect

open Bytes

/-! ## Counting bytes -/

/-- How many bytes of the text are among the given ones. -/
def tally (bs s : Bytes) : Nat :=
  s.countP bs.contains

@[simp] theorem tally_append (bs s t : Bytes) : tally bs (s ++ t) = tally bs s + tally bs t :=
  List.countP_append

theorem tally_eq_zero {bs s : Bytes} (h : ∀ b ∈ bs, b ∉ s) : tally bs s = 0 := by
  rw [tally, List.countP_eq_zero]
  intro b hb hmem
  exact h b (List.contains_iff_mem.1 hmem) hb

theorem tally_pos {bs s : Bytes} {b : UInt8} (hb : b ∈ bs) (hs : b ∈ s) : 0 < tally bs s :=
  List.countP_pos_iff.2 ⟨b, hs, List.contains_iff_mem.2 hb⟩

theorem tally_eq_length_filter (bs s : Bytes) : tally bs s = (s.filter bs.contains).length :=
  List.countP_eq_length_filter

/-- The groups of bytes that are counted. No pattern that is replaced takes a byte of the group in
which its replacement shows, nor of a group in front of that, with the exception of `LIKE`. -/
def markGroups : List Bytes :=
  [[58, singleQuote, doubleQuote, 126], ascii "p", ascii "E", ascii "MIt"]

theorem ascii_of_mem_markGroups : ∀ g ∈ markGroups, ∀ b ∈ g, b < 128 := by
  decide

/-! ## The order of texts -/

/-- The second text has more bytes of the first group that the texts do not hold equally often; where
there is no such group, it is shorter. -/
def Before : List Bytes → Bytes → Bytes → Prop
  | [], s, t => t.length < s.length
  | g :: gs, s, t => tally g s < tally g t ∨ tally g s = tally g t ∧ Before gs s t

namespace Before

variable {gs : List Bytes} {s t u : Bytes}

theorem irrefl (gs : List Bytes) (s : Bytes) : ¬ Before gs s s := by
  induction gs with
  | nil => exact Nat.lt_irrefl _
  | cons g gs ih =>
    rintro (hlt | ⟨-, h⟩)
    · exact Nat.lt_irrefl _ hlt
    · exact ih h

theorem trans (h : Before gs s t) (h' : Before gs t u) : Before gs s u := by
  induction gs with
  | nil => exact Nat.lt_trans h' h
  | cons g gs ih =>
    rcases h with hlt | ⟨heq, h⟩
    · rcases h' with hlt' | ⟨heq', -⟩
      · exact Or.inl (Nat.lt_trans hlt hlt')
      · exact Or.inl (heq' ▸ hlt)
    · rcases h' with hlt' | ⟨heq', h'⟩
      · exact Or.inl (heq ▸ hlt')
      · exact Or.inr ⟨heq.trans heq', ih h h'⟩

/-- The order does not depend on what stands around the texts. -/
theorem context (h : Before gs s t) (a b : Bytes) : Before gs (a ++ s ++ b) (a ++ t ++ b) := by
  induction gs with
  | nil =>
    have hlt : t.length < s.length := h
    show (a ++ t ++ b).length < (a ++ s ++ b).length
    simp only [List.length_append]
    omega
  | cons g gs ih =>
    rcases h with hlt | ⟨heq, h⟩
    · refine Or.inl ?_
      simp only [tally_append]
      omega
    · exact Or.inr ⟨by simp only [tally_append, heq], ih h⟩

theorem append_left (h : Before gs s t) (a : Bytes) : Before gs (a ++ s) (a ++ t) := by
  have hall := h.context a []
  rwa [List.append_nil, List.append_nil] at hall

/-- A later text in the place of the first of two parts is later, if the second part stays as it is or
gets later. -/
theorem append (h : Before gs s t) (a : Bytes) {b b' : Bytes} (hb : b' = b ∨ Before gs b b') :
    Before gs (a ++ s ++ b) (a ++ t ++ b') := by
  rcases hb with rfl | hb
  · exact h.context a b'
  · exact (h.context a b).trans (hb.append_left _)

/-- The first group of which the second text has more decides, if it has no less of the groups in
front. -/
theorem of_tally {pre : List Bytes} {g : Bytes} (hle : ∀ g' ∈ pre, tally g' s ≤ tally g' t)
    (hlt : tally g s < tally g t) (post : List Bytes) : Before (pre ++ g :: post) s t := by
  induction pre with
  | nil => exact Or.inl hlt
  | cons g' pre ih =>
    obtain ⟨hfirst, hle⟩ := List.forall_mem_cons.1 hle
    rcases Nat.lt_or_eq_of_le hfirst with h | h
    · exact Or.inl h
    · exact Or.inr ⟨h, ih hle⟩

theorem of_length (hle : ∀ g ∈ gs, tally g s ≤ tally g t) (hlt : t.length < s.length) :
    Before gs s t := by
  induction gs with
  | nil => exact hlt
  | cons g gs ih =>
    obtain ⟨hfirst, hle⟩ := List.forall_mem_cons.1 hle
    rcases Nat.lt_or_eq_of_le hfirst with h | h
    · exact Or.inl h
    · exact Or.inr ⟨h, ih hle⟩

end Before

/-! ## Rules that leave texts alone -/

/-- The function leaves the texts of a kind alone, and leads from any other to a later one. -/
structure LeavesAlone (P : Bytes → Prop) (f : Bytes → Bytes) : Prop where
  eq : ∀ s, P s → f s = s
  before : ∀ s, ¬ P s → Before markGroups s (f s)

namespace LeavesAlone

variable {P Q : Bytes → Prop} {f g : Bytes → Bytes}

theorem eq_or_before (h : LeavesAlone P f) (s : Bytes) : f s = s ∨ Before markGroups s (f s) :=
  (Classical.em (P s)).imp (h.eq s) (h.before s)

theorem eq_iff (h : LeavesAlone P f) {s : Bytes} : f s = s ↔ P s := by
  refine ⟨fun heq => Classical.byContradiction fun hno => ?_, h.eq s⟩
  have hbefore := h.before s hno
  rw [heq] at hbefore
  exact Before.irrefl _ _ hbefore

/-- A chain leaves alone what each of its parts leaves alone: what one has changed, none of those
behind it changes back. -/
theorem comp (hf : LeavesAlone P f) (hg : LeavesAlone Q g) :
    LeavesAlone (fun s => P s ∧ Q s) fun s => g (f s) where
  eq := fun s ⟨hp, hq⟩ => by rw [hf.eq s hp, hg.eq s hq]
  before := fun s hno => by
    by_cases hp : P s
    · rw [hf.eq s hp]
      exact hg.before s fun hq => hno ⟨hp, hq⟩
    · have hfirst := hf.before s hp
      rcases hg.eq_or_before (f s) with heq | hbefore
      · rwa [heq]
      · exact hfirst.trans hbefore

end LeavesAlone

/-! ## Replacements -/

namespace Pattern

variable {p : Pattern} {f : Match → Bytes} {prev : Option UInt8} {s : Bytes} {m : Match}

/-- Replacing matches by later texts leads to a later text, if there is a match. -/
theorem rewriteFrom_eq_or_before (hp : p.Consumes)
    (hf : ∀ prev s m, p.findFrom? 0 prev s = some m → Before markGroups m.text (f m))
    (prev : Option UInt8) (s : Bytes) :
    (p.findFrom? 0 prev s = none ∧ p.rewriteFrom f prev s = s) ∨
      Before markGroups s (p.rewriteFrom f prev s) := by
  induction hlen : s.length using Nat.strongRecOn generalizing s prev with
  | _ k ih =>
    rw [rewriteFrom_eq]
    cases hfind : p.findFrom? 0 prev s with
    | none => exact Or.inl ⟨rfl, rfl⟩
    | some m =>
      have hlt := hp.after_lt hfind
      have hrest := ih _ (hlen ▸ hlt) m.text.getLast? m.after rfl
      have hall := (hf prev s m hfind).append m.before (hrest.imp And.right id)
      rw [text_of_findFrom? hfind] at hall
      refine Or.inr ?_
      dsimp only
      rwa [if_pos hlt]

theorem leavesAlone_replaceWith (hp : p.Consumes)
    (hf : ∀ prev s m, p.findFrom? 0 prev s = some m → Before markGroups m.text (f m)) :
    LeavesAlone (fun s => p.occursIn s = false) (p.replaceWith f) where
  eq := fun _ h => replaceWith_of_absent h f
  before := fun s h => by
    refine (rewriteFrom_eq_or_before hp hf none s).resolve_left fun hno => h ?_
    rw [occursIn, find?, hno.1]
    rfl

/-- A pattern takes none of the bytes that it avoids. -/
theorem tally_of_avoids {bs t : Bytes} (hbs : ∀ b ∈ bs, b < 128) (hp : p.avoids bs = true)
    {c c' : Cursor} (h : Leads p c c') (ht : c.Takes t c') : tally bs t = 0 :=
  tally_eq_zero fun _ hb => notMem_of_leads hp h ht hb (hbs _ hb)

theorem tally_text_of_avoids {g : Bytes} (hg : g ∈ markGroups) (hp : p.avoids g = true)
    (h : p.findFrom? 0 prev s = some m) : tally g m.text = 0 := by
  obtain ⟨c', hplaces, -⟩ := places_of_findFrom? h
  exact tally_of_avoids (ascii_of_mem_markGroups g hg) hp hplaces.leads hplaces.takes

/-- Putting a byte of a group in leads to a later text, if the pattern takes none of the group and of
the groups in front. -/
theorem leavesAlone_of_avoids (hp : p.Consumes) (pre : List Bytes) {g : Bytes} {post : List Bytes}
    (hgroups : markGroups = pre ++ g :: post) (havoids : ∀ g' ∈ pre ++ [g], p.avoids g' = true)
    (hf : ∀ prev s m, p.findFrom? 0 prev s = some m → ∃ b ∈ g, b ∈ f m) :
    LeavesAlone (fun s => p.occursIn s = false) (p.replaceWith f) := by
  refine leavesAlone_replaceWith hp fun prev s m hm => ?_
  have hzero : ∀ g' ∈ pre ++ [g], tally g' m.text = 0 := by
    intro g' hg'
    refine tally_text_of_avoids ?_ (havoids g' hg') hm
    rw [hgroups, List.append_cons]
    exact List.mem_append_left post hg'
  obtain ⟨b, hb, hbm⟩ := hf prev s m hm
  have hpos := tally_pos hb hbm
  rw [hgroups]
  refine Before.of_tally (fun g' hg' => ?_) ?_ post
  · rw [hzero g' (List.mem_append_left _ hg')]
    exact Nat.zero_le _
  · rwa [hzero g (List.mem_append_right _ List.mem_cons_self)]

theorem leavesAlone_replace (hp : p.Consumes) (pre : List Bytes) {g : Bytes} {post : List Bytes}
    {new : Bytes} (hgroups : markGroups = pre ++ g :: post)
    (havoids : ∀ g' ∈ pre ++ [g], p.avoids g' = true) (hnew : ∃ b ∈ g, b ∈ new) :
    LeavesAlone (fun s => p.occursIn s = false) (p.replace new) :=
  leavesAlone_of_avoids hp pre hgroups havoids fun _ _ _ _ => hnew

/-- Dropping what takes no counted byte leads to a shorter text. -/
theorem leavesAlone_erase (hp : p.Consumes) (havoids : ∀ g ∈ markGroups, p.avoids g = true) :
    LeavesAlone (fun s => p.occursIn s = false) p.erase := by
  refine leavesAlone_replaceWith hp fun prev s m hm => ?_
  obtain ⟨c', hplaces, -⟩ := places_of_findFrom? hm
  refine Before.of_length (fun g hg => ?_) (List.length_pos_iff.2 (hplaces.text_ne_nil hp))
  rw [tally_text_of_avoids hg (havoids g hg) hm]
  exact Nat.zero_le _

end Pattern

/-! ## Words -/

theorem leavesAlone_stripCalcFoundRows :
    LeavesAlone (fun s => calcFoundRowsPattern.occursIn s = false) stripCalcFoundRows :=
  Pattern.leavesAlone_erase consumes_calcFoundRows (by decide)

/-- One character holds at most one counted byte. -/
theorem tally_one_le {set : CharSet} {g t : Bytes} (hg : ∀ b ∈ g, b < 128) {c c' : Pattern.Cursor}
    (h : Pattern.Leads (.one set) c c') (ht : c.Takes t c') : tally g t ≤ 1 := by
  cases h with
  | one hnext _ =>
    obtain ⟨x, u, htakes, -, hx⟩ := Pattern.Cursor.takes_of_next? hnext
    rw [ht.unique htakes]
    rcases hx with ⟨-, rfl, -⟩ | ⟨hx, hu, -⟩
    · exact List.countP_le_length
    · rw [tally_eq_zero fun b hb hmem => ?_]
      · exact Nat.zero_le 1
      · have hge : 128 ≤ b := List.forall_mem_cons.2 ⟨hx, hu⟩ b hmem
        exact UInt8.not_lt.2 hge (hg b hb)

/-- Both letters of `LIKE` that are counted are in `ILIKE` as well, and `I` is there twice. -/
theorem before_like {c c' : Pattern.Cursor} {t : Bytes} (h : Pattern.Leads likePattern c c')
    (ht : c.Takes t c') : Before markGroups t (ascii "ILIKE") := by
  obtain ⟨c₁, hedge, hrest⟩ := Pattern.leads_seqs_cons.1 h
  obtain ⟨rfl, -⟩ := Pattern.leads_wordEdge.1 hedge
  obtain ⟨c₂, hkey, hend⟩ := Pattern.leads_seqs_cons.1 hrest
  obtain ⟨c₃, hedge', hnil⟩ := Pattern.leads_seqs_cons.1 hend
  obtain ⟨rfl, -⟩ := Pattern.leads_wordEdge.1 hedge'
  obtain rfl := Pattern.leads_nothing.1 hnil
  rw [Pattern.keyword_eq, show "LIKE".toList = ['L', 'I', 'K', 'E'] from by decide] at hkey
  obtain ⟨d₁, hl, hkey⟩ := Pattern.leads_seqs_cons.1 hkey
  obtain ⟨d₂, hi, hkey⟩ := Pattern.leads_seqs_cons.1 hkey
  obtain ⟨d₃, hk, hkey⟩ := Pattern.leads_seqs_cons.1 hkey
  obtain ⟨d₄, he, hnil⟩ := Pattern.leads_seqs_cons.1 hkey
  obtain rfl := Pattern.leads_nothing.1 hnil
  obtain ⟨tl, htl⟩ := hl.takes
  obtain ⟨ti, hti⟩ := hi.takes
  obtain ⟨tk, htk⟩ := hk.takes
  obtain ⟨te, hte⟩ := he.takes
  obtain rfl := ht.unique (((htl.trans hti).trans htk).trans hte)
  have hnone : ∀ g ∈ markGroups, tally g tl = 0 ∧ tally g tk = 0 := fun g hg =>
    ⟨Pattern.tally_of_avoids (ascii_of_mem_markGroups g hg) (by revert g; decide) hl htl,
      Pattern.tally_of_avoids (ascii_of_mem_markGroups g hg) (by revert g; decide) hk htk⟩
  have hone : ∀ g ∈ markGroups, tally g ti ≤ 1 ∧ tally g te ≤ 1 := fun g hg =>
    ⟨tally_one_le (ascii_of_mem_markGroups g hg) hi hti,
      tally_one_le (ascii_of_mem_markGroups g hg) he hte⟩
  have hi' : ∀ g ∈ markGroups, g ≠ ascii "MIt" → tally g ti = 0 := fun g hg hne =>
    Pattern.tally_of_avoids (ascii_of_mem_markGroups g hg) (by revert g; decide) hi hti
  have he' : ∀ g ∈ markGroups, g ≠ ascii "E" → tally g te = 0 := fun g hg hne =>
    Pattern.tally_of_avoids (ascii_of_mem_markGroups g hg) (by revert g; decide) he hte
  refine @Before.of_tally _ _ (markGroups.take 3) (ascii "MIt") (fun g hg => ?_) ?_ []
  · have hmem := List.mem_of_mem_take hg
    have hne : g ≠ ascii "MIt" := by revert g; decide
    simp only [tally_append, hnone g hmem, hi' g hmem hne, Nat.zero_add]
    by_cases heq : g = ascii "E"
    · rw [heq]
      exact (hone _ (by decide)).2
    · rw [he' g hmem heq]
      exact Nat.zero_le _
  · have hmem : ascii "MIt" ∈ markGroups := by decide
    simp only [tally_append, hnone _ hmem, he' _ hmem (by decide), Nat.zero_add, Nat.add_zero]
    exact Nat.lt_of_le_of_lt (hone _ hmem).1 (by decide)

theorem leavesAlone_likeToILike :
    LeavesAlone (fun s => likePattern.occursIn s = false) likeToILike := by
  refine Pattern.leavesAlone_replaceWith (Pattern.consumes_wholeWord (by decide)) ?_
  intro prev s m hm
  obtain ⟨c', hplaces, -⟩ := Pattern.places_of_findFrom? hm
  exact before_like hplaces.leads hplaces.takes

theorem consumes_regexp : regexpPattern.Consumes :=
  Pattern.consumes_of_mem (List.mem_cons_of_mem _ List.mem_cons_self)
    (Pattern.consumes_keywords (List.cons_ne_nil _ _) (by decide))

theorem consumes_notRegexp : notRegexpPattern.Consumes :=
  Pattern.consumes_of_mem (p := .keyword "NOT") (List.mem_cons_of_mem _ List.mem_cons_self)
    (Pattern.consumes_keyword (by decide))

theorem leavesAlone_regexpToTilde :
    LeavesAlone (fun s => notRegexpPattern.occursIn s = false ∧ regexpPattern.occursIn s = false)
      regexpToTilde :=
  (Pattern.leavesAlone_replace consumes_notRegexp [] rfl (by decide) (by decide)).comp
    (Pattern.leavesAlone_replace consumes_regexp [] rfl (by decide) (by decide))

/-! ## Calls -/

theorem consumes_emptyCall {name : String} (hname : Pattern.IsKeyword name) :
    (emptyCall name).Consumes :=
  Pattern.consumes_of_mem List.mem_cons_self (consumes_callHead hname)

/-- Writing the arguments of calls with more bytes of the first group leads to a later text. -/
theorem leavesAlone_mapCalls {head : Pattern} {f : Bytes → Bytes}
    (hhead : ∀ g ∈ markGroups.head?, head.avoids g = true)
    (hf : ∀ g ∈ markGroups.head?, ∀ arg, tally g arg < tally g (f arg)) :
    LeavesAlone (fun s => closesCall head s = false) (mapCalls head f) := by
  have hcall : ∀ m s arg, head.find? s = some m →
      Before markGroups (m.text ++ (arg ++ [closeParen])) (f arg) := by
    intro m s arg hm
    refine @Before.of_tally _ _ [] _ (fun g hg => absurd hg List.not_mem_nil) ?_ _
    have hzero := Pattern.tally_text_of_avoids List.mem_cons_self (hhead _ rfl) hm
    rw [tally_append, tally_append, hzero, Nat.zero_add]
    exact hf _ rfl arg
  refine ⟨fun s h => mapCalls_of_closesCall_eq_false h f, fun s => ?_⟩
  -- by the calls from left to right: behind the first one the text stays or gets later
  fun_induction mapCalls head f s with
  | case1 s hm =>
    intro hcloses
    rw [closesCall, hm] at hcloses
    exact absurd rfl hcloses
  | case2 s m hm hp =>
    intro hcloses
    rw [closesCall, hm, Option.any_some, hp] at hcloses
    exact absurd rfl hcloses
  | case3 s m hm arg rest hp ih =>
    intro
    have hs : s = m.before ++ (m.text ++ (arg ++ [closeParen])) ++ rest := by
      rw [← Pattern.text_of_find? hm, eq_append_of_splitParen? hp]
      simp
    have hrest : mapCalls head f rest = rest ∨ Before markGroups rest (mapCalls head f rest) :=
      (Classical.em (closesCall head rest = false)).imp
        (fun h => mapCalls_of_closesCall_eq_false h f) ih
    have hall := (hcall m s arg hm).append m.before hrest
    rwa [← hs] at hall

/-- Trimming keeps the counted bytes: none of them is white space. -/
theorem tally_trimSpace {g : Bytes} (hg : g ∈ markGroups) (s : Bytes) :
    tally g (trimSpace s) = tally g s := by
  have hspace : ∀ g ∈ markGroups, ∀ b ∈ g, b < 128 ∧ isSpace b.toNat = false := by decide +kernel
  rw [tally_eq_length_filter, tally_eq_length_filter,
    filter_trimSpace fun b hb => hspace g hg b (List.contains_iff_mem.1 hb)]

theorem tally_epochOf {g : Bytes} (hg : g ∈ markGroups.head?) (arg : Bytes) :
    tally g arg < tally g (convertFunctions.epochOf arg) := by
  obtain rfl := Option.some.inj hg
  have hcast : 0 < tally [58, singleQuote, doubleQuote, 126] (ascii ")::bigint") := by decide
  rw [← tally_trimSpace List.mem_cons_self arg, convertFunctions.epochOf]
  split
  · rename_i hempty
    rw [List.isEmpty_iff.1 hempty]
    decide
  · rw [tally_append, tally_append]
    omega

theorem tally_castToDate {g : Bytes} (hg : g ∈ markGroups.head?) (arg : Bytes) :
    tally g arg < tally g (castToDate arg) := by
  obtain rfl := Option.some.inj hg
  have hcast : 0 < tally [58, singleQuote, doubleQuote, 126] (ascii "::date") ∧
      0 < tally [58, singleQuote, doubleQuote, 126] (ascii ")::date") := by decide
  rw [← tally_trimSpace List.mem_cons_self arg, castToDate]
  split
  · rw [tally_append]
    omega
  · rw [tally_append, tally_append]
    omega

theorem leavesAlone_convertFunctions :
    LeavesAlone (fun s => ((((callHead "SUBSTRING_INDEX").occursIn s = false ∧
      (emptyCall "UTC_TIMESTAMP").occursIn s = false) ∧ (callHead "IFNULL").occursIn s = false) ∧
      (emptyCall "RAND").occursIn s = false) ∧ closesCall (callHead "UNIX_TIMESTAMP") s = false)
      convertFunctions := by
  have hsubstring : LeavesAlone _ ((callHead "SUBSTRING_INDEX").replace (ascii "split_part(")) :=
    Pattern.leavesAlone_replace (consumes_callHead (by decide)) (markGroups.take 1) rfl (by decide)
      (by decide)
  have htimestamp : LeavesAlone _
      ((emptyCall "UTC_TIMESTAMP").replace (ascii "CURRENT_TIMESTAMP AT TIME ZONE 'UTC'")) :=
    Pattern.leavesAlone_replace (consumes_emptyCall (by decide)) [] rfl (by decide) (by decide)
  have hifnull : LeavesAlone _ ((callHead "IFNULL").replace (ascii "COALESCE(")) :=
    Pattern.leavesAlone_replace (consumes_callHead (by decide)) (markGroups.take 2) rfl (by decide)
      (by decide)
  have hrand : LeavesAlone _ ((emptyCall "RAND").replace (ascii "RANDOM()")) :=
    Pattern.leavesAlone_replace (consumes_emptyCall (by decide)) (markGroups.take 3) rfl (by decide)
      (by decide)
  have hinstant : LeavesAlone _ (mapCalls (callHead "UNIX_TIMESTAMP") convertFunctions.epochOf) :=
    leavesAlone_mapCalls (by decide) fun _ => tally_epochOf
  exact (((hsubstring.comp htimestamp).comp hifnull).comp hrand).comp hinstant

theorem leavesAlone_castDateCalls :
    LeavesAlone (fun s => closesCall (callHead "DATE") (splitAtClause dateClauses s).2 = false)
      castDateCalls := by
  have hdate : LeavesAlone _ (mapCalls (callHead "DATE") castToDate) :=
    leavesAlone_mapCalls (by decide) fun _ => tally_castToDate
  refine ⟨fun s h => ?_, fun s h => ?_⟩
  · rw [castDateCalls_eq, hdate.eq _ h, splitAtClause_append]
  · have hall := (hdate.before _ h).append_left (splitAtClause dateClauses s).1
    rwa [splitAtClause_append, ← castDateCalls_eq] at hall

/-! ## Sorting and limits -/

/-- Whether a sort key of the text adds zero to a column. -/
def sortsBySum (s : Bytes) : Bool :=
  (findTop? Clause.orderByPattern s).any fun m => plusZeroPattern.occursIn m.after

/-- The cast keeps the column and what is behind the zero, and puts in the name of a type. -/
theorem leavesAlone_castKeys :
    LeavesAlone (fun s => plusZeroPattern.occursIn s = false)
      (plusZeroPattern.replaceWith castKey) := by
  refine Pattern.leavesAlone_replaceWith consumes_plusZero fun prev s m hm => ?_
  obtain ⟨mid, htext, ⟨d, d', hmid, htakes'⟩, -, -⟩ := exists_between_of_find_plusZero hm
  have hnone : ∀ g ∈ markGroups, tally g mid = 0 := fun g hg =>
    Pattern.tally_of_avoids (ascii_of_mem_markGroups g hg) (by revert g; decide) hmid htakes'
  rw [htext, castKey]
  refine @Before.of_tally _ _ (markGroups.take 2) (ascii "E") (fun g hg => ?_) ?_ _
  · simp only [tally_append, hnone g (List.mem_of_mem_take hg)]
    omega
  · have htype : 0 < tally (ascii "E") (ascii " AS INTEGER)") := by decide
    simp only [tally_append, hnone _ (show ascii "E" ∈ markGroups by decide)]
    omega

theorem castOrderByPlusZero_of_findTop?_none {s : Bytes}
    (h : findTop? Clause.orderByPattern s = none) : castOrderByPlusZero s = s := by
  rw [castOrderByPlusZero, h]

theorem castOrderByPlusZero_of_findTop? {s : Bytes} {m : Match}
    (h : findTop? Clause.orderByPattern s = some m) :
    castOrderByPlusZero s = m.before ++ m.text ++ plusZeroPattern.replaceWith castKey m.after := by
  rw [castOrderByPlusZero, h]
  rfl

theorem leavesAlone_castOrderByPlusZero :
    LeavesAlone (fun s => sortsBySum s = false) castOrderByPlusZero := by
  refine ⟨fun s h => ?_, fun s h => ?_⟩
  · rw [sortsBySum] at h
    cases hfind : findTop? Clause.orderByPattern s with
    | none => exact castOrderByPlusZero_of_findTop?_none hfind
    | some m =>
      rw [hfind, Option.any_some] at h
      obtain ⟨hs, -⟩ := Pattern.places_of_findTop? consumes_orderBy hfind
      rw [castOrderByPlusZero_of_findTop? hfind, leavesAlone_castKeys.eq _ h, ← hs]
  · rw [sortsBySum] at h
    cases hfind : findTop? Clause.orderByPattern s with
    | none =>
      rw [hfind] at h
      exact absurd rfl h
    | some m =>
      rw [hfind, Option.any_some] at h
      obtain ⟨hs, -⟩ := Pattern.places_of_findTop? consumes_orderBy hfind
      have hall := (leavesAlone_castKeys.before _ h).append_left (m.before ++ m.text)
      rwa [← hs, ← castOrderByPlusZero_of_findTop? hfind] at hall

theorem leavesAlone_limitToOffset :
    LeavesAlone (fun s => limitCommaPattern.occursIn s = false) limitToOffset := by
  refine Pattern.leavesAlone_of_avoids consumes_limitComma (markGroups.take 2) rfl (by decide) ?_
  intro prev s m hm
  refine ⟨69, by decide, ?_⟩
  rw [List.mem_append, List.mem_append]
  exact Or.inl (Or.inr (by decide))

/-! ## Counts -/

section

variable {g : Bytes}

/-- None of the counted bytes separates items or ends a statement. -/
theorem separators_of_mem_markGroups (hg : g ∈ markGroups) :
    (∀ b, (isBlank b || b == 59) = true → g.contains b = false) ∧ g.contains comma = false := by
  have hnone : ∀ g ∈ markGroups, ∀ b ∈ g, (isBlank b || b == 59) = false ∧ b ≠ comma := by decide
  refine ⟨fun b hb => Bool.eq_false_iff.2 fun hmem => ?_, Bool.eq_false_iff.2 fun hmem => ?_⟩
  · rw [(hnone g hg b (List.contains_iff_mem.1 hmem)).1] at hb
    exact Bool.false_ne_true hb
  · exact (hnone g hg comma (List.contains_iff_mem.1 hmem)).2 rfl

theorem blank_of_mem_markGroups (hg : g ∈ markGroups) (b : UInt8) (hb : isBlank b = true) :
    g.contains b = false :=
  (separators_of_mem_markGroups hg).1 b (by rw [hb, Bool.true_or])

theorem tally_ofItems (hg : g ∈ markGroups) (ps : List Spaced) :
    tally g (ofItems ps) = tally g (ps.flatMap Spaced.text) := by
  rw [tally_eq_length_filter, tally_eq_length_filter,
    filter_ofItems (separators_of_mem_markGroups hg).2, List.filter_flatMap]

theorem tally_flatMap_items (hg : g ∈ markGroups) (list : Bytes) :
    tally g ((items list).flatMap Spaced.text) = tally g list := by
  rw [tally_eq_length_filter, tally_eq_length_filter, List.filter_flatMap,
    flatMap_filter_items (blank_of_mem_markGroups hg) (separators_of_mem_markGroups hg).2]

/-- Naming counts adds bytes only. -/
theorem tally_nameCounts (g : Bytes) (n : Nat) (ps : List Spaced) :
    tally g (ps.flatMap Spaced.text) ≤ tally g ((nameCounts n ps).flatMap Spaced.text) := by
  induction ps generalizing n with
  | nil => exact Nat.le_refl _
  | cons p ps ih =>
    rw [nameCounts]
    split
    · have hrest := ih (n + 1)
      simp only [List.flatMap_cons, Spaced.text, tally_append] at hrest ⊢
      omega
    · have hrest := ih n
      simp only [List.flatMap_cons, tally_append]
      omega

/-- The name of a count holds a small `t`. -/
theorem tally_nameCounts_lt {ps : List Spaced}
    (h : (ps.any fun p => isUnnamedCount p.core) = true) (n : Nat) :
    tally (ascii "MIt") (ps.flatMap Spaced.text)
      < tally (ascii "MIt") ((nameCounts n ps).flatMap Spaced.text) := by
  have hname : 0 < tally (ascii "MIt") (ascii " AS count") := by decide
  induction ps generalizing n with
  | nil => cases h
  | cons p ps ih =>
    rw [nameCounts]
    split
    · have hrest := tally_nameCounts (ascii "MIt") (n + 1) ps
      simp only [List.flatMap_cons, Spaced.text, tally_append] at hrest ⊢
      omega
    · rename_i hno
      rw [List.any_cons, Bool.or_eq_true] at h
      have hrest := ih (h.resolve_left hno) n
      simp only [List.flatMap_cons, tally_append]
      omega

/-- Putting in a clause costs blanks and semicolons only. -/
theorem tally_insertGroupBy (hg : g ∈ markGroups) (head tail clause : Bytes) :
    tally g (head ++ tail) ≤ tally g (insertGroupBy head tail clause) := by
  rw [insertGroupBy]
  dsimp only
  split
  · have htrim : tally g (trimStatementEnd (head ++ tail)).1 = tally g (head ++ tail) := by
      rw [tally_eq_length_filter, tally_eq_length_filter,
        filter_trimStatementEnd (separators_of_mem_markGroups hg).1]
    simp only [tally_append] at htrim ⊢
    omega
  · have htrim : tally g (trimRight (head ++ (splitAtClause afterGroup tail).1))
        = tally g (head ++ (splitAtClause afterGroup tail).1) := by
      rw [tally_eq_length_filter, tally_eq_length_filter,
        filter_trimRight (blank_of_mem_markGroups hg)]
    have hsplit := congrArg (tally g) (splitAtClause_append afterGroup tail)
    simp only [tally_append] at htrim hsplit ⊢
    omega

end

theorem leavesAlone_aliasCountsAndGroup :
    LeavesAlone (fun s => hasUnnamedCount s = false) aliasCountsAndGroup := by
  refine ⟨fun s h => aliasCountsAndGroup_of_hasUnnamedCount_eq_false h, fun s h => ?_⟩
  rw [hasUnnamedCount] at h
  rw [aliasCountsAndGroup]
  cases hp : SelectParts.ofText? s with
  | none =>
    rw [hp] at h
    exact absurd rfl h
  | some p =>
    rw [hp, Option.any_some, Bool.not_eq_false] at h
    have hs := (SelectParts.eq_of_ofText? hp).1
    have hnamed : ∀ t, (∀ g ∈ markGroups,
        tally g (p.head ++ ofItems (nameCounts 0 (items p.list)) ++ p.tail) ≤ tally g t) →
        Before markGroups s t := by
      intro t ht
      refine @Before.of_tally _ _ (markGroups.take 3) (ascii "MIt") (fun g hg => ?_) ?_ []
      · have hmem := List.mem_of_mem_take hg
        refine Nat.le_trans ?_ (ht g hmem)
        have hle := tally_nameCounts g 0 (items p.list)
        rw [tally_flatMap_items hmem] at hle
        rw [hs]
        simp only [tally_append, tally_ofItems hmem]
        omega
      · have hmem : ascii "MIt" ∈ markGroups := by decide
        refine Nat.lt_of_lt_of_le ?_ (ht _ hmem)
        have hlt := tally_nameCounts_lt h 0
        rw [tally_flatMap_items hmem] at hlt
        rw [hs]
        simp only [tally_append, tally_ofItems hmem]
        omega
    simp only [h, Bool.not_true, Bool.false_eq_true, if_false]
    split
    · exact hnamed _ fun _ _ => Nat.le_refl _
    · exact hnamed _ fun g hg => tally_insertGroupBy hg _ _ _

/-! ## Bare names -/

/-- Whether one of the matches behind `left` is quoted as a name. -/
def quotesAny (left : Bytes) : List Match → Bool
  | [] => false
  | m :: ms =>
    (bareNameFor? (left ++ m.before) m.text m.after).isSome ||
      quotesAny (left ++ m.before ++ m.text) ms

/-- Whether the text uses one of the words that are quoted then as a bare name. -/
def usesBareName (s : Bytes) : Bool :=
  quotesAny [] (bareNamePattern.all s)

/-- A match is written with quotes, which it does not hold, or as it is. -/
theorem writtenFor_cases {left s : Bytes} {m : Match}
    (hm : bareNamePattern.findFrom? 0 left.getLast? s = some m) :
    (bareNameFor? (left ++ m.before) m.text m.after = none ∧ writtenFor left m = m.text) ∨
      ((bareNameFor? (left ++ m.before) m.text m.after).isSome = true ∧
        Before markGroups m.text (writtenFor left m)) := by
  rw [writtenFor]
  cases hname : bareNameFor? (left ++ m.before) m.text m.after with
  | none => exact Or.inl ⟨rfl, rfl⟩
  | some name =>
    refine Or.inr ⟨rfl, @Before.of_tally _ _ [] _ (fun g hg => absurd hg List.not_mem_nil) ?_ _⟩
    rw [Pattern.tally_text_of_avoids List.mem_cons_self (by decide) hm]
    exact tally_pos (b := doubleQuote) (by decide) List.mem_cons_self

theorem quoteFrom_cases (left s : Bytes) :
    (quotesAny left (bareNamePattern.allFrom left.getLast? s) = false ∧ quoteFrom left s = s) ∨
      (quotesAny left (bareNamePattern.allFrom left.getLast? s) = true ∧
        Before markGroups s (quoteFrom left s)) := by
  -- by the matches from left to right; what stands in front of one matters to whether it is quoted
  induction hlen : s.length using Nat.strongRecOn generalizing left s with
  | _ n ih =>
    rw [quoteFrom_eq]
    cases hm : bareNamePattern.findFrom? 0 left.getLast? s with
    | none =>
      refine Or.inl ⟨?_, rfl⟩
      rw [Pattern.allFrom, hm]
      rfl
    | some m =>
      have hlt := length_after_of_findFrom? hm
      have hne := (isWord_of_mayBeName (word_of_findFrom? hm).1).1
      have hlast : (left ++ m.before ++ m.text).getLast? = m.text.getLast? := by
        rw [List.getLast?_append, List.getLast?_eq_some_getLast hne, Option.some_or]
      have hs := Pattern.text_of_findFrom? hm
      have hrest := ih _ (hlen ▸ hlt) (left ++ m.before ++ m.text) m.after rfl
      rw [hlast] at hrest
      rw [Pattern.allFrom_of_findFrom? hm hlt, quotesAny]
      dsimp only
      rcases writtenFor_cases hm with ⟨hnone, hwritten⟩ | ⟨hsome, hwritten⟩
      · rw [hnone, Option.isSome_none, Bool.false_or, hwritten]
        rcases hrest with ⟨hno, heq⟩ | ⟨hquotes, hbefore⟩
        · exact Or.inl ⟨hno, by rw [heq, hs]⟩
        · have hmore := hbefore.append_left (m.before ++ m.text)
          rw [hs] at hmore
          exact Or.inr ⟨hquotes, hmore⟩
      · refine Or.inr ⟨by rw [hsome, Bool.true_or], ?_⟩
        have hall := hwritten.append m.before (hrest.imp And.right And.right)
        rwa [hs] at hall

theorem leavesAlone_quoteBareIdentifiers :
    LeavesAlone (fun s => usesBareName s = false) quoteBareIdentifiers where
  eq := fun s h => by
    rcases quoteFrom_cases [] s with ⟨-, heq⟩ | ⟨hquotes, -⟩
    · exact heq
    · exact absurd (h.symm.trans hquotes) Bool.false_ne_true
  before := fun s h => by
    rcases quoteFrom_cases [] s with ⟨hno, -⟩ | ⟨-, hbefore⟩
    · exact absurd hno h
    · exact hbefore

end SqlDialect
