import SqlDialect.Proofs.Query.Absent
import SqlDialect.Query.ShowTables

set_option autoImplicit false

/-! # The word LIKE

Once the rule for LIKE has run, the word stands nowhere by itself, if no operator touches a literal:
the placeholder of a literal is a word, so an operator that touches one is part of a longer word and is
not found (`absent_likeToILike`). -/

namespace SqlDialect

open Bytes

/-- Where no other word has to stand in front, there is none to check. -/
theorem isWord_of_mem_none : ∀ l ∈ (none : Option Bytes), IsWord l := by
  decide

/-- The word LIKE. Literals end words. -/
def likeWord : Sought where
  word := ascii "like"
  tokens := true
  isWord_word := by decide
  isWord_lead := isWord_of_mem_none

/-! ## The rule for LIKE -/

/-- Where LIKE stands by itself, no literal touches it. -/
def OperatorsApart (s : Bytes) : Prop :=
  ∀ a o b, s = a ++ o ++ b → likeWord.Stands a o b →
    a.getLast?.any isWord = false ∧ b.head?.any isWord = false

/-- LIKE between texts that are no words is found, or an earlier one. -/
theorem exists_likeMatch {prev : Option UInt8} {a o b : Bytes} (ho : o.map lowerByte = likeWord.word)
    (ha : (a.getLast?.or prev).any isWord = false) (hb : b.head?.any isWord = false) :
    ∃ m, likePattern.findFrom? 0 prev (a ++ o ++ b) = some m ∧ m.before.length ≤ a.length := by
  have hword := isWord_of_lower likeWord.isWord_word ho
  obtain ⟨x, hx, hxword⟩ := (Option.any_eq_true _ _).1 (isWord_head hword [])
  obtain ⟨y, hy, hyword⟩ := (Option.any_eq_true _ _).1 (isWord_last hword [])
  rw [List.append_nil] at hx
  obtain ⟨m₀, hm₀⟩ := Option.isSome_iff_exists.1 (Pattern.isSome_matchHere?_iff.2
    (Pattern.leads_edged_of_retakes (Pattern.retakes_keyword (s := "LIKE") (by decide) ho) hx hxword
      hy hyword ha hb))
  obtain ⟨o, rfl⟩ := List.head?_eq_some_iff.1 hx
  rw [List.append_assoc]
  exact Pattern.exists_findFrom?_le rfl (ascii_of_isWord hxword) hm₀

/-- A match stands between texts that are no words. -/
theorem edges_of_likeMatch {prev : Option UInt8} {s : Bytes} {m : Match}
    (hm : likePattern.findFrom? 0 prev s = some m) :
    (m.before.getLast?.or prev).any isWord = false ∧ m.after.head?.any isWord = false := by
  obtain ⟨c', hplaces, -⟩ := Pattern.places_of_findFrom? hm
  have hkey := (Pattern.leads_edged.1 hplaces.leads).1
  obtain ⟨t, htakes, hspells, -⟩ := Pattern.leads_keyword_spells (by decide) hkey
  obtain ⟨y, hy, hlower⟩ := hspells.last 'E' rfl (by decide)
  have hword : isWord y = true := by
    rw [← isWord_lowerByte, hlower]
    rfl
  refine ⟨Pattern.startsOutside_keyword (by decide) (by decide) _ _ _ hplaces.leads, ?_⟩
  rw [hplaces.after]
  refine Pattern.endsOutside_wordEdge [.wordEdge, .keyword "LIKE"] _ _ hplaces.leads ?_
  rw [htakes.prev, hy]
  exact hword

theorem IsToken.length_le {t : Bytes} (h : IsToken t) : 10 ≤ t.length := by
  obtain ⟨ds, hne, -, rfl⟩ := h
  have hpos := List.length_pos_iff.2 hne
  rw [List.length_append, List.length_append, show marker.length = 7 from rfl,
    show markerEnd.length = 2 from rfl]
  omega

theorem absent_ilike : likeWord.Absent (ascii "ILIKE") := by
  intro a o b hs hstands
  have hlen : o.length = 4 := by
    rw [← List.length_map (f := lowerByte), hstands.reads]
    rfl
  have hall := congrArg List.length hs
  rw [List.length_append, List.length_append, hlen, show (ascii "ILIKE").length = 5 from rfl] at hall
  rcases a with _ | ⟨x, _ | ⟨y, a⟩⟩
  · have hreads := congrArg (List.take 4) hs
    rw [List.nil_append, List.take_left' hlen] at hreads
    have hword := hstands.reads
    rw [← hreads] at hword
    exact absurd hword (by decide)
  · obtain ⟨rfl, -⟩ := List.cons.inj hs
    rcases hstands.left with hlast | ⟨-, t, htoken, hsuffix⟩
    · exact absurd hlast (by decide)
    · have hshort := hsuffix.length_le
      have hlong := htoken.length_le
      rw [List.length_singleton] at hshort
      omega
  · simp only [List.length_cons] at hall
    omega

/-- Whatever follows ILIKE, the word does not go on from there. -/
theorem apart_ilike (u v : Bytes) : likeWord.Apart (u ++ ascii "ILIKE") v where
  whole := by
    rintro - t₁ t₂ htoken hne - ⟨c, hc⟩ -
    have hlast := congrArg List.getLast? hc
    rw [Pattern.getLast?_append_of_ne_nil _ hne, List.getLast?_append] at hlast
    have hbyte := htoken.tokenByte (List.mem_append_left t₂ (List.mem_of_getLast? hlast))
    exact absurd hbyte (by decide)
  word := by
    rintro t₁ t₂ hne₁ hne₂ hreads ⟨c, hc⟩ -
    have hlast := congrArg List.getLast? hc
    rw [Pattern.getLast?_append_of_ne_nil _ hne₁, List.getLast?_append] at hlast
    rw [List.map_append] at hreads
    have hinit : t₁.map lowerByte ∈ (ascii "like").inits :=
      (List.mem_inits _ _).2 ⟨t₂.map lowerByte, hreads⟩
    have hend : (t₁.map lowerByte).getLast? = some 101 := by
      rw [List.getLast?_map, hlast]
      rfl
    have hall : ∀ w ∈ (ascii "like").inits, w.getLast? = some 101 → w = ascii "like" := by decide
    rw [hall _ hinit hend, show likeWord.word = ascii "like" ++ [] from rfl,
      List.append_cancel_left_eq, List.map_eq_nil_iff] at hreads
    exact hne₂ hreads
  lead l hl := by cases hl

/-- Where no literal touches an operator, the rule leaves no LIKE by itself. -/
theorem absent_rewriteFrom_like {prev : Option UInt8} {s : Bytes} (h : OperatorsApart s)
    (hstart : prev.any isWord = false ∨ s.head?.any isWord = false) :
    likeWord.Absent (likePattern.rewriteFrom (fun _ => ascii "ILIKE") prev s) := by
  have hconsumes : likePattern.Consumes := Pattern.consumes_wholeWord (by decide)
  induction hlen : s.length using Nat.strongRecOn generalizing s prev with
  | _ k ih =>
    -- what stands by itself in the first part of the text is found
    have hfound : ∀ {a o b c}, s = a ++ o ++ b ++ c → likeWord.Stands a o b →
        (b = [] → c.head?.any isWord = false) →
        ∃ m, likePattern.findFrom? 0 prev s = some m ∧ m.before.length ≤ a.length := by
      intro a o b c hs hstands hb
      rw [List.append_assoc] at hs
      obtain ⟨hleft, hright⟩ := h a o (b ++ c) hs
        { hstands with right := hstands.right.append fun hnil => Or.inl (hb hnil) }
      rw [hs]
      refine exists_likeMatch hstands.reads ?_ hright
      cases hlast : a.getLast? with
      | some x =>
        rw [hlast] at hleft
        exact hleft
      | none =>
        refine hstart.resolve_right fun hhead => ?_
        rw [hs, List.getLast?_eq_none_iff.1 hlast, List.nil_append, isWord_head hstands.isWord] at hhead
        cases hhead
    cases hm : likePattern.findFrom? 0 prev s with
    | none =>
      rw [Pattern.rewriteFrom_eq, hm]
      change likeWord.Absent s
      intro a o b hs hstands
      obtain ⟨m, hfind, -⟩ := hfound (c := []) (by rw [hs, List.append_nil]) hstands fun _ => rfl
      rw [hm] at hfind
      cases hfind
    | some m =>
      have htext := Pattern.text_of_findFrom? hm
      obtain ⟨hbefore, hafter⟩ := edges_of_likeMatch hm
      have hlast : m.before.getLast?.any isWord = false := by
        cases hlast : m.before.getLast? with
        | none => rfl
        | some x =>
          rw [hlast] at hbefore
          exact hbefore
      have habsent : likeWord.Absent m.before := by
        intro a o b hb hstands
        obtain ⟨m', hfind, hle⟩ := hfound (c := m.text ++ m.after)
          (by rw [← htext, hb, List.append_assoc _ m.text]) hstands fun hnil => by
            rw [hb, hnil, List.append_nil, isWord_last hstands.isWord] at hlast
            cases hlast
        rw [hm] at hfind
        obtain rfl := Option.some.inj hfind
        have hpos := List.length_pos_iff.2 hstands.isWord.1
        rw [hb, List.length_append, List.length_append] at hle
        omega
      have hrest : OperatorsApart m.after := by
        intro a o b hb hstands
        have hne : a ≠ [] := by
          rintro rfl
          rw [hb, List.nil_append, isWord_head hstands.isWord] at hafter
          cases hafter
        have hall := h (m.before ++ m.text ++ a) o b (by rw [← htext, hb]; simp)
          { hstands with
            left := hstands.left.append fun hnil => absurd hnil hne
            led := Sought.led_of_none rfl _ }
        rwa [Pattern.getLast?_append_of_ne_nil _ hne] at hall
      rw [Pattern.rewriteFrom_of_findFrom? hconsumes hm]
      exact (habsent.append absent_ilike (Sought.apart_of_edge rfl (Or.inl hlast))).append
        (ih _ (hlen ▸ hconsumes.after_lt hm) hrest (Or.inr hafter) rfl) (apart_ilike _ _)

theorem absent_likeToILike {s : Bytes} (h : OperatorsApart s) : likeWord.Absent (likeToILike s) :=
  absent_rewriteFrom_like h (Or.inl rfl)


/-! ## Operators in joined texts -/

theorem Sought.Absent.operatorsApart {s : Bytes} (h : likeWord.Absent s) : OperatorsApart s :=
  fun a o b hs hstands => absurd hstands (h a o b hs)

/-- Behind a text that ends with no word byte. -/
theorem OperatorsApart.append {u v : Bytes} (hu : OperatorsApart u) (hv : OperatorsApart v)
    (hlast : u.getLast?.any isWord = false) : OperatorsApart (u ++ v) := by
  intro a o b h hstands
  have hwhole : Whole likeWord.tokens u v := whole_of_last hlast v
  rcases append_eq_append_append h with
    ⟨b', hb'⟩ | ⟨a', rfl, ha'⟩ | ⟨t₁, t₂, ht₁, ht₂, rfl, hut, hvt⟩
  · have hb : b = b' ++ v := by
      rw [hb', List.append_assoc (a ++ o)] at h
      exact (List.append_cancel_left h).symm
    have hne : b' ≠ [] := by
      rintro rfl
      rw [hb', List.append_nil, isWord_last hstands.isWord] at hlast
      cases hlast
    have hall := hu a o b' hb' { hstands with
      right := (hb ▸ hstands.right).of_append hwhole ⟨a ++ o, hb'.symm⟩ }
    rwa [hb, head?_append_left hne]
  · obtain ⟨hleft, hright⟩ := hv a' o b ha' { hstands with
      left := hstands.left.of_append hwhole ⟨o ++ b, by rw [ha', List.append_assoc]⟩
      led := Sought.led_of_none rfl _ }
    refine ⟨?_, hright⟩
    by_cases hnil : a' = []
    · rwa [hnil, List.append_nil]
    · rwa [Pattern.getLast?_append_of_ne_nil _ hnil]
  · have hword : IsWord t₁ := ⟨ht₁, fun x hx => hstands.isWord.2 x (List.mem_append_left _ hx)⟩
    rw [hut, isWord_last hword] at hlast
    cases hlast

/-- The operator itself in front of a blank. -/
theorem operatorsApart_like : OperatorsApart (ascii "LIKE ") := by
  intro a o b hs hstands
  have hlen : o.length = 4 := by
    rw [← List.length_map (f := lowerByte), hstands.reads]
    rfl
  cases a with
  | nil =>
    have hrest := congrArg (List.drop 4) hs
    rw [List.nil_append, List.drop_left' hlen] at hrest
    rw [← hrest]
    exact ⟨rfl, rfl⟩
  | cons x a =>
    have hall := congrArg List.length hs
    rw [List.length_append, List.length_append, List.length_cons, hlen,
      show (ascii "LIKE ").length = 5 from rfl] at hall
    obtain rfl : a = [] := List.length_eq_zero_iff.1 (by omega)
    have htake : (ascii "LIKE ").tail.take 4 = o := by
      rw [hs]
      exact List.take_left' hlen
    have hreads := hstands.reads
    rw [← htake] at hreads
    exact absurd hreads (by decide)

/-! ## Texts without the letter K -/

theorem absent_of_notMem {s : Bytes} (h : ∀ b ∈ ascii "kK", b ∉ s) : likeWord.Absent s := by
  refine Sought.absent_of_infixFree fun hin => ?_
  obtain ⟨b, hb, hlower⟩ := List.mem_map.1
    (hin.subset (show 107 ∈ likeWord.word by decide))
  have hcase : b = 107 ∨ b = 75 := forall_lowerByte (P := fun b => b = 107 ∨ b = 75) (l := [107])
    (by decide) (List.mem_singleton.2 hlower)
  rcases hcase with rfl | rfl
  · exact h 107 (by decide) hb
  · exact h 75 (by decide) hb

/-- A group whose pattern takes no K. -/
theorem notMem_group {p : Pattern} {n skip : Nat} {prev : Option UInt8} {s : Bytes} {m : Match}
    (hp : ∀ q ∈ p.recordedAs n, q.avoids (ascii "kK") = true)
    (h : p.findFrom? skip prev s = some m) : ∀ b ∈ ascii "kK", b ∉ m.group n := by
  refine Pattern.group_of_leads (P := fun t => ∀ b ∈ ascii "kK", b ∉ t) (fun _ _ => List.not_mem_nil)
    (fun q hq c c' t hleads htakes b hb => ?_) h
  have hascii : ∀ b ∈ ascii "kK", b < 128 := by decide
  exact Pattern.notMem_of_leads (hp q hq) hleads htakes hb (hascii b hb)

/-- In the query that lists tables the operator stands between blanks. -/
theorem operatorsApart_showTables {s t : Bytes} {lits lits' : LiteralTable}
    (h : convertShowTables? s lits = some (t, lits')) : OperatorsApart t := by
  obtain ⟨m, hm, heq⟩ := Option.map_eq_some_iff.1 h
  have hend := notMem_group (n := 2) (by decide) hm
  split at heq
  · rename_i token htoken
    obtain ⟨rfl, -⟩ := Prod.mk.inj heq
    have hgroup := notMem_group (n := 1) (by decide) hm
    rw [Match.group, htoken, Option.getD_some] at hgroup
    have hoperand : likeWord.Absent (token ++ m.group 2) := absent_of_notMem fun b hb hmem =>
      (List.mem_append.1 hmem).elim (hgroup b hb) (hend b hb)
    have hquery : likeWord.Absent (tablesQuery ++ ascii " AND tablename ") :=
      Sought.absent_of_infixFree (by decide +kernel)
    have hall := (hquery.operatorsApart.append operatorsApart_like rfl).append
      hoperand.operatorsApart rfl
    rwa [← List.append_assoc, List.append_assoc tablesQuery] at hall
  · obtain ⟨rfl, -⟩ := Prod.mk.inj heq
    have hquery : likeWord.Absent tablesQuery := Sought.absent_of_infixFree (by decide +kernel)
    exact hquery.operatorsApart.append (absent_of_notMem hend).operatorsApart rfl

end SqlDialect
