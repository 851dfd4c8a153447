import SqlDialect.Proofs.Literal.RoundTrip
import SqlDialect.Proofs.Query.Absent
import SqlDialect.Proofs.Query.Count
import SqlDialect.Proofs.Statement.InsertHead

set_option autoImplicit false

/-! # The end of a statement

A rule that adds a clause adds it in front of the semicolon that ends the statement, if there is one.
What stands in front of a byte that is neither a blank nor a semicolon has no say in that, so the rules
that replace words and calls do not change whether a statement ends in a semicolon. -/

namespace SqlDialect

open Bytes

/-- A byte that is trimmed at the end of a statement. -/
def isEnding (b : UInt8) : Bool :=
  isBlank b || b == 59

theorem isWord_of_isEnding {b : UInt8} (h : isEnding b = true) : isWord b = false :=
  isWord_of_trimmed h

theorem isEnding_of_isWord {b : UInt8} (h : isWord b = true) : isEnding b = false := by
  rw [Bool.eq_false_iff]
  intro hending
  exact Bool.noConfusion ((isWord_of_isEnding hending).symm.trans h)

/-- The text ends in a byte that is not trimmed, or is empty. -/
def EndsFirmly (s : Bytes) : Prop :=
  ∀ x ∈ s.getLast?, isEnding x = false

instance (s : Bytes) : Decidable (EndsFirmly s) :=
  inferInstanceAs (Decidable (∀ x ∈ _, _))

/-- What ends firmly is kept in front of the end of a statement. -/
theorem trimStatementEnd_firm_append {u : Bytes} (hu : EndsFirmly u) (v : Bytes) :
    trimStatementEnd (u ++ v) = (u ++ (trimStatementEnd v).1, (trimStatementEnd v).2) := by
  have htrim : dropTailWhile (fun b => isBlank b || b == 59) (u ++ v)
      = u ++ dropTailWhile (fun b => isBlank b || b == 59) v := dropTailWhile_append hu v
  rw [trimStatementEnd, htrim, List.length_append, List.drop_length_add_append]
  rfl

theorem endsFirmly_append {s : Bytes} (hs : EndsFirmly s) (hne : s ≠ []) (a : Bytes) :
    EndsFirmly (a ++ s) := by
  intro x hx
  rw [Pattern.getLast?_append_of_ne_nil _ hne] at hx
  exact hs x hx

/-- What is trimmed from the end of a statement. -/
theorem trimStatementEnd_snd (s : Bytes) :
    (trimStatementEnd s).2 = (s.reverse.takeWhile isEnding).contains 59 := by
  have hcut : s = dropTailWhile isEnding s ++ (s.reverse.takeWhile isEnding).reverse := by
    rw [dropTailWhile, ← List.reverse_append, List.takeWhile_append_dropWhile, List.reverse_reverse]
  have htail : s.drop (dropTailWhile isEnding s).length = (s.reverse.takeWhile isEnding).reverse :=
    List.append_cancel_left ((dropTailWhile_append_drop isEnding s).trans hcut)
  rw [trimStatementEnd]
  exact (congrArg (·.contains 59) htail).trans List.contains_reverse

/-- A text without semicolons has no say in how the statement ends. -/
theorem ending_append {u : Bytes} (hu : 59 ∉ u) (v : Bytes) :
    (trimStatementEnd (u ++ v)).2 = (trimStatementEnd v).2 := by
  have hu' : 59 ∉ u.reverse.takeWhile isEnding :=
    fun hmem => hu (List.mem_reverse.1 ((List.takeWhile_prefix _).subset hmem))
  rw [trimStatementEnd_snd, trimStatementEnd_snd, List.reverse_append, List.takeWhile_append]
  split
  · rename_i hall
    rw [Bool.eq_iff_iff, List.contains_iff_mem, List.contains_iff_mem, List.mem_append,
      or_iff_left hu', (List.takeWhile_prefix _).eq_of_length hall]
  · rfl

namespace Pattern

/-- A match of the pattern ends firmly. -/
def EndsFirm (p : Pattern) : Prop :=
  ∀ c c' : Cursor, Leads p c c' → ∀ x ∈ c'.prev, isEnding x = false

/-- The byte in front of the place that a keyword leads to is its last letter. -/
theorem prev_of_leads_keyword {s : String} (hs : ∀ ch ∈ s.toList, ch.toNat < 128) {ch : Char}
    (hlast : s.toList.getLast? = some ch) (hch : AsciiSet (CharSet.anyCase ch)) {c c' : Cursor}
    (h : Leads (keyword s) c c') :
    ∃ x, c'.prev = some x ∧ lowerByte x = lowerByte (charByte ch) := by
  obtain ⟨t, htakes, hspells, -⟩ := leads_keyword_spells hs h
  obtain ⟨x, hx, hlower⟩ := hspells.last ch hlast hch
  exact ⟨x, by rw [htakes.prev, hx]; rfl, hlower⟩

theorem endsFirm_append {l : List Pattern} {p : Pattern} (hp : p.EndsFirm) :
    (seqs (l ++ [p])).EndsFirm := by
  intro c c' h
  obtain ⟨c₁, -, h₁⟩ := (leads_seqs_append _ _).1 h
  obtain ⟨c₂, hlead, hnil⟩ := leads_seqs_cons.1 h₁
  obtain rfl := leads_nothing.1 hnil
  exact hp _ _ hlead

/-- A last letter without forms outside ASCII. -/
def LastLetter (s : String) : Prop :=
  (∀ ch ∈ s.toList, ch.toNat < 128) ∧ ∃ ch ∈ s.toList.getLast?, AsciiSet (CharSet.anyCase ch) ∧
    isWord (charByte ch) = true

instance (s : String) : Decidable (LastLetter s) :=
  inferInstanceAs (Decidable (_ ∧ _))

theorem endsFirm_keyword {s : String} (hs : LastLetter s) : (keyword s).EndsFirm := by
  obtain ⟨hascii, ch, hch, hset, hword⟩ := hs
  intro c c' h x hx
  obtain ⟨y, hy, hlower⟩ := prev_of_leads_keyword hascii hch hset h
  obtain rfl : y = x := Option.some.inj (hy.symm.trans hx)
  rw [← isWord_lowerByte, ← hlower, isWord_lowerByte] at hword
  exact isEnding_of_isWord hword

theorem endsFirm_keywords {ss : List String} (hne : ss ≠ []) (hss : ∀ s ∈ ss, LastLetter s) :
    (keywords ss).EndsFirm := by
  intro c c' h
  obtain ⟨s, hs, hkey⟩ := leads_keywords hne h
  exact endsFirm_keyword (hss s hs) _ _ hkey

/-- A word edge behind a pattern takes nothing. -/
theorem endsFirm_wordEdge {l : List Pattern} {p : Pattern} (hp : p.EndsFirm) :
    (seqs (l ++ [p, wordEdge])).EndsFirm := by
  intro c c' h
  obtain ⟨c₁, -, h₁⟩ := (leads_seqs_append _ _).1 h
  obtain ⟨c₂, hlead, h₂⟩ := leads_seqs_cons.1 h₁
  obtain ⟨c₃, hedge, hnil⟩ := leads_seqs_cons.1 h₂
  obtain rfl := leads_nothing.1 hnil
  obtain ⟨rfl, -⟩ := leads_wordEdge.1 hedge
  exact hp _ _ hlead

theorem endsFirm_text {s : String} (hs : ∀ ch ∈ s.toList, ch.toNat < 128) {x : UInt8}
    (hlast : (ascii s).getLast? = some x) (hx : isEnding x = false) : (text s).EndsFirm := by
  intro c c' h y hy
  rw [(leads_text hs h).prev, hlast] at hy
  obtain rfl := Option.some.inj hy
  exact hx

end Pattern

/-! ## Literals and names -/

theorem endsFirmly_of_isWord {s : Bytes} (h : ∀ x ∈ s.getLast?, isWord x = true) : EndsFirmly s :=
  fun x hx => isEnding_of_isWord (h x hx)

/-- A statement with placeholders ends as it did, unless a literal at its end is not closed. -/
theorem ending_shield {sql : Bytes} (h : ∀ l ∈ (shield sql).2, EndsFirmly l.text) :
    (trimStatementEnd (shield sql).1).2 = (trimStatementEnd sql).2 := by
  -- the induction is on the literals, behind any text and with any number
  have htail : ∀ (tail : List (Literal × Bytes)) (u : Bytes) (n : Nat),
      (∀ l ∈ tail.map Prod.fst, EndsFirmly l.text ∧ l.text ≠ []) →
      (trimStatementEnd (u ++ Shielding.numbered n tail)).2
        = (trimStatementEnd (u ++ tail.flatMap fun e => e.1.text ++ e.2)).2 := by
    intro tail
    induction tail with
    | nil => exact fun u n _ => rfl
    | cons entry tail ih =>
      obtain ⟨l, gap⟩ := entry
      intro u n hall
      obtain ⟨⟨hfirm, hne⟩, htail⟩ := List.forall_mem_cons.1 hall
      have htoken : EndsFirmly (placeholder n) := endsFirmly_of_isWord fun x hx =>
        isWord_of_mem_placeholder (List.mem_of_getLast? hx)
      rw [Shielding.numbered, List.flatMap_cons, List.append_assoc (placeholder n), ← List.append_assoc u,
        trimStatementEnd_firm_append (endsFirmly_append htoken (List.cons_ne_nil _ _) u), List.append_assoc l.text,
        ← List.append_assoc u, trimStatementEnd_firm_append (endsFirmly_append hfirm hne u)]
      exact ih gap (n + 1) htail
  have hsource := htail (Shielding.ofText sql).tail (Shielding.ofText sql).head 0 fun l hl =>
    ⟨h l hl, fun hnil => ?_⟩
  · rwa [show (Shielding.ofText sql).head ++ _ = sql from Shielding.source_ofText sql] at hsource
  · obtain ⟨-, rest, htext⟩ := Shielding.quoted_of_mem_ofText sql l hl
    rw [hnil] at htext
    cases htext

theorem endsFirmly_quoteIdent (name : Bytes) :
    EndsFirmly (quoteIdent name) ∧ quoteIdent name ≠ [] := by
  have hquoted : ∀ s : Bytes, EndsFirmly (doubleQuote :: s ++ [doubleQuote]) ∧
      doubleQuote :: s ++ [doubleQuote] ≠ [] := by
    intro s
    refine ⟨fun x hx => ?_, List.cons_ne_nil _ _⟩
    rw [List.getLast?_concat] at hx
    obtain rfl := Option.some.inj hx
    rfl
  rw [quoteIdent]
  split
  · exact hquoted _
  · rename_i hbare
    split
    · exact hquoted _
    · rw [Bool.or_eq_true, not_or, Bool.not_eq_true, Bool.not_eq_true] at hbare
      have hbytes : ∀ b : UInt8, isNameByte b = true → isEnding b = false := fun _ =>
        forall_isNameByte (P := fun b => isEnding b = false) (fun _ => isEnding_of_isWord) (by decide)
      cases name with
      | nil => cases hbare.2
      | cons b name =>
        have hname := hbare.2
        rw [needsQuoting, Bool.not_eq_false', Bool.and_eq_true, List.all_eq_true] at hname
        refine ⟨fun x hx => hbytes x ?_, List.cons_ne_nil _ _⟩
        rcases List.mem_cons.1 (List.mem_of_getLast? hx) with rfl | hx
        · rw [isNameByte, hname.1]
          rfl
        · exact hname.2 x hx

/-- Names in backticks are written so that they end firmly as well. -/
theorem ending_replaceBackticks (s : Bytes) :
    (trimStatementEnd (replaceBackticks s)).2 = (trimStatementEnd s).2 := by
  have htick : EndsFirmly [backtick] := by decide
  suffices h : ∀ u, (trimStatementEnd (u ++ replaceBackticks s)).2 = (trimStatementEnd (u ++ s)).2 from
    h []
  fun_induction replaceBackticks s with
  | case1 => exact fun u => rfl
  | case2 s name rest hcut ih =>
    intro u
    obtain ⟨hfirm, hne⟩ := endsFirmly_quoteIdent name
    rw [eq_append_of_cut? hcut, show u ++ backtick :: (name ++ [backtick] ++ rest)
      = u ++ backtick :: name ++ [backtick] ++ rest by simp, ← List.append_assoc,
      trimStatementEnd_firm_append (endsFirmly_append hfirm hne u),
      trimStatementEnd_firm_append (endsFirmly_append htick (List.cons_ne_nil _ _) _)]
    exact ih []
  | case3 => exact fun u => rfl
  | case4 b s hb ih =>
    intro u
    rw [List.append_cons, List.append_cons u b s]
    exact ih (u ++ [b])

/-! ## Rules -/

section

variable {s : Bytes}

/-- Replacing matches that end firmly by texts that do. -/
theorem ending_rewriteFrom {p : Pattern} (hconsumes : p.Consumes) (hp : p.EndsFirm)
    {f : Match → Bytes} (hf : ∀ m, EndsFirmly (f m) ∧ f m ≠ []) (prev : Option UInt8) :
    (trimStatementEnd (p.rewriteFrom f prev s)).2 = (trimStatementEnd s).2 := by
  induction hlen : s.length using Nat.strongRecOn generalizing s prev with
  | _ k ih =>
    cases hm : p.findFrom? 0 prev s with
    | none => rw [Pattern.rewriteFrom_eq, hm]
    | some m =>
      obtain ⟨c', hplaces, -⟩ := Pattern.places_of_findFrom? hm
      have htext : EndsFirmly m.text := fun x hx =>
        hp _ _ hplaces.leads x (by rwa [hplaces.prev_eq hconsumes])
      obtain ⟨hnew, hne⟩ := hf m
      have hrest := ih _ (hlen ▸ hconsumes.after_lt hm) (s := m.after) m.text.getLast? rfl
      rw [Pattern.rewriteFrom_of_findFrom? hconsumes hm,
        trimStatementEnd_firm_append (endsFirmly_append hnew hne _), hrest, ← Pattern.text_of_findFrom? hm,
        trimStatementEnd_firm_append (endsFirmly_append htext (hplaces.text_ne_nil hconsumes) _)]

theorem ending_replace {p : Pattern} (hconsumes : p.Consumes) (hp : p.EndsFirm) {r : Bytes}
    (hr : EndsFirmly r ∧ r ≠ []) : (trimStatementEnd (p.replace r s)).2 = (trimStatementEnd s).2 :=
  ending_rewriteFrom hconsumes hp (fun _ => hr) none

theorem ending_likeToILike : (trimStatementEnd (likeToILike s)).2 = (trimStatementEnd s).2 :=
  ending_replace (Pattern.consumes_wholeWord (by decide))
    (Pattern.endsFirm_wordEdge (l := [.wordEdge]) (Pattern.endsFirm_keyword (by decide))) (by decide)

theorem ending_regexpToTilde : (trimStatementEnd (regexpToTilde s)).2 = (trimStatementEnd s).2 := by
  have hkeys : (Pattern.keywords ["REGEXP", "RLIKE"]).EndsFirm :=
    Pattern.endsFirm_keywords (List.cons_ne_nil _ _) (by decide)
  have hconsumes : (Pattern.keywords ["REGEXP", "RLIKE"]).Consumes :=
    Pattern.consumes_keywords (List.cons_ne_nil _ _) (by decide)
  rw [regexpToTilde, ending_replace _ _ (by decide), ending_replace _ _ (by decide)]
  · exact Pattern.consumes_of_mem (p := .keyword "NOT")
      (List.mem_cons_of_mem _ List.mem_cons_self) (Pattern.consumes_keyword (by decide))
  · exact Pattern.endsFirm_wordEdge (l := [.wordEdge, .keyword "NOT", .blanks1]) hkeys
  · exact Pattern.consumes_of_mem (List.mem_cons_of_mem _ List.mem_cons_self) hconsumes
  · exact Pattern.endsFirm_wordEdge (l := [.wordEdge]) hkeys

theorem endsFirm_callHead (name : String) : (callHead name).EndsFirm :=
  Pattern.endsFirm_append (l := [.wordEdge, .keyword name, .blanks])
    (Pattern.endsFirm_text (by decide) rfl rfl)

theorem endsFirm_emptyCall (name : String) : (emptyCall name).EndsFirm :=
  Pattern.endsFirm_append (l := [callHead name, .blanks]) (Pattern.endsFirm_text (by decide) rfl rfl)

theorem ending_mapCalls {name : String} {f : Bytes → Bytes}
    (hf : ∀ arg, EndsFirmly (f arg) ∧ f arg ≠ []) :
    (trimStatementEnd (mapCalls (callHead name) f s)).2 = (trimStatementEnd s).2 := by
  fun_induction mapCalls (callHead name) f s with
  | case1 => rfl
  | case2 => rfl
  | case3 s m hfind arg rest hparen ih =>
    have hclose : EndsFirmly [closeParen] := by decide
    rw [trimStatementEnd_firm_append (endsFirmly_append (hf arg).1 (hf arg).2 _), ih,
      ← Pattern.text_of_find? hfind, eq_append_of_splitParen? hparen,
      show m.before ++ m.text ++ (arg ++ closeParen :: rest)
        = m.before ++ m.text ++ arg ++ [closeParen] ++ rest by simp,
      trimStatementEnd_firm_append (endsFirmly_append hclose (List.cons_ne_nil _ _) _)]

theorem endsFirmly_epochOf (arg : Bytes) :
    EndsFirmly (convertFunctions.epochOf arg) ∧ convertFunctions.epochOf arg ≠ [] := by
  rw [convertFunctions.epochOf]
  split
  · decide
  · exact ⟨endsFirmly_append (by decide) (by decide) _,
      List.append_ne_nil_of_right_ne_nil _ (by decide)⟩

theorem ending_convertFunctions :
    (trimStatementEnd (convertFunctions s)).2 = (trimStatementEnd s).2 := by
  rw [convertFunctions, ending_mapCalls endsFirmly_epochOf, ending_replace _ (endsFirm_emptyCall _)
    (by decide), ending_replace _ (endsFirm_callHead _) (by decide), ending_replace _
    (endsFirm_emptyCall _) (by decide), ending_replace _ (endsFirm_callHead _) (by decide)]
  all_goals first
    | exact consumes_callHead (by decide)
    | exact Pattern.consumes_of_mem List.mem_cons_self (consumes_callHead (by decide))

/-- An insert ends as it did when the rule for upserts is reached. -/
theorem ending_textAtUpsert :
    (trimStatementEnd (textAtUpsert s)).2 = (trimStatementEnd (replaceBackticks s)).2 := by
  rw [textAtUpsert, ending_convertFunctions, ending_regexpToTilde, ending_likeToILike]

end

end SqlDialect
