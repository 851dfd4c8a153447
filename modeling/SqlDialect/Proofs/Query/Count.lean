import SqlDialect.Proofs.Query.Settled
import SqlDialect.Proofs.Statement.Comments
import SqlDialect.Proofs.Statement.SelectHead

set_option autoImplicit false

/-! # Counting a query

A query is remembered as it was written and counted without the modifier that asks for the count.
Dropping the modifier takes the blanks in front of it as well, so it can join what stands on both
sides. Where no word follows a modifier at once, and a blank or the end follows the modifiers directly
behind SELECT (`ModifiersSpaced`), words stay words: SELECT is still followed by a blank and FROM stands
alone, at the same depth. What is counted then has a FROM wherever the query that was remembered has
one.

Blanks in front of a query change nothing, whatever follows the modifiers. -/

namespace SqlDialect

open Bytes

/-! ## The modifier -/

/-- SELECT behind blanks, and nothing else. -/
def selectAlonePattern : Pattern :=
  .seqs [.textStart, .blanks, .keyword "SELECT", .textEnd]

/-- Of the modifiers of a text those directly behind its SELECT, where dropping them leaves nothing. -/
def modifiersBehindSelect : List Match → List Match
  | [] => []
  | m :: ms =>
    if selectAlonePattern.occursIn m.before then m :: ms.takeWhile (·.before.isEmpty) else []

/-- Dropping the modifiers keeps words apart: none is followed by a word, which is possible only where it
is spelled with a long s at its end, and those directly behind SELECT are followed by a blank or end the
text. -/
structure ModifiersSpaced (s : Bytes) : Prop where
  word : ∀ m ∈ calcFoundRowsPattern.all s, ∀ x ∈ m.after.head?, isWord x = false
  select : ∀ m ∈ modifiersBehindSelect (calcFoundRowsPattern.all s), ∀ x ∈ m.after.head?,
    CharSet.blank.contains x.toNat = true

instance (s : Bytes) : Decidable (ModifiersSpaced s) :=
  decidable_of_iff
    ((∀ m ∈ calcFoundRowsPattern.all s, ∀ x ∈ m.after.head?, isWord x = false) ∧
      ∀ m ∈ modifiersBehindSelect (calcFoundRowsPattern.all s), ∀ x ∈ m.after.head?,
        CharSet.blank.contains x.toNat = true)
    ⟨fun h => ⟨h.1, h.2⟩, fun h => ⟨h.word, h.select⟩⟩

/-- Whether the byte can stand in a modifier or in the blanks in front of one. -/
def isModifierByte (x : UInt8) : Bool :=
  CharSet.blank.contains x.toNat || decide (128 ≤ x) ||
    (ascii "sql_cafoundrw").contains (lowerByte x)

/-- A modifier is blanks and a spelling of its keyword. -/
theorem leads_calcFoundRows {c c' : Pattern.Cursor} (h : Pattern.Leads calcFoundRowsPattern c c') :
    ∃ bl t, AllBlank bl ∧ Pattern.Spells "SQL_CALC_FOUND_ROWS".toList t ∧ c.Takes (bl ++ t) c' := by
  obtain ⟨c₁, hblanks, h₁⟩ := Pattern.leads_seq.1 h
  obtain ⟨c₂, hedge, h₂⟩ := Pattern.leads_seqs_cons.1 h₁
  obtain ⟨rfl, -⟩ := Pattern.leads_wordEdge.1 hedge
  obtain ⟨c₃, hkey, h₃⟩ := Pattern.leads_seqs_cons.1 h₂
  obtain ⟨c₄, hedge', hnil⟩ := Pattern.leads_seqs_cons.1 h₃
  obtain rfl := Pattern.leads_nothing.1 hnil
  obtain ⟨rfl, -⟩ := Pattern.leads_wordEdge.1 hedge'
  obtain ⟨bl, hbl, hblTakes⟩ := Pattern.leads_blanks hblanks
  obtain ⟨t, htakes, ht, -⟩ := Pattern.leads_keyword_spells (by decide) hkey
  exact ⟨bl, t, hbl, ht, hblTakes.trans htakes⟩

theorem consumes_calcFoundRows : calcFoundRowsPattern.Consumes := by
  intro c c' h
  obtain ⟨bl, t, -, ht, htakes⟩ := leads_calcFoundRows h
  exact htakes.taken_lt fun hnil =>
    ht.ne_nil (by decide) (List.append_eq_nil_iff.1 hnil).2

theorem isModifierByte_of_mem {prev : Option UInt8} {m : Match} {c' : Pattern.Cursor}
    (hm : calcFoundRowsPattern.Places prev m c') {x : UInt8} (hx : x ∈ m.text) :
    isModifierByte x = true := by
  obtain ⟨bl, t, hbl, ht, htakes⟩ := leads_calcFoundRows hm.leads
  rw [hm.takes.unique htakes, List.mem_append] at hx
  rw [isModifierByte, Bool.or_eq_true, Bool.or_eq_true]
  rcases hx with hx | hx
  · exact Or.inl (Or.inl (hbl x hx))
  · by_cases hascii : x < 128
    · obtain ⟨ch, hch, heq⟩ := ht.mem hx hascii
      have hall : ∀ ch ∈ "SQL_CALC_FOUND_ROWS".toList,
          (ascii "sql_cafoundrw").contains (lowerByte (charByte ch)) = true := by
        decide
      exact Or.inr (heq ▸ hall ch hch)
    · exact Or.inl (Or.inr (by simpa using hascii))

/-! ## Dropping the modifier -/

/-- What dropping modifiers keeps of the text before and after a word. -/
structure Kept (before after before' after' : Bytes) : Prop where
  last : before'.getLast? = before.getLast?
  depth : ∀ d, depthAfter d before' = depthAfter d before
  head : ∀ x ∈ after'.head?, x ∈ after.head? ∨ isWord x = false

theorem Kept.refl (before after : Bytes) : Kept before after before after :=
  ⟨rfl, fun _ => rfl, fun _ hx => Or.inl hx⟩

theorem plain_of_isModifierByte {x : UInt8} (hx : isModifierByte x = true) :
    x ≠ openParen ∧ x ≠ closeParen := by
  constructor
  · rintro rfl
    exact absurd hx (by decide)
  · rintro rfl
    exact absurd hx (by decide)

/-- A modifier stands before a word or behind it, if it cannot hold the last byte of the word and no word
follows it. -/
theorem apart_of_modifier {text rest : Bytes} {before w after : Bytes} {pre : Bytes}
    (hw : ∀ x ∈ w, isWord x = true) {z : UInt8} (hlast : w.getLast? = some z) (hz : z ∉ text)
    (hrest : ∀ x ∈ rest.head?, isWord x = false)
    (h : pre ++ text ++ rest = before ++ (w ++ after)) :
    (∃ mid, before = pre ++ text ++ mid ∧ rest = mid ++ (w ++ after)) ∨
      ∃ mid, pre = before ++ (w ++ mid) ∧ after = mid ++ (text ++ rest) := by
  rcases List.append_eq_append_iff.1 h with ⟨mid, hbefore, hrest'⟩ | ⟨cut, hpre, hwafter⟩
  · exact Or.inl ⟨mid, hbefore, hrest'⟩
  · -- the modifier does not end in the word, since the rest of the word would follow it
    obtain ⟨mid, rfl, rfl⟩ : ∃ mid, cut = w ++ mid ∧ after = mid ++ rest := by
      rcases List.append_eq_append_iff.1 hwafter with hmid | ⟨tail, hcut, hrest'⟩
      · exact hmid
      · cases tail with
        | nil => exact ⟨[], by rw [hcut]; simp, hrest'.symm⟩
        | cons x tail =>
          have hx := hrest x (by rw [hrest']; rfl)
          rw [hw x (by rw [hcut]; simp)] at hx
          cases hx
    -- and it does not start in front of the last byte of the word
    rw [← List.append_assoc] at hpre
    rcases List.append_eq_append_iff.1 hpre with ⟨start, hstart, htext⟩ | ⟨gap, hgap, rfl⟩
    · obtain rfl : start = [] := by
        rw [← List.getLast?_eq_none_iff, Option.eq_none_iff_forall_ne_some]
        intro y hy
        have hzy := congrArg List.getLast? hstart
        rw [List.getLast?_append, List.getLast?_append, hlast, hy] at hzy
        obtain rfl : z = y := Option.some.inj hzy
        exact hz (htext ▸ List.mem_append_left mid (List.mem_of_getLast? hy))
      rw [List.append_nil] at hstart
      rw [List.nil_append] at htext
      exact Or.inr ⟨[], by rw [← hstart, List.append_nil], by rw [htext]; rfl⟩
    · exact Or.inr ⟨gap, by rw [hgap, List.append_assoc], by rw [List.append_assoc]⟩

/-- A word that no modifier can end in is not touched by the modifiers around it. -/
theorem eraseFrom_word {w : Bytes} (hw : ∀ x ∈ w, isWord x = true) {z : UInt8}
    (hlast : w.getLast? = some z) (hz : isModifierByte z = false) {prev : Option UInt8}
    {before after : Bytes}
    (hspaced : ∀ m ∈ calcFoundRowsPattern.allFrom prev (before ++ (w ++ after)),
      ∀ x ∈ m.after.head?, isWord x = false) :
    ∃ before' after', calcFoundRowsPattern.rewriteFrom (fun _ => []) prev (before ++ (w ++ after))
      = before' ++ (w ++ after') ∧ Kept before after before' after' := by
  induction hlen : before.length using Nat.strongRecOn generalizing prev before with
  | _ n ih =>
    rw [Pattern.rewriteFrom_eq]
    cases hfind : calcFoundRowsPattern.findFrom? 0 prev (before ++ (w ++ after)) with
    | none => exact ⟨before, after, rfl, .refl _ _⟩
    | some m =>
      obtain ⟨c', hplaces, -⟩ := Pattern.places_of_findFrom? hfind
      have hlt := consumes_calcFoundRows.after_lt hfind
      rw [Pattern.allFrom_of_findFrom? hfind hlt, List.forall_mem_cons] at hspaced
      have hztext : z ∉ m.text := fun hmem =>
        Bool.noConfusion (hz.symm.trans (isModifierByte_of_mem hplaces hmem))
      dsimp only
      rw [if_pos hlt, List.append_nil]
      -- the modifier is in front of the word or behind it; in front, the rest is shorter
      rcases apart_of_modifier hw hlast hztext hspaced.1 (Pattern.text_of_findFrom? hfind) with
        ⟨mid, rfl, hafter⟩ | ⟨mid, hbefore, rfl⟩
      · have hmid : mid ≠ [] := by
          rintro rfl
          obtain ⟨x, u, rfl⟩ : ∃ x u, w = x :: u :=
            List.exists_cons_of_ne_nil fun hnil => by rw [hnil] at hlast; cases hlast
          have hx := hspaced.1 x (by rw [hafter]; rfl)
          exact Bool.noConfusion (hx.symm.trans (hw x List.mem_cons_self))
        have htext := List.length_pos_iff.2 (hplaces.text_ne_nil consumes_calcFoundRows)
        have hshort : mid.length < n := by
          rw [← hlen, List.length_append, List.length_append]
          omega
        have hspaced' := hspaced.2
        rw [hafter] at hspaced' ⊢
        obtain ⟨mid', after', herase, hkept⟩ := ih _ hshort hspaced' rfl
        refine ⟨m.before ++ mid', after', by rw [herase, List.append_assoc], ?_, ?_, hkept.head⟩
        · obtain ⟨y, hy⟩ := Option.ne_none_iff_exists'.1 (mt List.getLast?_eq_none_iff.1 hmid)
          rw [List.getLast?_append, List.getLast?_append, hkept.last, hy]
          rfl
        · intro d
          rw [depthAfter_append, hkept.depth, depthAfter_append, depthAfter_append,
            depthAfter_plain (a := m.text) fun b hb =>
              plain_of_isModifierByte (isModifierByte_of_mem hplaces hb)]
      · refine ⟨before, mid ++ calcFoundRowsPattern.rewriteFrom (fun _ => []) m.text.getLast? m.after,
          by rw [hbefore]; simp only [List.append_assoc], rfl, fun _ => rfl, fun x hx => ?_⟩
        cases mid with
        | cons y mid => exact Or.inl hx
        | nil =>
          exact Or.inr (head?_eraseFrom
            (fun m' hm' => hspaced.2 m' ((List.takeWhile_prefix _).subset hm')) hspaced.1 x hx)

/-! ## The text that is counted -/

/-- A query without its modifiers and its end. -/
def countedText (sql : Bytes) : Bytes :=
  (trimStatementEnd (stripCalcFoundRows (shield sql).1)).1

/-- The last letters of FROM and SELECT stand neither in a modifier nor in the end of a statement. -/
theorem kept_of_lower {x : UInt8} (hx : lowerByte x = 109 ∨ lowerByte x = 116) :
    isModifierByte x = false ∧ (isBlank x || x == 59) = false ∧
      CharSet.blank.contains x.toNat = false :=
  forall_lowerByte (P := fun x => isModifierByte x = false ∧ (isBlank x || x == 59) = false ∧
    CharSet.blank.contains x.toNat = false) (l := [109, 116]) (by decide) (by simpa using hx)

/-- Where no modifier can end in a word, the word stays in the text that is counted. -/
theorem countedText_word {sql before w after : Bytes} (h : (shield sql).1 = before ++ (w ++ after))
    (hspaced : ModifiersSpaced (shield sql).1) (hw : ∀ x ∈ w, isWord x = true) {z : UInt8}
    (hlast : w.getLast? = some z) (hz : lowerByte z = 109 ∨ lowerByte z = 116) :
    ∃ before' after', countedText sql = before' ++ (w ++ after') ∧ Kept before after before' after' := by
  obtain ⟨hmodifier, htrim, -⟩ := kept_of_lower hz
  have hword := hspaced.word
  rw [Pattern.all, h] at hword
  obtain ⟨before', after', herase, hkept⟩ := eraseFrom_word hw hlast hmodifier hword
  have hstrip : stripCalcFoundRows (shield sql).1 = before' ++ (w ++ after') := by
    rw [h]
    exact herase
  obtain ⟨cut, hcut⟩ := dropTailWhile_prefix (fun b => isBlank b || b == 59) after'
  refine ⟨before', dropTailWhile (fun b => isBlank b || b == 59) after', ?_,
    hkept.last, hkept.depth, fun x hx => hkept.head x ?_⟩
  · rw [countedText, hstrip, ← List.append_assoc, ← List.append_assoc]
    refine dropTailWhile_append (fun x hx => ?_) after'
    rw [List.getLast?_append, hlast] at hx
    obtain rfl : z = x := Option.some.inj hx
    exact htrim
  · rw [← hcut, List.head?_append, Option.mem_def.1 hx]
    rfl

theorem occursIn_selectAlone {bl sel : Bytes} (hbl : AllBlank bl) (hsel : IsSelect sel) :
    selectAlonePattern.occursIn (bl ++ sel) = true := by
  have hfind := Pattern.find?_atStart [.keyword "SELECT", .textEnd] (bl ++ sel)
  have hstart := Pattern.run_atStart
    (Pattern.startsUnblank_keyword (s := "SELECT") (by decide) [.textEnd]) hbl
    (hsel.unblankHead [])
  have hrun := hsel.run (fun c => (Pattern.seqs [.textEnd]).run c some)
    { prev := bl.getLast?, rest := sel, taken := bl.length } [] (List.append_nil sel).symm
  rw [List.append_nil] at hstart
  rw [Pattern.occursIn, selectAlonePattern]
  show ((Pattern.atStart [.keyword "SELECT", .textEnd]).find? (bl ++ sel)).isSome = true
  rw [hfind, Pattern.matchHere?, hstart]
  have hkey : (Pattern.seqs [.keyword "SELECT", .textEnd]).run
      { prev := bl.getLast?, rest := sel, taken := bl.length } some = _ := hrun
  rw [hkey]
  rfl

/-- The first modifier of a query stands behind its SELECT. -/
theorem before_of_modifier {bl sel after : Bytes} (hbl : AllBlank bl) (hsel : IsSelect sel) {m : Match}
    (hm : calcFoundRowsPattern.findFrom? 0 none (bl ++ (sel ++ after)) = some m)
    (hword : ∀ x ∈ m.after.head?, isWord x = false) :
    ∃ gap, m.before = bl ++ (sel ++ gap) ∧ after = gap ++ (m.text ++ m.after) := by
  obtain ⟨c', hplaces, -⟩ := Pattern.places_of_findFrom? hm
  obtain ⟨z, hz, hzlower⟩ := hsel.spells.last 'T' (by decide) (by decide)
  obtain ⟨front, rfl⟩ : ∃ front, sel = front ++ [z] :=
    ⟨sel.dropLast, (List.dropLast_append_getLast? z hz).symm⟩
  have hzword : isWord z = true := by
    rw [← isWord_lowerByte, hzlower]
    decide
  have hztext : z ∉ m.text := fun hmem => Bool.noConfusion
    ((kept_of_lower (Or.inr hzlower)).1.symm.trans (isModifierByte_of_mem hplaces hmem))
  have htext := Pattern.text_of_findFrom? hm
  rw [List.append_assoc front, ← List.append_assoc bl] at htext
  rcases apart_of_modifier (List.forall_mem_singleton.2 hzword) rfl hztext hword htext with
    ⟨mid, hbefore, -⟩ | ⟨gap, hbefore, hafter⟩
  · -- the modifier holds an underscore, SELECT does not
    obtain ⟨bl', t, hbl', ht, htakes⟩ := leads_calcFoundRows hplaces.leads
    obtain ⟨t₁, t₂, rfl, ht₁, -⟩ := ht.exists_append "SQL_".toList "CALC_FOUND_ROWS".toList
    obtain ⟨x, hx, hxlower⟩ := ht₁.last '_' (by decide) (by decide)
    have hmem : x ∈ bl ++ front := by
      rw [hbefore, hplaces.takes.unique htakes]
      have := List.mem_of_getLast? hx
      simp [this]
    have hx95 : lowerByte x = 95 := hxlower
    exfalso
    rcases List.mem_append.1 hmem with hmem | hmem
    · exact forall_blank (P := fun x => lowerByte x ≠ 95) (by decide) (hbl x hmem) hx95
    · have hascii : x < 128 := forall_lowerByte (P := fun x => x < 128) (l := [95]) (by decide)
        (List.mem_singleton.2 hx95)
      obtain ⟨ch, hch, heq⟩ := hsel.spells.mem (List.mem_append_left _ hmem) hascii
      rw [hx95] at heq
      revert ch
      decide
  · exact ⟨gap, by rw [hbefore]; simp only [List.append_assoc], hafter⟩

/-- SELECT keeps a blank behind it. -/
theorem stripCalcFoundRows_select {bl sel rest : Bytes} {b : UInt8} (hbl : AllBlank bl)
    (hsel : IsSelect sel) (hb : CharSet.blank.contains b.toNat = true)
    (hspaced : ModifiersSpaced (bl ++ (sel ++ b :: rest))) :
    ∃ tail, stripCalcFoundRows (bl ++ (sel ++ b :: rest)) = bl ++ (sel ++ tail) ∧
      ∀ x ∈ tail.head?, CharSet.blank.contains x.toNat = true := by
  have hstrip : stripCalcFoundRows (bl ++ (sel ++ b :: rest))
      = calcFoundRowsPattern.rewriteFrom (fun _ => []) none (bl ++ (sel ++ b :: rest)) := rfl
  rw [hstrip, Pattern.rewriteFrom_eq]
  cases hm : calcFoundRowsPattern.findFrom? 0 none (bl ++ (sel ++ b :: rest)) with
  | none => exact ⟨b :: rest, rfl, fun x hx => Option.some.inj hx ▸ hb⟩
  | some m =>
    have hlt := consumes_calcFoundRows.after_lt hm
    obtain ⟨hword, hselect⟩ := hspaced
    rw [Pattern.all, Pattern.allFrom_of_findFrom? hm hlt] at hword hselect
    obtain ⟨gap, hbefore, hrest⟩ := before_of_modifier hbl hsel hm (List.forall_mem_cons.1 hword).1
    dsimp only
    rw [if_pos hlt, List.append_nil, hbefore]
    refine ⟨gap ++ calcFoundRowsPattern.rewriteFrom (fun _ => []) m.text.getLast? m.after,
      by simp only [List.append_assoc], ?_⟩
    cases gap with
    | cons y gap =>
      intro x hx
      obtain rfl : y = x := Option.some.inj hx
      exact (List.cons.inj hrest).1 ▸ hb
    | nil =>
      rw [List.append_nil] at hbefore
      rw [modifiersBehindSelect, hbefore, if_pos (occursIn_selectAlone hbl hsel),
        List.forall_mem_cons] at hselect
      exact head?_eraseFrom hselect.2 hselect.1

/-- What is counted starts with SELECT and a blank, if it has the last letter of FROM somewhere. -/
theorem startsSelect_countedText {sql : Bytes} (h : StartsSelect (shield sql).1)
    (hspaced : ModifiersSpaced (shield sql).1) {x : UInt8} (hx : x ∈ countedText sql)
    (hlower : lowerByte x = 109) : StartsSelect (countedText sql) := by
  obtain ⟨bl, sel, b, rest, hbl, hsel, hb, hselect⟩ := h
  rw [hselect] at hspaced
  obtain ⟨tail, hstrip, htail⟩ := stripCalcFoundRows_select hbl hsel hb hspaced
  obtain ⟨z, hz, hzlower⟩ := hsel.spells.last 'T' (by decide) (by decide)
  obtain ⟨cut, hcut⟩ := dropTailWhile_prefix (fun b => isBlank b || b == 59) tail
  have hcount : countedText sql
      = bl ++ (sel ++ dropTailWhile (fun b => isBlank b || b == 59) tail) := by
    rw [countedText, hselect, hstrip, ← List.append_assoc, ← List.append_assoc]
    refine dropTailWhile_append (fun y hy => ?_) tail
    rw [List.getLast?_append, hz] at hy
    obtain rfl : z = y := Option.some.inj hy
    exact (kept_of_lower (Or.inr hzlower)).2.1
  cases hkept : dropTailWhile (fun b => isBlank b || b == 59) tail with
  | cons y kept =>
    refine ⟨bl, sel, y, kept, hbl, hsel, htail y ?_, hkept ▸ hcount⟩
    rw [← hcut, hkept]
    rfl
  | nil =>
    rw [hcount, hkept, List.append_nil] at hx
    exfalso
    rcases List.mem_append.1 hx with hx | hx
    · exact Bool.noConfusion ((kept_of_lower (Or.inl hlower)).2.2.symm.trans (hbl x hx))
    · have hascii : x < 128 := forall_lowerByte (P := fun x => x < 128) (l := [109]) (by decide)
        (List.mem_singleton.2 hlower)
      obtain ⟨ch, hch, heq⟩ := hsel.spells.mem hx hascii
      rw [hlower] at heq
      revert ch
      decide

/-- What is counted reads from a table if the query does. -/
theorem readsTable_countedText {sql : Bytes} (h : readsTable (shield sql).1 = true)
    (hspaced : ModifiersSpaced (shield sql).1) : readsTable (countedText sql) = true := by
  obtain ⟨hselect, f, hf⟩ := readsTable_iff.1 h
  obtain ⟨hfrom, c', hplaces⟩ :=
    Pattern.places_of_findTop? (Pattern.consumes_wholeWord (by decide)) hf
  obtain ⟨htext, hbefore, hafter⟩ := hplaces.wholeWord (by decide) (by decide)
  rw [Option.or_none] at hbefore
  have hword : IsWord f.text := IsWord.of_map_lowerByte (by decide) htext
  obtain ⟨m, hm, hmlower⟩ : ∃ m, f.text.getLast? = some m ∧ lowerByte m = 109 := by
    have hlast : (f.text.map lowerByte).getLast? = some 109 := by rw [htext]; decide
    rw [List.getLast?_map] at hlast
    exact Option.map_eq_some_iff.1 hlast
  rw [List.append_assoc] at hfrom
  obtain ⟨before', after', hcount, hkept⟩ :=
    countedText_word hfrom hspaced hword.2 hm (Or.inl hmlower)
  refine readsTable_iff.2 ⟨startsSelect_countedText hselect hspaced ?_ hmlower, ?_⟩
  · rw [hcount]
    exact List.mem_append_right _ (List.mem_append_left _ (List.mem_of_getLast? hm))
  · rw [hcount]
    have hnext : after'.head?.any isWord = false := by
      cases after' with
      | nil => rfl
      | cons y after' =>
        rcases hkept.head y rfl with hy | hy
        · rw [Option.mem_def.1 hy] at hafter
          exact hafter
        · exact hy
    obtain ⟨f', hf', -⟩ := exists_findTop?_wholeWord (by decide) (by decide) (by decide) htext hnext
      (by rw [hkept.last]; exact hbefore) (by rw [hkept.depth]; exact depth_of_findTop? hf)
    exact ⟨f', hf'⟩

/-! ## The query that counts -/

/-- What is counted of a query from its FROM on: no ordering, limit or lock. -/
def countedSource (tail : Bytes) : Bytes :=
  trimRight (splitAtClause (Clause.orderByPattern :: Clause.afterOrder) tail).1

/-- The text that counts a query, given with its part from FROM on. -/
def countText (query source : Bytes) : Bytes :=
  if selectDistinctPattern.occursIn query || (findTop? Clause.groupByPattern source).isSome ||
      (findTop? Clause.havingPattern source).isSome then
    ascii "SELECT COUNT(*) FROM (" ++ trimSpace query ++ ascii ") AS found_rows"
  else ascii "SELECT COUNT(*) " ++ source

/-- A text that counts is longer than the answer where there is nothing to count. -/
theorem countText_ne_nothing (query source : Bytes) : countText query source ≠ ascii "SELECT 0" := by
  have hsub : (ascii "SELECT COUNT(*) FROM (").length = 22 := by decide
  have hcount : (ascii "SELECT COUNT(*) ").length = 16 := by decide
  have hnothing : (ascii "SELECT 0").length = 8 := by decide
  intro h
  have hlen := congrArg List.length h
  rw [countText] at hlen
  split at hlen
  · rw [List.length_append, List.length_append] at hlen
    omega
  · rw [List.length_append] at hlen
    omega

/-- The text that counts a query without modifiers and end; nothing if it reads from no table. -/
def countText? (s : Bytes) : Option Bytes :=
  match SelectParts.ofText? s with
  | none => none
  | some p =>
    if p.tail.isEmpty then none
    else some (countText (p.head ++ p.list ++ countedSource p.tail) (countedSource p.tail))

theorem foundRowsQuery_eq (last : Bytes) :
    foundRowsQuery last
      = if (trimSpace last).isEmpty then countNothing
        else match countText? (countedText last) with
          | none => countNothing
          | some text => (text, (shield last).2) := by
  rw [foundRowsQuery]
  split
  · rfl
  · simp only [countText?, countedText]
    cases SelectParts.ofText? (trimStatementEnd (stripCalcFoundRows (shield last).1)).1 with
    | none => rfl
    | some p =>
      dsimp only
      split
      · rfl
      · simp only [countText, countedSource]
        exact (apply_ite (fun text => (text, (shield last).2)) _ _ _).symm

/-- A text of which nothing is left between its white space holds white space only. -/
theorem isSpace_of_trimSpace_eq_nil {s : Bytes} (h : trimSpace s = []) {b : UInt8} (hb : b ∈ s)
    (hascii : b < 128) : isSpace b.toNat = true := by
  obtain ⟨lead, inner, trail, hglyphs, htrim, hlead, htrail⟩ := trimSpace_glyphs s
  have hmem := Utf8.mem_glyphs_of_ascii hascii hb
  rw [hglyphs, List.mem_append, List.mem_append] at hmem
  rcases hmem with (hmem | hmem) | hmem
  · have hspace := hlead _ hmem
    exact hspace
  · have hinner : b ∈ Utf8.ofGlyphs inner :=
      List.mem_flatMap.2 ⟨_, hmem, List.mem_singleton.2 rfl⟩
    rw [← htrim, h] at hinner
    exact absurd hinner List.not_mem_nil
  · have hspace := htrail _ hmem
    exact hspace

theorem shieldFrom_of_unquoted {s : Bytes}
    (hs : ∀ b ∈ s, ¬ (b = singleQuote ∨ b = doubleQuote) ∧ b ≠ backtick) (n : Nat) :
    shieldFrom n s = s := by
  induction s with
  | nil => exact shieldFrom_nil n
  | cons b s ih =>
    obtain ⟨⟨hquote, htick⟩, hs⟩ := List.forall_mem_cons.1 hs
    rw [shieldFrom_plain hquote htick, ih hs]

/-- A statement that reads from a table is more than white space. -/
theorem trimSpace_ne_nil_of_readsTable {sql : Bytes} (h : readsTable (shield sql).1 = true) :
    trimSpace sql ≠ [] := by
  intro hnil
  have hspace : ∀ b ∈ sql, b < 128 → isSpace b.toNat = true :=
    fun b hb hascii => isSpace_of_trimSpace_eq_nil hnil hb hascii
  have hplain : (shield sql).1 = sql := by
    refine shieldFrom_of_unquoted (fun b hb => ?_) 0
    have hb := hspace b hb
    refine ⟨?_, ?_⟩
    · rintro (rfl | rfl) <;> exact absurd (hb (by decide)) (by decide)
    · rintro rfl
      exact absurd (hb (by decide)) (by decide)
  obtain ⟨-, f, hf⟩ := readsTable_iff.1 h
  obtain ⟨hfrom, c', hplaces⟩ :=
    Pattern.places_of_findTop? (Pattern.consumes_wholeWord (by decide)) hf
  have hword : IsWord f.text :=
    IsWord.of_map_lowerByte (by decide) (hplaces.wholeWord (by decide) (by decide)).1
  obtain ⟨x, u, hx⟩ := List.exists_cons_of_ne_nil hword.1
  have hmem : x ∈ sql := by
    rw [← hplain, hfrom, hx]
    simp
  have hxword := hword.2 x (by rw [hx]; exact List.mem_cons_self)
  exact Bool.noConfusion
    ((not_isSpace_of_isWord hxword).symm.trans (hspace x hmem (ascii_of_isWord hxword)))

/-- A query that reads from a table is counted from the first FROM of its text on. -/
theorem foundRowsQuery_of_readsTable {sql : Bytes} (h : readsTable (shield sql).1 = true)
    (hspaced : ModifiersSpaced (shield sql).1) :
    ∃ f, findTop? Clause.fromPattern (countedText sql) = some f ∧
      foundRowsQuery sql = (countText (f.before ++ countedSource (f.text ++ f.after))
        (countedSource (f.text ++ f.after)), (shield sql).2) := by
  obtain ⟨hselect, f, hf⟩ := readsTable_iff.1 (readsTable_countedText h hspaced)
  obtain ⟨p, hp, hlist, htail⟩ := hselect.ofText? hf
  obtain ⟨-, c', hplaces⟩ := Pattern.places_of_findTop? (Pattern.consumes_wholeWord (by decide)) hf
  have hne := hplaces.text_ne_nil (Pattern.consumes_wholeWord (by decide))
  refine ⟨f, hf, ?_⟩
  rw [foundRowsQuery_eq, if_neg (by simpa using trimSpace_ne_nil_of_readsTable h), countText?, hp]
  simp [htail, hne, hlist]

/-! ## Blanks in front of a query -/

/-- SELECT is no modifier, and no modifier ends in front of it. -/
theorem matchHere?_modifier_select {bl sel : Bytes} (hbl : AllBlank bl) (hsel : IsSelect sel)
    (prev : Option UInt8) (r : Bytes) :
    calcFoundRowsPattern.matchHere? prev (bl ++ (sel ++ r)) = none := by
  rw [Option.eq_none_iff_forall_ne_some]
  intro m hm
  obtain ⟨c', hleads, -⟩ := Pattern.leads_of_matchHere? hm
  obtain ⟨bl', t, hbl', ht, htakes⟩ := leads_calcFoundRows hleads
  have hrest : bl ++ (sel ++ r) = bl' ++ (t ++ c'.rest) := by
    rw [← List.append_assoc bl' t]
    exact htakes.rest
  have htail := Pattern.unblankHead_of_unblank (ht.unblank (by decide)) (ht.ne_nil (by decide)) c'.rest
  have hsame := congrArg (List.takeWhile fun b => CharSet.blank.contains b.toNat) hrest
  rw [Pattern.takeWhile_blank hbl (hsel.unblankHead r), Pattern.takeWhile_blank hbl' htail] at hsame
  subst hsame
  -- the second letters differ
  obtain ⟨x, u, hx, hxlower⟩ := hsel.spells.second (by decide) (by decide) r
  obtain ⟨y, v, hy, hylower⟩ := ht.second (by decide) (by decide) c'.rest
  rw [List.append_cancel_left hrest] at hx
  obtain ⟨rfl, -⟩ := List.cons.inj (hx.symm.trans hy)
  rw [hxlower] at hylower
  exact absurd hylower (by decide)

theorem findFrom?_modifier_blank {bl sel : Bytes} (hbl : AllBlank bl) (hsel : IsSelect sel)
    (r : Bytes) :
    calcFoundRowsPattern.findFrom? 0 none (bl ++ (sel ++ r))
      = (calcFoundRowsPattern.findFrom? 0 none (sel ++ r)).map
          fun m => { m with before := bl ++ m.before } := by
  cases bl with
  | nil => simp
  | cons x bl =>
    have hx := hbl x List.mem_cons_self
    have hlead : calcFoundRowsPattern.leadRun? = some CharSet.blank := rfl
    have hrun : ∀ b : UInt8, (decide (b < 128) && CharSet.blank.contains b.toNat)
        = CharSet.blank.contains b.toNat := by
      intro b
      rw [Bool.and_eq_right_iff_imp, decide_eq_true_iff]
      exact fun hb => (ascii_of_blank hb).1
    have hstride : calcFoundRowsPattern.stride x (bl ++ (sel ++ r)) = bl.length := by
      simp only [Pattern.stride, hlead, hrun]
      rw [if_pos hx, Pattern.takeWhile_blank (List.forall_mem_cons.1 hbl).2 (hsel.unblankHead r)]
    have hhere := matchHere?_modifier_select hbl hsel none r
    have hedge : (bl.getLast?.or (some x)).any isWord = (none : Option UInt8).any isWord := by
      rw [← Pattern.getLast?_cons_or x bl none, Option.or_none]
      obtain ⟨y, hy⟩ := Option.ne_none_iff_exists'.1
        (mt List.getLast?_eq_none_iff.1 (List.cons_ne_nil x bl))
      rw [hy]
      exact (ascii_of_blank (hbl y (List.mem_of_getLast? hy))).2.2
    rw [List.cons_append] at hhere ⊢
    rw [Pattern.findFrom?, hhere]
    dsimp only
    rw [hstride, Pattern.findFrom?_length, Pattern.findFrom?_congr rfl hedge, Option.map_map]
    rfl

/-- Dropping modifiers keeps the blanks in front of SELECT, and what SELECT starts with. -/
theorem stripCalcFoundRows_blank {bl sel : Bytes} (hbl : AllBlank bl) (hsel : IsSelect sel)
    (r : Bytes) :
    stripCalcFoundRows (bl ++ (sel ++ r)) = bl ++ stripCalcFoundRows (sel ++ r) ∧
      (stripCalcFoundRows (sel ++ r)).head? = sel.head? := by
  have hstrip : ∀ s, stripCalcFoundRows s
      = calcFoundRowsPattern.rewriteFrom (fun _ => []) none s := fun _ => rfl
  have hfind := findFrom?_modifier_blank hbl hsel r
  rw [hstrip, hstrip, Pattern.rewriteFrom_eq, Pattern.rewriteFrom_eq, hfind]
  cases hm : calcFoundRowsPattern.findFrom? 0 none (sel ++ r) with
  | none =>
    refine ⟨rfl, ?_⟩
    obtain ⟨x, sel, rfl⟩ := List.exists_cons_of_ne_nil hsel.ne_nil
    rfl
  | some m =>
    rw [hm] at hfind
    dsimp only [Option.map_some]
    rw [if_pos (consumes_calcFoundRows.after_lt hm),
      if_pos (consumes_calcFoundRows.after_lt hfind)]
    refine ⟨by simp only [List.append_assoc], ?_⟩
    have htext := Pattern.text_of_findFrom? hm
    cases hbefore : m.before with
    | nil =>
      have hhere := Pattern.matchHere?_of_findFrom? hm
      rw [hbefore, List.nil_append] at htext
      rw [hbefore, htext] at hhere
      have hnone := matchHere?_modifier_select Pattern.allBlank_nil
        hsel none r
      cases hhere.symm.trans hnone
    | cons x before =>
      rw [hbefore] at htext
      obtain ⟨y, sel, rfl⟩ := List.exists_cons_of_ne_nil hsel.ne_nil
      exact congrArg some (List.cons.inj htext).1

/-- What is counted of a query starts with its blanks, and does not depend on them otherwise. -/
theorem countedText_blank {sel : Bytes} (hsel : IsSelect sel) (r : Bytes) :
    ∃ s, Pattern.UnblankHead s ∧ ∀ (bl sql : Bytes), AllBlank bl →
      (shield sql).1 = bl ++ (sel ++ r) → countedText sql = bl ++ s := by
  obtain ⟨x, sel', hx⟩ := List.exists_cons_of_ne_nil hsel.ne_nil
  have hxsel : x ∈ sel := by rw [hx]; exact List.mem_cons_self
  have hend : (isBlank x || x == 59) = false := by
    have hascii : x < 128 → isWord x = true :=
      hsel.spells.isWord_of_mem (by decide) hxsel
    rw [Bool.eq_false_iff, ne_eq, Bool.or_eq_true, beq_iff_eq]
    rintro (hblank | rfl)
    · exact forall_isBlank (P := fun x => ¬ (x < 128 → isWord x = true)) (by decide) hblank hascii
    · exact absurd hascii (by decide)
  obtain ⟨-, hhead⟩ := stripCalcFoundRows_blank Pattern.allBlank_nil
    hsel r
  obtain ⟨t, ht⟩ : ∃ t, stripCalcFoundRows (sel ++ r) = x :: t :=
    List.head?_eq_some_iff.1 (hhead.trans (by rw [hx]; rfl))
  refine ⟨x :: dropTailWhile (fun b => isBlank b || b == 59) t, ?_, ?_⟩
  · intro y hy
    obtain rfl : x = y := Option.some.inj hy
    exact hsel.unblank x hxsel
  · intro bl sql hbl hsql
    have hkeep := dropTailWhile_append (p := fun b => isBlank b || b == 59) (a := bl ++ [x])
      (fun y hy => by
        rw [List.getLast?_append] at hy
        obtain rfl : x = y := Option.some.inj hy
        exact hend) t
    rw [List.append_assoc, List.append_assoc] at hkeep
    rw [countedText, hsql, (stripCalcFoundRows_blank hbl hsel r).1, ht]
    exact hkeep

theorem SelectParts.ofText?_blank_append {bl s : Bytes} (hbl : AllBlank bl)
    (hs : Pattern.UnblankHead s) :
    SelectParts.ofText? (bl ++ s)
      = (SelectParts.ofText? s).map fun p => { p with head := bl ++ p.head } := by
  have hfind : selectHeadPattern.find? (bl ++ s)
      = (selectHeadPattern.find? s).map fun m => { m with text := bl ++ m.text } :=
    Pattern.find?_blank_append (Pattern.startsUnblank_keyword (by decide) _) rfl hbl hs
  rw [SelectParts.ofText?, SelectParts.ofText?, hfind]
  cases selectHeadPattern.find? s with
  | none => rfl
  | some m =>
    simp only [Option.map_some]
    cases findTop? Clause.fromPattern m.after <;> rfl

theorem countText_blank_append {bl query : Bytes} (hbl : AllBlank bl)
    (hquery : Pattern.UnblankHead query) (source : Bytes) :
    countText (bl ++ query) source = countText query source := by
  have hphrase : (Pattern.seqs [.phrase ["SELECT", "DISTINCT"], .wordEdge]).StartsUnblank := by
    intro c c' h
    obtain ⟨c₁, hselect, -⟩ := Pattern.leads_seqs_cons.1 h
    exact Pattern.startsUnblank_keyword (s := "SELECT") (by decide) _ c c₁ hselect
  have hdistinct : selectDistinctPattern.find? (bl ++ query)
      = (selectDistinctPattern.find? query).map fun m => { m with text := bl ++ m.text } :=
    Pattern.find?_blank_append hphrase rfl hbl hquery
  have htrim : trimSpace (bl ++ query) = trimSpace query := by
    clear hquery hdistinct
    induction bl with
    | nil => rfl
    | cons b bl ih =>
      obtain ⟨hb, hbl⟩ := List.forall_mem_cons.1 hbl
      rw [List.cons_append, trimSpace_cons_ascii (ascii_of_blank hb).1 (ascii_of_blank hb).2.1, ih hbl]
  rw [countText, countText, Pattern.occursIn, Pattern.occursIn, hdistinct, Option.isSome_map, htrim]

theorem countText?_blank_append {bl s : Bytes} (hbl : AllBlank bl) (hs : Pattern.UnblankHead s) :
    countText? (bl ++ s) = countText? s := by
  rw [countText?, countText?, SelectParts.ofText?_blank_append hbl hs]
  cases hp : SelectParts.ofText? s with
  | none => rfl
  | some p =>
    have hquery : Pattern.UnblankHead (p.head ++ p.list ++ countedSource p.tail) := by
      obtain ⟨m, hm, hcut⟩ := Option.map_eq_some_iff.1 hp
      obtain ⟨hsm, -, -, x, hlast, -⟩ := find?_selectHead hm
      have hhead : p.head = m.text := by
        rw [← hcut]
        cases findTop? Clause.fromPattern m.after <;> rfl
      obtain ⟨y, u, hy⟩ := List.exists_cons_of_ne_nil
        (fun hnil : m.text = [] => by rw [hnil] at hlast; cases hlast)
      rw [hsm, hy] at hs
      rw [hhead, hy]
      exact hs
    simp only [Option.map_some, List.append_assoc]
    rw [List.append_assoc] at hquery
    rw [countText_blank_append hbl hquery]

theorem shield_blank_append {bl : Bytes} (hbl : AllBlank bl) (sql : Bytes) :
    shield (bl ++ sql) = (bl ++ (shield sql).1, (shield sql).2) := by
  induction bl with
  | nil => rfl
  | cons b bl ih =>
    obtain ⟨hb, hbl⟩ := List.forall_mem_cons.1 hbl
    have hplain := unquoted_of_blank hb
    have hkeep : shield (b :: (bl ++ sql)) = (b :: (shield (bl ++ sql)).1, (shield (bl ++ sql)).2) := by
      rw [shield, Shielding.ofText, if_neg hplain.1, if_neg hplain.2]
      rfl
    rw [List.cons_append, hkeep, ih hbl]
    rfl

/-- Blanks in front of a question for the row count change nothing. -/
theorem isFoundRowsLookup_blank_append {bl s : Bytes} (hbl : AllBlank bl)
    (hs : Pattern.UnblankHead s) : isFoundRowsLookup (bl ++ s) = isFoundRowsLookup s := by
  have hphrase : (Pattern.seqs [.phrase ["SELECT", "FOUND_ROWS"], .blanks, .text "(", .blanks,
      .text ")", .blanks, .opt (.text ";"), .blanks, .textEnd]).StartsUnblank := by
    intro c c' h
    obtain ⟨c₁, hselect, -⟩ := Pattern.leads_seqs_cons.1 h
    exact Pattern.startsUnblank_keyword (s := "SELECT") (by decide) _ c c₁ hselect
  have hfind : foundRowsPattern.find? (bl ++ s)
      = (foundRowsPattern.find? s).map fun m => { m with text := bl ++ m.text } :=
    Pattern.find?_blank_append hphrase rfl hbl hs
  rw [isFoundRowsLookup, isFoundRowsLookup, Pattern.occursIn, Pattern.occursIn, hfind,
    Option.isSome_map]

/-- Blanks in front of a query do not change how it is counted. -/
theorem foundRowsQuery_blank_append {bl sql : Bytes} (hbl : AllBlank bl)
    (hsql : readsTable (shield sql).1 = true) :
    readsTable (shield (bl ++ sql)).1 = true ∧
      isFoundRowsLookup (shield (bl ++ sql)).1 = isFoundRowsLookup (shield sql).1 ∧
      foundRowsQuery (bl ++ sql) = foundRowsQuery sql := by
  obtain ⟨⟨bl₀, sel, b, rest, hbl₀, hsel, hb, hselect⟩, f, hf⟩ := readsTable_iff.1 hsql
  have hall : AllBlank (bl ++ bl₀) := fun x hx => (List.mem_append.1 hx).elim (hbl x) (hbl₀ x)
  have hshield := shield_blank_append hbl sql
  have hselect' : (shield (bl ++ sql)).1 = bl ++ bl₀ ++ (sel ++ b :: rest) := by
    rw [hshield, hselect, List.append_assoc]
  have hsolid := hsel.unblankHead (b :: rest)
  have hreads : readsTable (shield (bl ++ sql)).1 = true := by
    rw [readsTable, hselect', SelectParts.ofText?_blank_append hall hsolid]
    rw [readsTable, hselect, SelectParts.ofText?_blank_append hbl₀ hsolid] at hsql
    rw [Option.any_map] at hsql ⊢
    exact hsql
  obtain ⟨s, hs, hcount⟩ := countedText_blank hsel (b :: rest)
  refine ⟨hreads, ?_, ?_⟩
  · rw [hselect', hselect, isFoundRowsLookup_blank_append hall hsolid,
      isFoundRowsLookup_blank_append hbl₀ hsolid]
  rw [foundRowsQuery_eq, foundRowsQuery_eq,
    if_neg (by simpa using trimSpace_ne_nil_of_readsTable hreads),
    if_neg (by simpa using trimSpace_ne_nil_of_readsTable hsql), hcount _ _ hall hselect',
    hcount _ _ hbl₀ hselect, countText?_blank_append hall hs, countText?_blank_append hbl₀ hs,
    hshield]

end SqlDialect
