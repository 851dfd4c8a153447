import SqlDialect.Proofs.Pattern.Ends
import SqlDialect.Proofs.Text.Bytes
import SqlDialect.Query.Call
import SqlDialect.Statement.Insert

set_option autoImplicit false

/-! # Where statements are cut

The rules cut a statement at parentheses, at clauses and at commas. What is cut out is a stretch of
the statement, and what stands in front of it is known: a parenthesis, the edge of a word, or a
comma and blanks. -/

namespace SqlDialect

open Bytes

/-! ## Clauses that are found -/

namespace Pattern

/-- The first match outside parentheses is a match, and its parts make up the text. -/
theorem places_of_firstTop {p : Pattern} (hp : p.Consumes) {left s : Bytes} {depth : Nat} {m : Match}
    (h : firstTop left depth (p.allFrom left.getLast? s) = some m) :
    left ++ s = m.before ++ m.text ++ m.after ∧ ∃ c', p.Places none m c' := by
  induction hlen : s.length using Nat.strongRecOn generalizing left depth s with
  | _ k ih =>
    rw [allFrom] at h
    cases hfind : p.findFrom? 0 left.getLast? s with
    | none =>
      rw [hfind] at h
      cases h
    | some m₀ =>
      simp only [hfind] at h
      have htext := text_of_findFrom? hfind
      obtain ⟨c', hplaces, -⟩ := places_of_findFrom? hfind
      split at h
      · rename_i hlt
        rw [firstTop] at h
        split at h
        · obtain rfl := Option.some.inj h
          refine ⟨by simp only [← htext, List.append_assoc], c', ?_, ?_, hplaces.after⟩
          · have hleads := hplaces.leads
            rwa [← List.getLast?_append, ← Option.or_none (o := List.getLast? _)] at hleads
          · have htakes := hplaces.takes
            rwa [← List.getLast?_append, ← Option.or_none (o := List.getLast? _)] at htakes
        · -- the search goes on behind the match
          have hlast : m₀.text.getLast? = (left ++ m₀.before ++ m₀.text).getLast? := by
            rw [List.getLast?_append]
            cases hnil : m₀.text.getLast? with
            | none => exact absurd (List.getLast?_eq_none_iff.1 hnil) (hplaces.text_ne_nil hp)
            | some x => rfl
          rw [hlast] at h
          obtain ⟨hm, hc⟩ := ih _ (hlen ▸ hlt) h rfl
          refine ⟨?_, hc⟩
          rw [← hm, ← htext]
          simp only [List.append_assoc]
      · cases h

theorem places_of_findTop? {p : Pattern} (hp : p.Consumes) {s : Bytes} {m : Match}
    (h : findTop? p s = some m) :
    s = m.before ++ m.text ++ m.after ∧ ∃ c', p.Places none m c' :=
  places_of_firstTop hp h

end Pattern

/-! ## Parentheses -/

theorem getElem?_of_scanParen {depth : Int} {pos i : Nat} {s : Bytes}
    (h : scanParen depth pos s = some i) : ∃ j, i = pos + j ∧ s[j]? = some closeParen := by
  induction s generalizing depth pos with
  | nil => cases h
  | cons b s ih =>
    have hnext : ∀ {depth : Int}, scanParen depth (pos + 1) s = some i →
        ∃ j, i = pos + j ∧ (b :: s)[j]? = some closeParen := by
      intro depth h
      obtain ⟨j, rfl, hj⟩ := ih h
      exact ⟨j + 1, by omega, by rwa [List.getElem?_cons_succ]⟩
    rw [scanParen] at h
    split at h
    · exact hnext h
    · split at h
      · rename_i hclose
        split at h
        · exact ⟨0, by simpa using h.symm, by rw [hclose]; rfl⟩
        · exact hnext h
      · exact hnext h

theorem eq_append_of_splitParen? {s arg rest : Bytes} (h : splitParen? s = some (arg, rest)) :
    s = arg ++ closeParen :: rest := by
  obtain ⟨i, hi, heq⟩ := Option.map_eq_some_iff.1 h
  obtain ⟨rfl, rfl⟩ := Prod.mk.inj heq
  obtain ⟨j, rfl, hj⟩ := getElem?_of_scanParen hi
  obtain ⟨hlt, hget⟩ := List.getElem?_eq_some_iff.1 hj
  rw [Nat.zero_add, ← hget, ← List.drop_eq_getElem_cons hlt, List.take_append_drop]

/-! ## Clauses -/

theorem topIndex_cases (ps : List Pattern) (s : Bytes) :
    topIndex ps s = s.length ∨
      ∃ p ∈ ps, ∃ m, findTop? p s = some m ∧ m.before.length = topIndex ps s := by
  rw [topIndex]
  generalize s.length = n
  induction ps generalizing n with
  | nil => exact Or.inl rfl
  | cons p ps ih =>
    rw [List.foldl_cons]
    rcases ih (((findTop? p s).map fun m => min n m.before.length).getD n) with h | ⟨p', hp', m, hm⟩
    · rw [h]
      cases hfind : findTop? p s with
      | none => exact Or.inl rfl
      | some m =>
        rw [Option.map_some, Option.getD_some]
        rcases Nat.le_total n m.before.length with hle | hle
        · exact Or.inl (Nat.min_eq_left hle)
        · exact Or.inr ⟨p, List.mem_cons_self, m, hfind, (Nat.min_eq_right hle).symm⟩
    · exact Or.inr ⟨p', List.mem_cons_of_mem p hp', m, hm⟩

/-- A statement is cut in front of a clause, or at its end. -/
theorem splitAtClause_cases {ps : List Pattern} (hps : ∀ p ∈ ps, p.Consumes) (s : Bytes) :
    splitAtClause ps s = (s, []) ∨
      ∃ p ∈ ps, ∃ m c', p.Places none m c' ∧ s = m.before ++ m.text ++ m.after ∧
        splitAtClause ps s = (m.before, m.text ++ m.after) := by
  rw [splitAtClause, List.splitAt_eq]
  rcases topIndex_cases ps s with h | ⟨p, hp, m, hm, hlen⟩
  · rw [h, List.take_length, List.drop_length]
    exact Or.inl rfl
  · obtain ⟨hs, c', hplaces⟩ := Pattern.places_of_findTop? (hps p hp) hm
    refine Or.inr ⟨p, hp, m, c', hplaces, hs, ?_⟩
    rw [← hlen, hs, List.append_assoc, List.take_left' rfl, List.drop_left' rfl]

theorem splitAtClause_append (ps : List Pattern) (s : Bytes) :
    (splitAtClause ps s).1 ++ (splitAtClause ps s).2 = s := by
  rw [splitAtClause, List.splitAt_eq]
  exact List.take_append_drop _ _

/-- The clauses in which calls of `DATE` are written as casts. -/
def dateClauses : List Pattern :=
  [Clause.wherePattern, Clause.groupByPattern, Clause.havingPattern, Clause.orderByPattern]

theorem castDateCalls_eq (s : Bytes) :
    castDateCalls s = (splitAtClause dateClauses s).1 ++
      mapCalls (callHead "DATE") castToDate (splitAtClause dateClauses s).2 :=
  rfl

/-- The clauses start at the edges of words. -/
theorem dateClauses_start : ∀ p ∈ dateClauses, p.Consumes ∧ p.StartsOutside := by
  simp only [dateClauses, List.forall_mem_cons]
  exact ⟨⟨Pattern.consumes_wholeWord (by decide), Pattern.startsOutside_keyword (by decide) (by decide) _⟩,
    ⟨Pattern.consumes_wholePhrase (by decide) _,
      Pattern.startsOutside_phrase (by decide) (by decide) _ _⟩,
    ⟨Pattern.consumes_wholeWord (by decide), Pattern.startsOutside_keyword (by decide) (by decide) _⟩,
    ⟨Pattern.consumes_wholePhrase (by decide) _,
      Pattern.startsOutside_phrase (by decide) (by decide) _ _⟩,
    fun p hp => absurd hp List.not_mem_nil⟩

/-! ## Lists -/

/-- The first part starts the list, and each other part follows a comma. -/
theorem splitTopFrom_parts (depth : Nat) (s : Bytes) :
    ∃ first rest, splitTopFrom depth s = first :: rest ∧ (∃ b, s = first ++ b) ∧
      ∀ part ∈ rest, ∃ a b, s = a ++ part ++ b ∧ a.getLast? = some comma := by
  induction s generalizing depth with
  | nil => exact ⟨[], [], rfl, ⟨[], rfl⟩, fun _ h => absurd h List.not_mem_nil⟩
  | cons b s ih =>
    rw [splitTopFrom]
    split
    · rename_i hcomma
      obtain ⟨first, rest, hparts, ⟨b', hfirst⟩, hrest⟩ := ih depth
      refine ⟨[], first :: rest, by rw [hparts], ⟨b :: s, rfl⟩, ?_⟩
      rw [hcomma.1]
      intro part hpart
      rcases List.mem_cons.1 hpart with rfl | hpart
      · exact ⟨[comma], b', by rw [hfirst]; rfl, rfl⟩
      · obtain ⟨a, b'', hs, hlast⟩ := hrest part hpart
        refine ⟨comma :: a, b'', by rw [hs]; rfl, ?_⟩
        rw [List.getLast?_cons, hlast]
        rfl
    · obtain ⟨first, rest, hparts, ⟨b', hfirst⟩, hrest⟩ := ih (stepDepth depth b)
      refine ⟨b :: first, rest, by rw [hparts]; rfl, ⟨b', by rw [hfirst]; rfl⟩, ?_⟩
      intro part hpart
      obtain ⟨a, b'', hs, hlast⟩ := hrest part hpart
      refine ⟨b :: a, b'', by rw [hs]; rfl, ?_⟩
      rw [List.getLast?_cons, hlast]
      rfl

theorem splitTopFrom_ne_nil (depth : Nat) (s : Bytes) : splitTopFrom depth s ≠ [] := by
  obtain ⟨first, rest, hparts, -⟩ := splitTopFrom_parts depth s
  rw [hparts]
  exact List.cons_ne_nil _ _

theorem consPart_append {ps : List Bytes} (hps : ps ≠ []) (b : UInt8) (qs : List Bytes) :
    consPart b (ps ++ qs) = consPart b ps ++ qs := by
  obtain ⟨p, ps, rfl⟩ := List.exists_cons_of_ne_nil hps
  rfl

/-- A list is cut at a comma outside its parentheses. -/
theorem splitTopFrom_append_comma {depth : Nat} {a : Bytes} (h : depthAfter depth a = 0)
    (s : Bytes) : splitTopFrom depth (a ++ comma :: s) = splitTopFrom depth a ++ splitTopFrom 0 s := by
  induction a generalizing depth with
  | nil =>
    obtain rfl : depth = 0 := h
    simp [splitTopFrom]
  | cons b a ih =>
    rw [List.cons_append, splitTopFrom, splitTopFrom]
    split
    · rename_i hcomma
      obtain ⟨rfl, rfl⟩ := hcomma
      rw [@ih 0 h, List.cons_append]
    · rw [ih h, consPart_append (splitTopFrom_ne_nil _ _)]

/-- The parts of a list are the parts of the texts that make it up, if these are closed but for the last
one. -/
theorem splitTop_join {parts : List Bytes} (hne : parts ≠ [])
    (hclosed : ∀ part ∈ parts.dropLast, depthAfter 0 part = 0) :
    splitTop (join [comma] parts) = parts.flatMap splitTop := by
  induction parts with
  | nil => exact absurd rfl hne
  | cons part parts ih =>
    cases parts with
    | nil => simp [join]
    | cons next parts =>
      obtain ⟨hdepth, hclosed⟩ := List.forall_mem_cons.1 hclosed
      rw [join_cons_cons, List.singleton_append, splitTop, splitTopFrom_append_comma hdepth,
        List.flatMap_cons, ← ih (List.cons_ne_nil _ _) hclosed]
      rfl

theorem flatMap_splitTop {parts : List Bytes} (h : ∀ part ∈ parts, splitTop part = [part]) :
    parts.flatMap splitTop = parts := by
  rw [List.flatMap_def, List.map_congr_left h, ← List.flatMap_def, List.flatMap_singleton']

/-- An item of a list stands behind a comma or blanks, or starts the list. -/
theorem items_core {list : Bytes} {p : Spaced} (hp : p ∈ items list) :
    ∃ a b, list = a ++ p.core ++ b ∧ ∀ x, a.getLast? = some x → isWord x = false := by
  obtain ⟨part, hpart, rfl⟩ := List.mem_map.1 hp
  obtain ⟨a, b, hlist, ha⟩ : ∃ a b, list = a ++ part ++ b ∧
      ∀ x, a.getLast? = some x → isWord x = false := by
    obtain ⟨first, rest, hparts, ⟨b, hfirst⟩, hrest⟩ := splitTopFrom_parts 0 list
    rw [splitTop, hparts] at hpart
    rcases List.mem_cons.1 hpart with rfl | hpart
    · exact ⟨[], b, hfirst, fun x hx => by cases hx⟩
    · obtain ⟨a, b, hlist, hlast⟩ := hrest part hpart
      refine ⟨a, b, hlist, fun x hx => ?_⟩
      obtain rfl := Option.some.inj (hlast.symm.trans hx)
      rfl
  obtain ⟨trail, htrail⟩ := dropTailWhile_prefix isBlank (trimLeft part)
  refine ⟨a ++ part.takeWhile isBlank, trail ++ b, ?_, ?_⟩
  · have hpart : part = part.takeWhile isBlank ++ ((Spaced.ofText part).core ++ trail) := by
      rw [show (Spaced.ofText part).core ++ trail = trimLeft part from htrail, trimLeft,
        List.takeWhile_append_dropWhile]
    have hsame := congrArg (fun t => a ++ t ++ b) hpart
    simp only [List.append_assoc] at hsame hlist ⊢
    exact hlist.trans hsame
  · intro x hx
    rw [List.getLast?_append] at hx
    cases hblank : (part.takeWhile isBlank).getLast? with
    | none =>
      rw [hblank] at hx
      exact ha x hx
    | some y =>
      rw [hblank] at hx
      obtain rfl := Option.some.inj hx
      exact isWord_of_isBlank
        (List.all_eq_true.1 List.all_takeWhile y (List.mem_of_getLast? hblank))

/-! ## The columns of an insert -/

/-- A column of an insert stands in the list between the parentheses behind the table. -/
theorem Insert.of_mem_columns {s : Bytes} {ins : Insert} (h : Insert.ofText? s = some ins)
    {col : Bytes} (hcol : col ∈ ins.columns) :
    ∃ a inner list rest part, s = a ++ openParen :: inner ∧ splitParen? inner = some (list, rest) ∧
      part ∈ splitTop list ∧ col = normalizeName (trimSpace part) := by
  obtain ⟨m, hfind, hm⟩ := Option.bind_eq_some_iff.1 h
  obtain ⟨columns, hcolumns, hins⟩ := Option.bind_eq_some_iff.1 hm
  obtain rfl := Option.some.inj hins
  dsimp only at hcol
  have htext := Pattern.text_of_find? hfind
  cases hrest : m.after with
  | nil =>
    rw [hrest] at hcolumns
    cases hcolumns
    exact absurd hcol List.not_mem_nil
  | cons b inner =>
    rw [hrest, Insert.columnsOf?] at hcolumns
    split at hcolumns
    · rename_i hopen
      obtain ⟨⟨list, rest⟩, hparen, hlist⟩ := Option.map_eq_some_iff.1 hcolumns
      dsimp only at hlist
      split at hlist
      · subst hlist
        exact absurd hcol List.not_mem_nil
      · subst hlist
        obtain ⟨part, hpart, rfl⟩ := List.mem_map.1 hcol
        exact ⟨m.before ++ m.text, inner, list, rest, part, by rw [← htext, hrest, hopen], hparen,
          hpart, rfl⟩
    · cases hcolumns
      exact absurd hcol List.not_mem_nil

end SqlDialect
