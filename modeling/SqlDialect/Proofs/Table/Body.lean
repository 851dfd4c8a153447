import SqlDialect.Proofs.Identifier.Names
import SqlDialect.Proofs.Pattern.Complete
import SqlDialect.Proofs.Statement.Nesting
import SqlDialect.Proofs.Table.Items

set_option autoImplicit false

/-! # The body of a table definition

A table definition is a head, a list of items between parentheses and a tail. Its items are found as
they are written if they are closed, that is, if the names in them and, once these are rendered, the
parentheses have their ends (`TableParts.tableItems`). Nothing else is asked of them: an item may
hold commas and be several items to the reader, or be none that is known. -/

namespace SqlDialect

open Bytes

/-! ## The head -/

/-- A head that is accepted: with an opening parenthesis behind it, and with none inside. -/
structure IsTableHead (head : Bytes) : Prop where
  names : NamesClosed head
  open_notMem : openParen ∉ replaceBackticks head
  accepted : createTablePattern.occursIn (replaceBackticks head ++ [openParen]) = true

/-- What a head consists of, in front of the parenthesis. -/
def headPatterns : List Pattern :=
  [.group 1 .blanks, .keyword "CREATE", .blanks1,
    .opt (.group 2 (.seq (.keyword "TEMPORARY") .blanks1)), .keyword "TABLE", .blanks1,
    .opt (.seqs [.phrase ["IF", "NOT", "EXISTS"], .blanks1]), .group 3 nameUpToParen, .blanks]

theorem createTablePattern_eq :
    createTablePattern = .seqs (.textStart :: (headPatterns ++ [.text "("])) :=
  rfl

open Pattern in
/-- The match of a head ends with the first parenthesis of the text. -/
theorem after_of_find?_head {h r : Bytes} (hopen : openParen ∉ h) {m : Match}
    (hm : createTablePattern.find? (h ++ openParen :: r) = some m) :
    m.after = r ∧ ∃ c', Leads (.seqs headPatterns) { prev := none, rest := h ++ openParen :: r } c' ∧
      c'.rest = openParen :: r := by
  rw [createTablePattern_eq] at hm
  obtain ⟨c₂, hleads, hafter⟩ := leads_of_textStart hm
  obtain ⟨c₁, hhead, hend⟩ := (leads_seqs_append headPatterns [text "("]).1 hleads
  obtain ⟨c₃, hparen, hnil⟩ := leads_seqs_cons.1 hend
  obtain rfl := leads_nothing.1 hnil
  have hrest : c₁.rest = openParen :: c₂.rest := (leads_text (by decide) hparen).rest
  obtain ⟨u, hu⟩ := hhead.takes
  -- no part of the head takes a parenthesis, so either side is cut at its first one
  have havoids : (seqs headPatterns).avoids [openParen] = true := by decide
  have hfree : openParen ∉ u := notMem_of_leads havoids hhead hu List.mem_cons_self (by decide)
  have hall : h ++ openParen :: r = u ++ openParen :: c₂.rest := by
    rw [← hrest]
    exact hu.rest
  have hcut := congrArg (cut? [openParen]) hall
  rw [cut?_of_notMem hopen, cut?_of_notMem hfree] at hcut
  obtain ⟨-, rfl⟩ := Prod.mk.inj (Option.some.inj hcut)
  exact ⟨hafter, c₁, hhead, hrest⟩

open Pattern in
/-- An accepted head is found in front of anything. -/
theorem find?_head {h : Bytes} (hopen : openParen ∉ h)
    (haccepted : createTablePattern.occursIn (h ++ [openParen]) = true) (r : Bytes) :
    ∃ m, createTablePattern.find? (h ++ openParen :: r) = some m ∧ m.after = r := by
  obtain ⟨m₀, hm₀⟩ := Option.isSome_iff_exists.1 haccepted
  obtain ⟨-, c₁, hhead, hrest₁⟩ := after_of_find?_head hopen hm₀
  -- what matched in front of the parenthesis alone matches in front of more
  obtain ⟨d₁, hhead', hlonger⟩ := hhead.longer (u := []) (r := r) (x := openParen) (by decide) hrest₁
    (d := { prev := none, rest := h ++ openParen :: r })
    ⟨by rw [List.append_assoc]; rfl, rfl⟩
  have hopens : d₁.rest = openParen :: r := by
    rw [hlonger.rest, hrest₁]
    rfl
  have hnext : d₁.next? = some (40, d₁.past [openParen] r) := by
    simp [Cursor.next?, hopens, Utf8.lead_ascii (show openParen < 128 by decide), Cursor.past]
    rfl
  have hparen : Leads (.seqs [.text "("]) d₁ (d₁.past [openParen] r) :=
    .seq (.seq (.one hnext (by decide)) (.nothing _)) (.nothing _)
  have hleads : Leads createTablePattern { prev := none, rest := h ++ openParen :: r }
      (d₁.past [openParen] r) := by
    rw [createTablePattern_eq]
    exact .seq (.textStart rfl) ((leads_seqs_append headPatterns [.text "("]).2 ⟨d₁, hhead', hparen⟩)
  obtain ⟨m, hm⟩ := Option.isSome_iff_exists.1 (isSome_matchHere?_iff.2 ⟨_, hleads⟩)
  have hfind : createTablePattern.find? (h ++ openParen :: r) = some m := findFrom?_of_matchHere? hm
  exact ⟨m, hfind, (after_of_find?_head hopen hfind).1⟩

/-! ## The items -/

/-- The names in the item are closed and, once they are rendered, its parentheses. -/
structure ClosedItem (item : Bytes) : Prop where
  names : NamesClosed item
  balanced : Balanced (replaceBackticks item)

theorem replaceBackticks_join {parts : List Bytes} (h : ∀ part ∈ parts, NamesClosed part) :
    NamesClosed (join [comma] parts) ∧
      replaceBackticks (join [comma] parts) = join [comma] (parts.map replaceBackticks) := by
  have hcomma : NamesClosed [comma] := by decide
  induction parts with
  | nil => exact ⟨rfl, replaceBackticks_nil⟩
  | cons part parts ih =>
    obtain ⟨hpart, hparts⟩ := List.forall_mem_cons.1 h
    obtain ⟨hclosed, hrest⟩ := ih hparts
    cases parts with
    | nil => simpa [join] using hpart
    | cons next parts =>
      rw [List.map_cons] at hrest
      rw [join_cons_cons, List.map_cons, List.map_cons, join_cons_cons]
      refine ⟨hpart.append (hcomma.append hclosed), ?_⟩
      rw [replaceBackticks_append_of_closed hpart,
        replaceBackticks_append (a := [comma]) (by decide), hrest]

theorem bodyItems_join {parts : List Bytes} (hne : parts ≠ [])
    (h : ∀ part ∈ parts, Balanced part) :
    bodyItems (join [comma] parts) = parts.flatMap bodyItems := by
  rw [bodyItems, items, splitTop_join_balanced hne h]
  simp only [List.map_flatMap, List.filter_flatMap]
  rfl

/-- The statement defines a table with a head, items and a tail; its literals are set apart. -/
structure TableParts (sql head : Bytes) (items : List Bytes) (tail : Bytes) : Prop where
  kind : Kind.ofStatement sql = .createTable
  text : (shield sql).1 = head ++ openParen :: (join [comma] items ++ closeParen :: tail)
  head : IsTableHead head
  items_ne : items ≠ []
  closed : ∀ item ∈ items, ClosedItem item

namespace TableParts

variable {sql head tail : Bytes} {items : List Bytes} (h : TableParts sql head items tail)
include h

/-- The body of the definition is the list of the items. -/
theorem exists_body : ∃ m, createTablePattern.find? (replaceBackticks (shield sql).1) = some m ∧
    splitParen? m.after = some (join [comma] (items.map replaceBackticks), replaceBackticks tail) := by
  obtain ⟨hclosed, hitems⟩ := replaceBackticks_join fun item hitem => (h.closed item hitem).names
  have hrendered : replaceBackticks (shield sql).1 = replaceBackticks head ++
      openParen :: (join [comma] (items.map replaceBackticks) ++
        closeParen :: replaceBackticks tail) := by
    have hopen (s : Bytes) : replaceBackticks (openParen :: s) = openParen :: replaceBackticks s :=
      replaceBackticks_append (a := [openParen]) (by decide) s
    have hclose (s : Bytes) : replaceBackticks (closeParen :: s) = closeParen :: replaceBackticks s :=
      replaceBackticks_append (a := [closeParen]) (by decide) s
    rw [h.text, replaceBackticks_append_of_closed h.head.names, hopen,
      replaceBackticks_append_of_closed hclosed, hitems, hclose]
  obtain ⟨m, hm, hafter⟩ := find?_head h.head.open_notMem h.head.accepted
    (join [comma] (items.map replaceBackticks) ++ closeParen :: replaceBackticks tail)
  have hbalanced : Balanced (join [comma] (items.map replaceBackticks)) := by
    refine balanced_join (by decide) fun part hpart => ?_
    obtain ⟨item, hitem, rfl⟩ := List.mem_map.1 hpart
    exact (h.closed item hitem).balanced
  refine ⟨m, by rw [hrendered, hm], ?_⟩
  rw [hafter, hbalanced.splitParen?]

theorem tableItems : SqlDialect.tableItems (replaceBackticks (shield sql).1)
    = items.flatMap fun item => bodyItems (replaceBackticks item) := by
  obtain ⟨m, hm, hparts⟩ := h.exists_body
  rw [tableItems_of_splitParen? hm hparts, bodyItems_join, List.flatMap_map]
  · exact mt List.map_eq_nil_iff.1 h.items_ne
  · intro part hpart
    obtain ⟨item, hitem, rfl⟩ := List.mem_map.1 hpart
    exact (h.closed item hitem).balanced

/-- The definition is converted. -/
theorem exists_createTable? (opts : TypeOptions) :
    ∃ t, createTable? (replaceBackticks (shield sql).1) (shield sql).2 opts = some t := by
  obtain ⟨m, hm, hparts⟩ := h.exists_body
  rw [createTable?, Option.bind_eq_bind, hm, Option.bind_some, Option.bind_eq_bind, hparts]
  exact ⟨_, rfl⟩

end TableParts

end SqlDialect
