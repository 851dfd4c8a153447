import SqlDialect.Proofs.Pattern.Preference
import SqlDialect.Proofs.Query.Count
import SqlDialect.Proofs.Statement.TopLevel
import SqlDialect.Query.Count

set_option autoImplicit false

/-! # Items of a select list

An item between its blanks is found as it is written (`Spaced.ofText_text`). A count that gets a name
is a call of COUNT with something other than a star, and nothing else (`isUnnamedCount_iff`); such an
item ends with a parenthesis, which no plain column does. -/

namespace SqlDialect

open Bytes

/-! ## Between blanks -/

/-- What stands between the blanks neither starts nor ends with one. -/
structure IsSpaced (p : Spaced) : Prop where
  lead : ∀ b ∈ p.lead, isBlank b = true
  trail : ∀ b ∈ p.trail, isBlank b = true
  head : ∀ x ∈ p.core.head?, isBlank x = false
  last : ∀ x ∈ p.core.getLast?, isBlank x = false
  empty : p.core = [] → p.trail = []

namespace Spaced

theorem isSpaced_ofText (s : Bytes) : IsSpaced (ofText s) where
  lead _ hb := List.all_eq_true.1 List.all_takeWhile _ hb
  trail _ hb := of_mem_drop_dropTailWhile hb
  head := by
    intro x hx
    obtain ⟨t, ht⟩ := dropTailWhile_prefix isBlank (trimLeft s)
    refine head?_dropWhile (q := isBlank) s x ?_
    obtain ⟨u, hu⟩ := List.head?_eq_some_iff.1 hx
    rw [← trimLeft, ← ht, show dropTailWhile isBlank (trimLeft s) = x :: u from hu]
    rfl
  last := getLast?_dropTailWhile (trimLeft s)
  empty := by
    intro hnil
    have hblank : ∀ b ∈ trimLeft s, isBlank b = true := by
      intro b hb
      have hcore : dropTailWhile isBlank (trimLeft s) = [] := hnil
      refine of_mem_drop_dropTailWhile (s := trimLeft s) ?_
      rwa [hcore]
    cases hs : trimLeft s with
    | nil => simp [ofText, hs]
    | cons x t =>
      have hx := head?_dropWhile (q := isBlank) s x (by rw [← trimLeft, hs]; rfl)
      rw [hblank x (by rw [hs]; exact List.mem_cons_self)] at hx
      cases hx

/-- The blanks and what stands between them are found as they are written. -/
theorem ofText_text {p : Spaced} (h : IsSpaced p) : ofText p.text = p := by
  obtain ⟨lead, core, trail⟩ := p
  have hsolid : ∀ x ∈ (core ++ trail).head?, isBlank x = false := by
    cases core with
    | nil =>
      rw [show trail = [] from h.empty rfl]
      exact fun x hx => by cases hx
    | cons y core => exact h.head
  have hlead : (lead ++ (core ++ trail)).takeWhile isBlank = lead := by
    rw [List.takeWhile_append_of_pos h.lead]
    cases hrest : core ++ trail with
    | nil => simp
    | cons y t => rw [List.takeWhile_cons, hsolid y (by rw [hrest]; rfl)]; simp
  have hleft : trimLeft (lead ++ (core ++ trail)) = core ++ trail := by
    rw [trimLeft, List.dropWhile_append_of_pos h.lead]
    cases hrest : core ++ trail with
    | nil => rfl
    | cons y t => rw [List.dropWhile_cons, hsolid y (by rw [hrest]; rfl)]; simp
  have hright : trimRight (core ++ trail) = core := by
    rw [trimRight, dropTailWhile_append h.last, dropTailWhile_of_forall h.trail, List.append_nil]
  rw [text, List.append_assoc, ofText, hleft, hright, hlead, List.drop_left]

end Spaced

/-! ## Counts -/

/-- The item is a call of COUNT, in any letter case, with something other than a star, and nothing
else. -/
def IsWholeCount (item : Bytes) : Prop :=
  ∃ name gap arg, item = name ++ gap ++ openParen :: (arg ++ [closeParen]) ∧
    name.map lowerByte = (ascii "COUNT").map lowerByte ∧ AllBlank gap ∧ Balanced arg ∧
    trimSpace arg ≠ ascii "*"

section

open Pattern

theorem leads_countHead {c c' : Cursor}
    (h : Leads (.seqs [.keyword "COUNT", .blanks, .text "("]) c c') :
    ∃ name gap, c.rest = name ++ gap ++ openParen :: c'.rest ∧
      name.map lowerByte = (ascii "COUNT").map lowerByte ∧ AllBlank gap := by
  obtain ⟨c₁, hkey, h₁⟩ := leads_seqs_cons.1 h
  obtain ⟨c₂, hblanks, h₂⟩ := leads_seqs_cons.1 h₁
  obtain ⟨c₃, hparen, hnil⟩ := leads_seqs_cons.1 h₂
  obtain rfl := leads_nothing.1 hnil
  obtain ⟨name, hname, hlower⟩ := leads_keyword_ascii (by decide) hkey
  obtain ⟨gap, hgap, htakes⟩ := leads_blanks hblanks
  refine ⟨name, gap, ?_, hlower, hgap⟩
  rw [hname.rest, htakes.rest, (leads_text (by decide) hparen).rest, List.append_assoc]
  rfl

theorem find?_countHead {name gap : Bytes}
    (hname : name.map lowerByte = (ascii "COUNT").map lowerByte) (hgap : AllBlank gap) (r : Bytes) :
    ∃ m, countHead.find? (name ++ gap ++ openParen :: r) = some m ∧ m.after = r := by
  let c : Cursor := { prev := none, rest := name ++ gap ++ openParen :: r }
  have hrun : (seqs [keyword "COUNT", blanks, text "("]).run c some
      = some (((c.past name (gap ++ openParen :: r)).past gap (openParen :: r)).past [openParen] r) := by
    rw [run_seqs_cons, run_keyword (by decide) (s := gap ++ openParen :: r)
      (List.append_assoc name gap _) hname, run_seqs_cons]
    refine run_blanks rfl hgap ?_ ?_
    · intro x hx
      obtain rfl : openParen = x := Option.some.inj hx
      decide
    · rw [run_seqs_cons, run_text (s := "(") (r := r) (by decide) rfl]
      rfl
  have hfind : countHead.find? c.rest = countHead.matchHere? none c.rest := find?_textStart _ _
  have hmatch : countHead.matchHere? none c.rest = some _ :=
    Option.map_eq_some_iff.2 ⟨_, hrun, rfl⟩
  exact ⟨_, hfind.trans hmatch, rfl⟩

end

theorem isCountCall_iff {item : Bytes} : isCountCall item = true ↔ IsWholeCount item := by
  rw [isCountCall]
  constructor
  · intro h
    cases hfind : countHead.find? item with
    | none =>
      rw [hfind] at h
      cases h
    | some m =>
      rw [hfind] at h
      dsimp only at h
      obtain ⟨c', hleads, hafter⟩ := Pattern.leads_of_textStart hfind
      obtain ⟨name, gap, hitem, hname, hgap⟩ := leads_countHead hleads
      rw [← hafter] at hitem
      split at h
      · rename_i arg hsplit
        rw [eq_append_of_splitParen? hsplit] at hitem
        exact ⟨name, gap, arg, hitem, hname, hgap, balanced_of_splitParen? hsplit, by simpa using h⟩
      · cases h
  · rintro ⟨name, gap, arg, rfl, hname, hgap, harg, hstar⟩
    obtain ⟨m, hm, hafter⟩ := find?_countHead hname hgap (arg ++ [closeParen])
    rw [hm]
    dsimp only
    rw [hafter, harg.splitParen? []]
    simpa using hstar

/-! ## Plain columns -/

/-- A byte of a bare name. -/
def isBareByte (b : UInt8) : Bool :=
  isWord b || b == 36

/-- A byte that ends a name, bare or between double quotes. -/
def EndsName (b : UInt8) : Prop :=
  isBareByte b = true ∨ b = doubleQuote

section

open Pattern

variable {c c' : Cursor}

theorem leads_name (h : Leads namePattern c c') :
    ∃ t, c.Takes t c' ∧ (∃ x, t.getLast? = some x ∧ EndsName x) ∧
      (t.head? = some doubleQuote ∨ ∀ b ∈ t, isBareByte b = true) := by
  have hbytes : ∀ b : UInt8, (CharSet.nameStart.contains b.toNat = true → isBareByte b = true) ∧
      ((CharSet.word.union (CharSet.ofString "$")).contains b.toNat = true → isBareByte b = true) :=
    forall_byte (by decide +kernel)
  rcases leads_alt.1 h with hbare | hquoted
  · obtain ⟨c₁, hone, hmany⟩ := leads_seq.1 hbare
    obtain ⟨b, -, hb, htakes, -⟩ := leads_one_ascii (by decide) hone
    obtain ⟨t, ht, htakes'⟩ := leads_many_ascii (by decide) hmany
    have hall : ∀ x ∈ b :: t, isBareByte x = true :=
      List.forall_mem_cons.2 ⟨(hbytes b).1 hb, fun x hx => (hbytes x).2 (ht x hx)⟩
    refine ⟨b :: t, htakes.trans htakes', ⟨_, List.getLast?_eq_some_getLast (List.cons_ne_nil b t),
      Or.inl (hall _ (List.getLast_mem _))⟩, Or.inr hall⟩
  · obtain ⟨c₁, hopen, h₁⟩ := leads_seqs_cons.1 hquoted
    obtain ⟨c₂, hmany, h₂⟩ := leads_seqs_cons.1 h₁
    obtain ⟨c₃, hclose, hnil⟩ := leads_seqs_cons.1 h₂
    obtain rfl := leads_nothing.1 hnil
    obtain ⟨t, ht⟩ := hmany.takes
    refine ⟨_, (leads_text (by decide) hopen).trans (ht.trans (leads_text (by decide) hclose)),
      ⟨doubleQuote, ?_, Or.inr rfl⟩, Or.inl rfl⟩
    rw [← List.append_assoc]
    exact List.getLast?_concat

theorem leads_names (h : Leads (.many (.seq (.text ".") namePattern)) c c') :
    ∃ t, c.Takes t c' ∧ (t = [] ∨ t.head? = some 46 ∧ ∃ x, t.getLast? = some x ∧ EndsName x) := by
  generalize hp : Pattern.many (.seq (.text ".") namePattern) = p at h
  induction h with
  | manyNone => exact ⟨[], .refl _, Or.inl rfl⟩
  | manyMore hone _ _ ih =>
    cases hp
    obtain ⟨t, htakes, ht⟩ := ih rfl
    obtain ⟨c₁, hdot, hname⟩ := leads_seq.1 hone
    obtain ⟨u, hu, ⟨x, hx, hends⟩, -⟩ := leads_name hname
    refine ⟨_, ((leads_text (by decide) hdot).trans hu).trans htakes, Or.inr ⟨rfl, ?_⟩⟩
    rcases ht with rfl | ⟨-, y, hy, hends'⟩
    · refine ⟨x, ?_, hends⟩
      rw [List.append_nil, List.getLast?_append, hx]
      rfl
    · refine ⟨y, ?_, hends'⟩
      rw [List.getLast?_append, hy]
      rfl
  | _ => cases hp

end

/-- A plain column is one name, or a name and others behind dots. -/
theorem parts_of_isPlainColumn {item : Bytes} (h : isPlainColumn item = true) :
    (∃ x, item.getLast? = some x ∧ EndsName x) ∧
      ∃ t u, item = t ++ u ∧ (t.head? = some doubleQuote ∨ ∀ b ∈ t, isBareByte b = true) ∧
        (u = [] ∨ u.head? = some 46) := by
  simp only [isPlainColumn, Bool.and_eq_true] at h
  obtain ⟨m, hm⟩ := Option.isSome_iff_exists.1 h.1.1
  obtain ⟨c', hleads, -⟩ := Pattern.leads_of_textStart hm
  obtain ⟨c₁, hname, h₁⟩ := Pattern.leads_seqs_cons.1 hleads
  obtain ⟨c₂, hnames, h₂⟩ := Pattern.leads_seqs_cons.1 h₁
  obtain ⟨c₃, hend, hnil⟩ := Pattern.leads_seqs_cons.1 h₂
  obtain ⟨t, ht, hlast, hbare⟩ := leads_name hname
  obtain ⟨u, hu, hdots⟩ := leads_names hnames
  cases hend with
  | textEnd hrest =>
    have hitem : item = t ++ u := by
      have hall := ht.rest
      rw [hu.rest, hrest, List.append_nil] at hall
      exact hall
    refine ⟨?_, t, u, hitem, hbare, hdots.imp_right And.left⟩
    rcases hdots with rfl | ⟨-, y, hy, hends⟩
    · rwa [hitem, List.append_nil]
    · refine ⟨y, ?_, hends⟩
      rw [hitem, List.getLast?_append, hy]
      rfl

/-- A count is no plain column. -/
theorem IsWholeCount.not_isPlainColumn {item : Bytes} (h : IsWholeCount item) :
    isPlainColumn item = false := by
  rw [Bool.eq_false_iff]
  intro hplain
  obtain ⟨name, gap, arg, rfl, hname, hgap, -⟩ := h
  have hword : IsWord name := IsWord.of_map_lowerByte (s := ascii "COUNT") (by decide) hname
  obtain ⟨-, t, u, hitem, hbare, hdot⟩ := parts_of_isPlainColumn hplain
  rw [List.append_assoc] at hitem
  have hbytes : ∀ b ∈ t, isBareByte b = true := by
    refine hbare.resolve_left fun hquote => ?_
    obtain ⟨t, rfl⟩ := List.head?_eq_some_iff.1 hquote
    have hhead := isWord_head hword (gap ++ openParen :: (arg ++ [closeParen]))
    rw [hitem] at hhead
    cases hhead
  have hgapHead : ∀ x ∈ (gap ++ openParen :: (arg ++ [closeParen])).head?,
      isBareByte x = false ∧ x ≠ 46 := by
    intro x hx
    have hopen : x = openParen ∨ CharSet.blank.contains x.toNat = true := by
      cases gap with
      | nil => exact Or.inl (Option.some.inj hx).symm
      | cons y gap => exact Or.inr (Option.some.inj hx ▸ hgap y List.mem_cons_self)
    rcases hopen with rfl | hblank
    · decide
    · exact forall_blank (P := fun x => isBareByte x = false ∧ x ≠ 46) (by decide) hblank
  -- the bytes of a bare name at the start of the item end in front of the parenthesis
  have hdrop := congrArg (List.dropWhile isBareByte) hitem
  rw [List.dropWhile_append_of_pos hbytes, List.dropWhile_append_of_pos
    fun b hb => by rw [isBareByte, hword.2 b hb]; rfl] at hdrop
  generalize hrest : gap ++ openParen :: (arg ++ [closeParen]) = rest at hgapHead hdrop
  obtain ⟨y, rest, rfl⟩ := List.exists_cons_of_ne_nil (l := rest) (by rw [← hrest]; simp)
  obtain ⟨hy, hydot⟩ := hgapHead y rfl
  rw [List.dropWhile_cons_of_neg (by rw [hy]; exact Bool.false_ne_true)] at hdrop
  rcases hdot with rfl | hdot
  · cases hdrop
  · obtain ⟨u, rfl⟩ := List.head?_eq_some_iff.1 hdot
    exact hydot (List.cons.inj hdrop).1

theorem isUnnamedCount_iff {item : Bytes} : isUnnamedCount item = true ↔ IsWholeCount item := by
  rw [isUnnamedCount, Bool.and_eq_true, isCountCall_iff]
  refine ⟨And.right, fun h => ⟨?_, h⟩⟩
  rw [h.not_isPlainColumn]
  rfl

end SqlDialect
