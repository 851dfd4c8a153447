import SqlDialect.Proofs.Query.Absent
import SqlDialect.Proofs.Statement.SelectHead

set_option autoImplicit false

/-! # Outside parentheses

A text is searched for a word and cut at commas outside parentheses only. Both can be told from its
parts: where it is put together at a place that splits no word, a word is outside parentheses in the
whole exactly if it is in one of the parts, the second part being read at the depth where the first one
ends (`lacks_append`). Deeper inside parentheses there is less to find (`Lacks.mono`). -/

namespace SqlDialect

open Bytes

/-! ## Depth -/

theorem stepDepth_mono {d d' : Nat} (h : d ≤ d') (b : UInt8) : stepDepth d b ≤ stepDepth d' b := by
  rw [stepDepth, stepDepth]
  split
  · omega
  · split <;> omega

theorem depthAfter_mono {d d' : Nat} (h : d ≤ d') (s : Bytes) : depthAfter d s ≤ depthAfter d' s := by
  induction s generalizing d d' with
  | nil => exact h
  | cons b s ih => exact ih (stepDepth_mono h b)

/-- The depth depends on the parentheses only. -/
theorem depthAfter_parens (d : Nat) (s : Bytes) : depthAfter d (parens s) = depthAfter d s := by
  induction s generalizing d with
  | nil => rfl
  | cons b s ih =>
    rw [parens_cons, depthAfter_append, ih]
    refine congrArg (fun d => depthAfter d s) ?_
    cases hb : isParen b with
    | true =>
      rw [parens, List.filter_cons_of_pos hb, List.filter_nil]
      rfl
    | false =>
      rw [parens_eq_nil_iff.2 (by simpa using hb)]
      exact (depthAfter_plain (a := [b]) (by simpa [isParen] using hb) d).symm

theorem depthAfter_congr {s t : Bytes} (h : parens s = parens t) (d : Nat) :
    depthAfter d s = depthAfter d t := by
  rw [← depthAfter_parens, h, depthAfter_parens]

theorem depthAfter_of_parens {s : Bytes} (h : parens s = []) (d : Nat) : depthAfter d s = d :=
  depthAfter_congr (t := []) h d

/-! ## A word -/

variable {word : String}

/-- The word stands alone at the start of `b` and outside parentheses; `d` is the depth where the text
`a` in front of it starts. -/
def TopWord (word : String) (d : Nat) (a b : Bytes) : Prop :=
  ∃ w r, b = w ++ r ∧ w.map lowerByte = (ascii word).map lowerByte ∧
    a.getLast?.any isWord = false ∧ r.head?.any isWord = false ∧ depthAfter d a = 0

/-- The word stands nowhere outside parentheses. -/
def Lacks (word : String) (d : Nat) (s : Bytes) : Prop :=
  ∀ a b, s = a ++ b → ¬ TopWord word d a b

theorem Lacks.mono {d d' : Nat} {s : Bytes} (h : Lacks word d s) (hd : d ≤ d') : Lacks word d' s := by
  rintro a b rfl ⟨w, r, rfl, hw, ha, hr, hdepth⟩
  have hle := depthAfter_mono hd a
  exact h a _ rfl ⟨w, r, rfl, hw, ha, hr, by omega⟩

/-- A text without one of the letters lacks the word. -/
theorem lacks_of_forall_ne {s : Bytes} {l : UInt8} (hl : l ∈ (ascii word).map lowerByte)
    (hs : ∀ x ∈ s, lowerByte x ≠ l) (d : Nat) : Lacks word d s := by
  rintro a b rfl ⟨w, r, rfl, hw, -⟩
  rw [← hw] at hl
  obtain ⟨x, hx, hlower⟩ := List.mem_map.1 hl
  exact hs x (by simp [hx]) hlower

section

variable (hword : IsWord (ascii word))
include hword

/-- A text that is put together where no word is split lacks the word if its parts do. -/
theorem lacks_append {d : Nat} {u v : Bytes}
    (hseam : u.getLast?.any isWord = false ∨ v.head?.any isWord = false) :
    Lacks word d (u ++ v) ↔ Lacks word d u ∧ Lacks word (depthAfter d u) v := by
  constructor
  · refine fun h => ⟨?_, ?_⟩
    · rintro a b rfl ⟨w, r, rfl, hw, ha, hr, hdepth⟩
      have hww := hword.of_map_lowerByte hw
      refine h a (w ++ (r ++ v)) (by simp) ⟨w, r ++ v, rfl, hw, ha, ?_, hdepth⟩
      cases r with
      | cons x r => exact hr
      | nil =>
        refine hseam.resolve_left fun hlast => ?_
        rw [List.append_nil, isWord_last hww] at hlast
        cases hlast
    · rintro a b rfl ⟨w, r, rfl, hw, ha, hr, hdepth⟩
      have hww := hword.of_map_lowerByte hw
      refine h (u ++ a) (w ++ r) (by simp) ⟨w, r, rfl, hw, ?_, hr, by rwa [depthAfter_append]⟩
      by_cases hnil : a = []
      · subst hnil
        rw [List.append_nil]
        refine hseam.resolve_right fun hhead => ?_
        rw [List.nil_append, isWord_head hww] at hhead
        cases hhead
      · rwa [Pattern.getLast?_append_of_ne_nil u hnil]
  · rintro ⟨hu, hv⟩ a b h ⟨w, r, rfl, hw, ha, hr, hdepth⟩
    have hww := hword.of_map_lowerByte hw
    rw [← List.append_assoc] at h
    rcases append_eq_append_append h with
      ⟨c, rfl⟩ | ⟨c, rfl, rfl⟩ | ⟨t₁, t₂, hne₁, hne₂, rfl, rfl, rfl⟩
    · rw [List.append_assoc, List.append_cancel_left_eq] at h
      rw [← h] at hr
      refine hu a (w ++ c) (by simp) ⟨w, c, rfl, hw, ha, ?_, hdepth⟩
      cases c with
      | nil => rfl
      | cons x c => exact hr
    · refine hv c (w ++ r) (by simp) ⟨w, r, rfl, hw, ?_, hr, by rwa [← depthAfter_append]⟩
      cases hlast : c.getLast? with
      | none => rfl
      | some x => rwa [List.getLast?_append, hlast] at ha
    · have h₁ : IsWord t₁ := ⟨hne₁, fun x hx => hww.2 x (List.mem_append_left _ hx)⟩
      have h₂ : IsWord t₂ := ⟨hne₂, fun x hx => hww.2 x (List.mem_append_right _ hx)⟩
      rw [isWord_last h₁, isWord_head h₂] at hseam
      simp at hseam

variable (hkey : Pattern.IsKeyword word) (hascii : Pattern.AsciiKeyword word)
include hkey hascii

/-- The first place of a word that is searched for outside parentheses. -/
theorem topWord_of_findTop? {s : Bytes} {m : Match} (h : findTop? (.wholeWord word) s = some m) :
    s = m.before ++ (m.text ++ m.after) ∧ TopWord word 0 m.before (m.text ++ m.after) ∧
      Lacks word 0 m.before := by
  obtain ⟨hs, c', hplaces⟩ := Pattern.places_of_findTop? (Pattern.consumes_wholeWord hkey) h
  obtain ⟨htext, hbefore, hafter⟩ := hplaces.wholeWord hword hascii
  rw [Option.or_none] at hbefore
  rw [List.append_assoc] at hs
  refine ⟨hs, ⟨_, _, rfl, htext, hbefore, hafter, depth_of_findTop? h⟩, ?_⟩
  rintro a b hab ⟨w, r, rfl, hw, ha, hr, hdepth⟩
  have hww := hword.of_map_lowerByte hw
  -- behind a word that ends the text in front of the match there would be no edge
  cases r with
  | nil =>
    rw [hab, List.append_nil, isWord_last hww] at hbefore
    cases hbefore
  | cons x r =>
    obtain ⟨m', hm', hle⟩ := exists_findTop?_wholeWord hkey hword hascii hw
      (a := x :: r ++ (m.text ++ m.after)) hr ha hdepth
    have hsame : a ++ (w ++ (x :: r ++ (m.text ++ m.after))) = s := by
      rw [hs, hab]
      simp only [List.append_assoc]
    rw [hsame, h] at hm'
    obtain rfl := Option.some.inj hm'
    have hlen := List.length_pos_iff.2 hww.1
    rw [hab, List.length_append, List.length_append] at hle
    omega

theorem findTop?_eq_none_iff {s : Bytes} :
    findTop? (.wholeWord word) s = none ↔ Lacks word 0 s := by
  constructor
  · rintro h a b rfl ⟨w, r, rfl, hw, ha, hr, hdepth⟩
    obtain ⟨m, hm, -⟩ := exists_findTop?_wholeWord hkey hword hascii hw hr ha hdepth
    rw [h] at hm
    cases hm
  · intro h
    rw [Option.eq_none_iff_forall_ne_some]
    intro m hm
    obtain ⟨hs, htop, -⟩ := topWord_of_findTop? hword hkey hascii hm
    exact h _ _ hs htop

/-- A word behind a text that lacks it is found. -/
theorem exists_findTop?_of_topWord {a b : Bytes} (h : TopWord word 0 a b) (ha : Lacks word 0 a) :
    ∃ m, findTop? (.wholeWord word) (a ++ b) = some m ∧ m.before = a ∧ m.text ++ m.after = b := by
  have hseam : a.getLast?.any isWord = false := by
    obtain ⟨w, r, -, -, hlast, -⟩ := h
    exact hlast
  obtain ⟨w, r, rfl, hw, hlast, hr, hdepth⟩ := h
  obtain ⟨m, hm, hle⟩ := exists_findTop?_wholeWord hkey hword hascii hw hr hlast hdepth
  obtain ⟨hs, htop, -⟩ := topWord_of_findTop? hword hkey hascii hm
  refine ⟨m, hm, ?_⟩
  obtain ⟨c, rfl⟩ : m.before <+: a :=
    List.prefix_of_prefix_length_le ⟨_, hs.symm⟩ (List.prefix_append _ _) hle
  rw [List.append_assoc, List.append_cancel_left_eq] at hs
  by_cases hc : c = []
  · subst hc
    rw [List.append_nil]
    exact ⟨rfl, hs.symm⟩
  · -- the match would be a word in the text in front, which ends at the edge of a word
    obtain ⟨w', r', hwr, hw', hlast', hr', hdepth'⟩ := htop
    have hww := hword.of_map_lowerByte hw'
    rw [Pattern.getLast?_append_of_ne_nil _ hc] at hlast
    have hnot : ∀ u, u ≠ [] → u <:+ c → ¬ IsWord u := by
      rintro u hu ⟨t, rfl⟩ huword
      rw [isWord_last huword] at hlast
      cases hlast
    rw [← hs] at hwr
    rcases List.append_eq_append_iff.1 hwr with ⟨e, rfl, -⟩ | ⟨e, rfl, rfl⟩
    · exact absurd ⟨hc, fun x hx => hww.2 x (List.mem_append_left _ hx)⟩
        (hnot c hc (List.suffix_refl c))
    · refine absurd ⟨w', e, rfl, hw', hlast', ?_, hdepth'⟩ (ha m.before (w' ++ e) rfl)
      cases e with
      | nil => exact absurd hww (hnot w' hww.1 (by rw [List.append_nil]))
      | cons x e => exact hr'

end

/-! ## Commas -/

/-- No comma stands outside parentheses. -/
def LacksComma (d : Nat) (s : Bytes) : Prop :=
  ∀ a b, s = a ++ comma :: b → depthAfter d a ≠ 0

theorem LacksComma.mono {d d' : Nat} {s : Bytes} (h : LacksComma d s) (hd : d ≤ d') :
    LacksComma d' s := by
  intro a b hs
  have hne := h a b hs
  have hle := depthAfter_mono hd a
  omega

theorem lacksComma_of_notMem {s : Bytes} (h : comma ∉ s) (d : Nat) : LacksComma d s := by
  rintro a b rfl
  exact absurd (by simp) h

theorem lacksComma_append {d : Nat} {u v : Bytes} :
    LacksComma d (u ++ v) ↔ LacksComma d u ∧ LacksComma (depthAfter d u) v := by
  constructor
  · refine fun h => ⟨?_, ?_⟩
    · rintro a b rfl
      exact h a (b ++ v) (by simp)
    · rintro a b rfl
      rw [← depthAfter_append]
      exact h (u ++ a) b (by simp)
  · rintro ⟨hu, hv⟩ a b h
    rcases List.append_eq_append_iff.1 h with ⟨c, rfl, hc⟩ | ⟨c, rfl, hc⟩
    · rw [depthAfter_append]
      exact hv c b hc
    · cases c with
      | nil =>
        rw [List.append_nil] at hv
        exact hv [] b hc.symm
      | cons x c =>
        obtain ⟨rfl, -⟩ := List.cons.inj hc
        exact hu a c rfl

theorem splitTopFrom_of_lacksComma {d : Nat} {s : Bytes} (h : LacksComma d s) :
    splitTopFrom d s = [s] := by
  induction s generalizing d with
  | nil => rfl
  | cons b s ih =>
    rw [splitTopFrom, if_neg, ih]
    · rfl
    · exact fun a b' hs => h (b :: a) b' (congrArg (b :: ·) hs)
    · rintro ⟨rfl, rfl⟩
      exact h [] s rfl rfl

/-! ## The parts of a list -/

/-- No part has a comma outside its parentheses, and all parts but the last one are closed. -/
structure IsParts (parts : List Bytes) : Prop where
  plain : ∀ part ∈ parts, LacksComma 0 part
  closed : ∀ part ∈ parts.dropLast, depthAfter 0 part = 0

theorem isParts_nil : IsParts [] :=
  ⟨fun _ h => absurd h List.not_mem_nil, fun _ h => absurd h List.not_mem_nil⟩

theorem isParts_cons {first : Bytes} {rest : List Bytes} :
    IsParts (first :: rest) ↔
      LacksComma 0 first ∧ (rest ≠ [] → depthAfter 0 first = 0) ∧ IsParts rest := by
  cases rest with
  | nil =>
    refine ⟨fun h => ⟨h.plain first List.mem_cons_self, absurd rfl, isParts_nil⟩, fun h => ⟨?_, ?_⟩⟩
    · exact List.forall_mem_singleton.2 h.1
    · exact fun _ h => absurd h List.not_mem_nil
  | cons next rest =>
    constructor
    · rintro ⟨hplain, hclosed⟩
      obtain ⟨hfirst, hplain⟩ := List.forall_mem_cons.1 hplain
      obtain ⟨hdepth, hclosed⟩ := List.forall_mem_cons.1 hclosed
      exact ⟨hfirst, fun _ => hdepth, hplain, hclosed⟩
    · rintro ⟨hfirst, hdepth, hplain, hclosed⟩
      exact ⟨List.forall_mem_cons.2 ⟨hfirst, hplain⟩,
        List.forall_mem_cons.2 ⟨hdepth (List.cons_ne_nil _ _), hclosed⟩⟩

/-- A list is cut at its first comma outside parentheses, and what follows is cut in the same way. -/
theorem splitTopFrom_cases (d : Nat) (s : Bytes) :
    LacksComma d s ∧ splitTopFrom d s = [s] ∨
      ∃ a b, s = a ++ comma :: b ∧ LacksComma d a ∧ depthAfter d a = 0 ∧
        splitTopFrom d s = a :: splitTopFrom 0 b := by
  induction s generalizing d with
  | nil => exact Or.inl ⟨lacksComma_of_notMem List.not_mem_nil d, rfl⟩
  | cons x s ih =>
    rw [splitTopFrom]
    split
    · rename_i hcomma
      obtain ⟨rfl, rfl⟩ := hcomma
      exact Or.inr ⟨[], s, rfl, lacksComma_of_notMem List.not_mem_nil 0, rfl, rfl⟩
    · rename_i hcomma
      have hcons : ∀ {a}, LacksComma (stepDepth d x) a → LacksComma d (x :: a) := by
        rintro a ha (_ | ⟨y, u⟩) b h
        · exact fun hd => hcomma ⟨(List.cons.inj h).1, hd⟩
        · obtain ⟨rfl, rfl⟩ := List.cons.inj h
          exact ha u b rfl
      rcases ih (stepDepth d x) with ⟨hs, hsplit⟩ | ⟨a, b, rfl, ha, hdepth, hsplit⟩
      · exact Or.inl ⟨hcons hs, by rw [hsplit]; rfl⟩
      · exact Or.inr ⟨x :: a, b, rfl, hcons ha, hdepth, by rw [hsplit]; rfl⟩

/-- A list is cut into its parts. -/
theorem isParts_splitTop (s : Bytes) : IsParts (splitTop s) := by
  rw [splitTop]
  induction hlen : s.length using Nat.strongRecOn generalizing s with
  | _ n ih =>
    rcases splitTopFrom_cases 0 s with ⟨hs, hsplit⟩ | ⟨a, b, rfl, ha, hdepth, hsplit⟩
    · rw [hsplit]
      exact isParts_cons.2 ⟨hs, absurd rfl, isParts_nil⟩
    · rw [hsplit]
      rw [List.length_append, List.length_cons] at hlen
      exact isParts_cons.2 ⟨ha, fun _ => hdepth, ih b.length (by omega) b rfl⟩

/-- A part ends with the list, or in front of a comma outside parentheses. -/
theorem end_of_mem_splitTop {s part : Bytes} (h : part ∈ splitTop s) :
    (∃ a, s = a ++ part) ∨
      ∃ a b, s = a ++ part ++ comma :: b ∧ depthAfter 0 (a ++ part) = 0 := by
  rw [splitTop] at h
  induction hlen : s.length using Nat.strongRecOn generalizing s with
  | _ n ih =>
    rcases splitTopFrom_cases 0 s with ⟨hs, hsplit⟩ | ⟨a, b, rfl, ha, hdepth, hsplit⟩
    · rw [hsplit, List.mem_singleton] at h
      exact Or.inl ⟨[], by rw [h]; rfl⟩
    · rw [List.length_append, List.length_cons] at hlen
      rw [hsplit] at h
      rcases List.mem_cons.1 h with rfl | h
      · exact Or.inr ⟨[], b, rfl, hdepth⟩
      · rcases ih b.length (by omega) h rfl with ⟨a', rfl⟩ | ⟨a', b', rfl, hdepth'⟩
        · exact Or.inl ⟨a ++ comma :: a', by simp⟩
        · refine Or.inr ⟨a ++ comma :: a', b', by simp, ?_⟩
          rw [List.append_assoc, depthAfter_append, hdepth]
          exact hdepth'

theorem Spaced.text_ofText (s : Bytes) : (ofText s).text = s := by
  rw [ofText, text, List.append_assoc]
  dsimp only
  rw [trimRight, dropTailWhile_append_drop, trimLeft, List.takeWhile_append_dropWhile]

theorem map_text_items (list : Bytes) : (items list).map Spaced.text = splitTop list := by
  rw [items, List.map_map]
  exact (List.map_congr_left fun part _ => Spaced.text_ofText part).trans (List.map_id _)

theorem ofItems_items (list : Bytes) : ofItems (items list) = list := by
  rw [ofItems, map_text_items]
  exact join_splitTopFrom 0 list

section

variable {init : List Bytes}

/-- The parts in front of the last one are found, whatever the last one is. -/
theorem splitTop_join_concat (hplain : ∀ part ∈ init, LacksComma 0 part)
    (hclosed : ∀ part ∈ init, depthAfter 0 part = 0) (last : Bytes) :
    splitTop (join [comma] (init ++ [last])) = init ++ splitTop last := by
  rw [splitTop_join (by simp) (by rwa [List.dropLast_concat]), List.flatMap_append,
    flatMap_splitTop fun part hpart => splitTopFrom_of_lacksComma (hplain part hpart)]
  simp

theorem IsParts.splitTop_join {parts : List Bytes} (h : IsParts parts) (hne : parts ≠ []) :
    splitTop (join [comma] parts) = parts := by
  rw [SqlDialect.splitTop_join hne h.closed,
    flatMap_splitTop fun part hpart => splitTopFrom_of_lacksComma (h.plain part hpart)]

/-- A list lacks a word if its parts do. -/
theorem lacks_join_concat (hword : IsWord (ascii word))
    (hclosed : ∀ part ∈ init, depthAfter 0 part = 0) (last : Bytes) :
    Lacks word 0 (join [comma] (init ++ [last])) ↔
      (∀ part ∈ init, Lacks word 0 part) ∧ Lacks word 0 last := by
  induction init with
  | nil => simp [join]
  | cons part init ih =>
    obtain ⟨hdepth, hclosed⟩ := List.forall_mem_cons.1 hclosed
    have hcomma : ∀ d, Lacks word d [comma] := by
      obtain ⟨x, hx⟩ := List.exists_mem_of_ne_nil _ hword.1
      refine lacks_of_forall_ne (List.mem_map_of_mem hx) ?_
      rintro y hy heq
      obtain rfl := List.mem_singleton.1 hy
      have hxword := hword.2 x hx
      rw [← isWord_lowerByte, ← heq] at hxword
      cases hxword
    rw [List.cons_append, join, List.intercalate_cons_of_ne_nil (by simp), List.append_assoc,
      lacks_append hword (Or.inr rfl), lacks_append hword (Or.inl rfl), hdepth,
      show depthAfter 0 [comma] = 0 from rfl, List.forall_mem_cons, and_assoc,
      show List.intercalate [comma] (init ++ [last]) = join [comma] (init ++ [last]) from rfl,
      ih hclosed]
    exact and_congr_right fun _ => ⟨And.right, fun h => ⟨hcomma 0, h⟩⟩

end

/-! ## The parts of a select statement -/

theorem isWord_from : IsWord (ascii "FROM") := by
  decide

theorem SelectParts.of_ofText? {s : Bytes} {p : SelectParts} (h : SelectParts.ofText? s = some p) :
    (∃ m, selectHeadPattern.find? s = some m ∧ m.text = p.head ∧ m.after = p.list ++ p.tail) ∧
      Lacks "FROM" 0 p.list ∧ (p.tail ≠ [] → TopWord "FROM" 0 p.list p.tail) := by
  obtain ⟨m, hm, hp⟩ := Option.map_eq_some_iff.1 h
  cases hfrom : findTop? Clause.fromPattern m.after with
  | none =>
    rw [hfrom] at hp
    subst hp
    refine ⟨⟨m, hm, rfl, (List.append_nil _).symm⟩, ?_, absurd rfl⟩
    exact (findTop?_eq_none_iff (by decide) (by decide) (by decide)).1 hfrom
  | some f =>
    rw [hfrom] at hp
    subst hp
    obtain ⟨hafter, htop, hlacks⟩ :=
      topWord_of_findTop? isWord_from (by decide) (by decide) hfrom
    exact ⟨⟨m, hm, rfl, hafter⟩, hlacks, fun _ => htop⟩

/-- A statement is cut where FROM stands behind a list that lacks it. -/
theorem SelectParts.ofText?_of_lacks {s list tail : Bytes} {m : Match}
    (hm : selectHeadPattern.find? s = some m) (hafter : m.after = list ++ tail)
    (hlacks : Lacks "FROM" 0 list) (htail : tail ≠ [] → TopWord "FROM" 0 list tail) :
    SelectParts.ofText? s = some ⟨m.text, list, tail⟩ := by
  rw [SelectParts.ofText?, hm, Option.map_some, hafter]
  by_cases hnil : tail = []
  · subst hnil
    have hnone := (findTop?_eq_none_iff isWord_from (by decide) (by decide)).2 hlacks
    rw [List.append_nil, show Clause.fromPattern = .wholeWord "FROM" from rfl, hnone]
  · obtain ⟨f, hf, rfl, rfl⟩ := exists_findTop?_of_topWord isWord_from (by decide)
      (by decide) (htail hnil) hlacks
    rw [show Clause.fromPattern = .wholeWord "FROM" from rfl, hf]

end SqlDialect
