import SqlDialect.Proofs.Statement.Kept
import SqlDialect.Proofs.Statement.SelectHead

set_option autoImplicit false

/-! # Nested parentheses

A text is balanced if every closing parenthesis has a partner in front of it and every opening one has
a partner behind it. `nest` follows the depth through a text and stops at a parenthesis without
partner; two texts that lead from each depth to the same one (`SameNesting`) can stand for each other
anywhere in a balanced text. That is how the rules are looked at: most leave the parentheses alone, and
what the others put in, take out or wrap is balanced. -/

namespace SqlDialect

open Bytes

/-! ## Balance and depth -/

/-- No prefix closes more parentheses than it opens, and the whole text closes all that it opens. -/
def Balanced (s : Bytes) : Prop :=
  (∀ t, t <+: s → t.count closeParen ≤ t.count openParen) ∧ s.count openParen = s.count closeParen

/-- The depth after a byte, from the depth before it; none if the byte closes a parenthesis that was
not opened. -/
def nestStep (depth : Nat) (b : UInt8) : Option Nat :=
  if b = closeParen ∧ depth = 0 then none else some (stepDepth depth b)

/-- The depth after a text, from the depth before it; none if a parenthesis is closed that was not
opened. -/
def nest (depth : Nat) (s : Bytes) : Option Nat :=
  s.foldlM nestStep depth

@[simp] theorem nest_nil (depth : Nat) : nest depth [] = some depth :=
  rfl

theorem nest_cons (depth : Nat) (b : UInt8) (s : Bytes) :
    nest depth (b :: s) = (nestStep depth b).bind fun d => nest d s :=
  rfl

@[simp] theorem nest_open (depth : Nat) (s : Bytes) :
    nest depth (openParen :: s) = nest (depth + 1) s :=
  rfl

@[simp] theorem nest_close_zero (s : Bytes) : nest 0 (closeParen :: s) = none :=
  rfl

@[simp] theorem nest_close_succ (depth : Nat) (s : Bytes) :
    nest (depth + 1) (closeParen :: s) = nest depth s :=
  rfl

theorem nest_cons_of_ne {b : UInt8} (hopen : b ≠ openParen) (hclose : b ≠ closeParen) (depth : Nat)
    (s : Bytes) : nest depth (b :: s) = nest depth s := by
  rw [nest_cons, nestStep, if_neg (fun h => hclose h.1), stepDepth, if_neg hopen, if_neg hclose]
  rfl

theorem nest_append (depth : Nat) (s t : Bytes) :
    nest depth (s ++ t) = (nest depth s).bind fun d => nest d t :=
  List.foldlM_append

theorem forall_prefix_cons {b : UInt8} {s : Bytes} {P : Bytes → Prop} (hnil : P []) :
    (∀ t, t <+: b :: s → P t) ↔ ∀ t, t <+: s → P (b :: t) := by
  constructor
  · intro h t ht
    exact h _ (List.cons_prefix_cons.2 ⟨rfl, ht⟩)
  · intro h t ht
    rcases List.prefix_cons_iff.1 ht with rfl | ⟨u, rfl, hu⟩
    · exact hnil
    · exact h u hu

/-- The depth is what has been opened and not closed, if no prefix closes more than there is to
close. -/
theorem nest_eq_some_iff {depth depth' : Nat} {s : Bytes} :
    nest depth s = some depth' ↔
      (∀ t, t <+: s → t.count closeParen ≤ depth + t.count openParen) ∧
        depth + s.count openParen = depth' + s.count closeParen := by
  have hne : openParen ≠ closeParen := by decide
  -- the depth stays open: a parenthesis moves it, and the bound on the prefixes with it
  induction s generalizing depth with
  | nil => simp [List.prefix_nil]
  | cons b s ih =>
    rw [forall_prefix_cons (P := fun t => t.count closeParen ≤ depth + t.count openParen)
      (Nat.zero_le _)]
    by_cases hopen : b = openParen
    · subst hopen
      rw [nest_open]
      refine ih.trans ?_
      simp only [List.count_cons_self, List.count_cons_of_ne hne]
      simp only [Nat.add_comm, Nat.add_left_comm]
    · by_cases hclose : b = closeParen
      · subst hclose
        simp only [List.count_cons_self, List.count_cons_of_ne hne.symm]
        cases depth with
        | zero =>
          rw [nest_close_zero]
          refine iff_of_false (Option.some_ne_none depth').symm ?_
          rintro ⟨h, -⟩
          exact absurd (h [] List.nil_prefix) (by simp)
        | succ depth =>
          rw [nest_close_succ]
          refine ih.trans ?_
          refine and_congr (forall₂_congr fun t _ => ?_) ?_ <;> omega
      · rw [nest_cons_of_ne hopen hclose]
        refine ih.trans ?_
        simp only [List.count_cons_of_ne hopen, List.count_cons_of_ne hclose]

theorem balanced_iff {s : Bytes} : Balanced s ↔ nest 0 s = some 0 := by
  simp only [nest_eq_some_iff, Balanced, Nat.zero_add]

instance (s : Bytes) : Decidable (Balanced s) :=
  decidable_of_iff _ balanced_iff.symm

/-- What is nested correctly is so at a greater depth as well. -/
theorem nest_add {depth depth' : Nat} {s : Bytes} (h : nest depth s = some depth') (k : Nat) :
    nest (depth + k) s = some (depth' + k) := by
  rw [nest_eq_some_iff] at h ⊢
  refine ⟨fun t ht => ?_, by omega⟩
  have hle := h.1 t ht
  omega

theorem stepDepth_of_nestStep {depth depth' : Nat} {b : UInt8} (h : nestStep depth b = some depth') :
    stepDepth depth b = depth' := by
  rw [nestStep] at h
  split at h
  · cases h
  · exact Option.some.inj h

theorem depthAfter_of_nest {depth depth' : Nat} {s : Bytes} (h : nest depth s = some depth') :
    depthAfter depth s = depth' := by
  induction s generalizing depth with
  | nil => exact Option.some.inj h
  | cons b s ih =>
    obtain ⟨d, hstep, hrest⟩ := Option.bind_eq_some_iff.1 h
    obtain rfl := stepDepth_of_nestStep hstep
    exact ih hrest

/-! ## Texts that nest alike -/

/-- The texts lead from each depth to the same depth. -/
def SameNesting (s t : Bytes) : Prop :=
  ∀ depth, nest depth s = nest depth t

namespace SameNesting

variable {s t u s' t' : Bytes}

theorem refl (s : Bytes) : SameNesting s s :=
  fun _ => rfl

theorem symm (h : SameNesting s t) : SameNesting t s :=
  fun depth => (h depth).symm

theorem trans (h : SameNesting s t) (h' : SameNesting t u) : SameNesting s u :=
  fun depth => (h depth).trans (h' depth)

theorem append (h : SameNesting s t) (h' : SameNesting s' t') : SameNesting (s ++ s') (t ++ t') := by
  intro depth
  rw [nest_append, nest_append, h depth]
  exact congrArg _ (funext h')

theorem balanced_iff (h : SameNesting s t) : Balanced s ↔ Balanced t := by
  rw [SqlDialect.balanced_iff, h 0, SqlDialect.balanced_iff]

end SameNesting

/-- A balanced text can stand anywhere. -/
theorem Balanced.sameNesting {s : Bytes} (h : Balanced s) : SameNesting s [] := by
  intro depth
  have hadd := nest_add (balanced_iff.1 h) depth
  rwa [Nat.zero_add] at hadd

theorem SameNesting.balanced {s : Bytes} (h : SameNesting s []) : Balanced s :=
  SqlDialect.balanced_iff.2 (h 0)

theorem balanced_nil : Balanced [] :=
  balanced_iff.2 rfl

theorem Balanced.append {s t : Bytes} (hs : Balanced s) (ht : Balanced t) : Balanced (s ++ t) :=
  (hs.sameNesting.append ht.sameNesting).balanced

/-- What stands behind a balanced text is balanced if the whole is. -/
theorem Balanced.of_append {s t : Bytes} (h : Balanced (s ++ t)) (hs : Balanced s) : Balanced t :=
  ((hs.sameNesting.append (.refl t)).balanced_iff).1 h

/-- A balanced text between parentheses is balanced. -/
theorem Balanced.wrap {s : Bytes} (h : Balanced s) : Balanced (openParen :: (s ++ [closeParen])) := by
  rw [balanced_iff, nest_open, nest_append, h.sameNesting 1]
  rfl

/-- A balanced text is so between a text that opens one parenthesis and a text that closes it. -/
theorem Balanced.enclose {a s b : Bytes} (h : Balanced s) (ha : nest 0 a = some 1)
    (hb : nest 1 b = some 0) : Balanced (a ++ s ++ b) := by
  rw [balanced_iff, nest_append, nest_append, ha, Option.bind_some, h.sameNesting 1]
  exact hb

/-! ## The parentheses of a text -/

/-- Whether the byte is a parenthesis. -/
def isParen (b : UInt8) : Bool :=
  b == openParen || b == closeParen

/-- The parentheses of a text. -/
def parens (s : Bytes) : Bytes :=
  s.filter isParen

@[simp] theorem parens_nil : parens [] = [] :=
  rfl

@[simp] theorem parens_append (s t : Bytes) : parens (s ++ t) = parens s ++ parens t :=
  List.filter_append s t

theorem parens_cons (b : UInt8) (s : Bytes) : parens (b :: s) = parens [b] ++ parens s :=
  parens_append [b] s

theorem eq_of_isParen {b : UInt8} (h : isParen b = true) : b = openParen ∨ b = closeParen := by
  simpa [isParen] using h

/-- A byte of a kind that the parentheses are not of is none. -/
theorem isParen_of_other {P : UInt8 → Bool} (hopen : P openParen = false)
    (hclose : P closeParen = false) {b : UInt8} (hb : P b = true) : isParen b = false := by
  rw [Bool.eq_false_iff]
  intro hparen
  rcases eq_of_isParen hparen with rfl | rfl
  · exact Bool.noConfusion (hopen.symm.trans hb)
  · exact Bool.noConfusion (hclose.symm.trans hb)

theorem parens_eq_nil_iff {s : Bytes} : parens s = [] ↔ ∀ b ∈ s, isParen b = false := by
  simp [parens]

/-- Only the parentheses of a text count for its nesting. -/
theorem nest_parens (depth : Nat) (s : Bytes) : nest depth (parens s) = nest depth s := by
  induction s generalizing depth with
  | nil => rfl
  | cons b s ih =>
    rw [parens_cons]
    by_cases hopen : b = openParen
    · subst hopen
      exact ih _
    · by_cases hclose : b = closeParen
      · subst hclose
        cases depth with
        | zero => rfl
        | succ depth => exact ih depth
      · have hb : parens [b] = [] := by simp [parens, isParen, hopen, hclose]
        rw [hb, nest_cons_of_ne hopen hclose]
        exact ih depth

theorem sameNesting_of_parens {s t : Bytes} (h : parens s = parens t) : SameNesting s t := by
  intro depth
  rw [← nest_parens, h, nest_parens]

theorem balanced_of_parens {s : Bytes} (h : parens s = []) : Balanced s :=
  (sameNesting_of_parens h).balanced

theorem isParen_of_isBlank {b : UInt8} (hb : isBlank b = true) : isParen b = false :=
  isParen_of_other rfl rfl hb

@[simp] theorem parens_trimRight (s : Bytes) : parens (trimRight s) = parens s :=
  filter_trimRight (fun _ => isParen_of_isBlank) s

theorem parens_trimStatementEnd (s : Bytes) : parens (trimStatementEnd s).1 = parens s := by
  exact filter_trimStatementEnd
    (fun b => isParen_of_other (P := fun b => isBlank b || b == 59) rfl rfl) s

/-! ## Matches and their parentheses -/

namespace Pattern

/-- No set of the pattern holds a parenthesis. -/
def parenFree (p : Pattern) : Bool :=
  p.avoids [openParen, closeParen]

variable {p : Pattern}

theorem parens_of_leads (hp : p.parenFree = true) {c c' : Cursor} {t : Bytes} (h : Leads p c c')
    (ht : c.Takes t c') : parens t = [] := by
  rw [parens_eq_nil_iff]
  intro b hb
  rw [Bool.eq_false_iff, isParen]
  intro hparen
  rw [Bool.or_eq_true, beq_iff_eq, beq_iff_eq] at hparen
  rcases hparen with rfl | rfl
  · exact notMem_of_leads hp h ht List.mem_cons_self (by decide) hb
  · exact notMem_of_leads hp h ht (List.mem_cons_of_mem _ List.mem_cons_self) (by decide) hb

section

variable {skip : Nat} {prev : Option UInt8} {s : Bytes} {m : Match}

theorem parens_text (hp : p.parenFree = true) (h : p.findFrom? skip prev s = some m) :
    parens m.text = [] := by
  obtain ⟨c', hplaces, -⟩ := places_of_findFrom? h
  exact parens_of_leads hp hplaces.leads hplaces.takes

/-- A group whose pattern is free of parentheses holds none. -/
theorem parens_group {n : Nat} (hp : ∀ q ∈ p.recordedAs n, q.parenFree = true)
    (h : p.findFrom? skip prev s = some m) : parens (m.group n) = [] := by
  exact group_of_leads (P := fun t => parens t = []) rfl
    (fun q hq _ _ _ hleads htakes => parens_of_leads (hp q hq) hleads htakes) h

/-- The group that ends a pattern holds what is behind the rest of the match. -/
theorem text_eq_append_group {ps : List Pattern} {q : Pattern} {n : Nat}
    (h : (seqs (ps ++ [group n q])).findFrom? skip prev s = some m) :
    ∃ u c c', m.text = u ++ m.group n ∧ Leads (seqs ps) c c' ∧ c.Takes u c' := by
  obtain ⟨c', hplaces, hgroups⟩ := places_of_findFrom? h
  obtain ⟨c₁, hps, hend⟩ := (leads_seqs_append ps _).1 hplaces.leads
  obtain ⟨c₂, hgroup, hnil⟩ := leads_seqs_cons.1 hend
  obtain rfl := leads_nothing.1 hnil
  obtain ⟨d, hq, rfl⟩ := leads_group.1 hgroup
  obtain ⟨u, hu⟩ := hps.takes
  obtain ⟨t, ht⟩ := hq.takes
  have htext := text_recorded rfl hu ht n
  refine ⟨u, _, c₁, ?_, hps, hu⟩
  have hlast : m.group n = t := by
    rw [Match.group, Match.group?, hgroups, Cursor.record, List.map_cons, List.lookup_cons_self]
    exact htext
  rw [hlast]
  exact hplaces.takes.unique (hu.trans (ht.record n c₁))

end

/-- Replacing matches by texts that nest alike keeps the nesting of a text. -/
theorem sameNesting_rewriteFrom {f : Match → Bytes}
    (hf : ∀ prev s m, p.findFrom? 0 prev s = some m → SameNesting (f m) m.text)
    (prev : Option UInt8) (s : Bytes) : SameNesting (p.rewriteFrom f prev s) s := by
  induction hlen : s.length using Nat.strongRecOn generalizing s prev with
  | _ k ih =>
    rw [rewriteFrom_eq]
    cases hfind : p.findFrom? 0 prev s with
    | none => exact .refl s
    | some m =>
      dsimp only
      split
      · rename_i hlt
        have hrest := ih _ (hlen ▸ hlt) m.text.getLast? m.after rfl
        have hall := ((SameNesting.refl m.before).append (hf prev s m hfind)).append hrest
        rwa [text_of_findFrom? hfind] at hall
      · exact .refl s

theorem sameNesting_replaceWith {f : Match → Bytes}
    (hf : ∀ prev s m, p.findFrom? 0 prev s = some m → SameNesting (f m) m.text) (s : Bytes) :
    SameNesting (p.replaceWith f s) s :=
  sameNesting_rewriteFrom hf none s

/-- Replacing matches without parentheses by texts without parentheses keeps the nesting. -/
theorem sameNesting_replaceWith_of_parens {f : Match → Bytes} (hp : p.parenFree = true)
    (hf : ∀ prev s m, p.findFrom? 0 prev s = some m → parens (f m) = []) (s : Bytes) :
    SameNesting (p.replaceWith f s) s :=
  sameNesting_replaceWith (fun prev s m h =>
    sameNesting_of_parens ((hf prev s m h).trans (parens_text hp h).symm)) s

theorem sameNesting_replace (hp : p.parenFree = true) {new : Bytes} (hnew : parens new = [])
    (s : Bytes) : SameNesting (p.replace new s) s :=
  sameNesting_replaceWith_of_parens hp (fun _ _ _ _ => hnew) s

end Pattern

/-! ## What parentheses enclose -/

/-- The search for a partner goes through a text that is nested correctly. -/
theorem nest_of_scanParen {depth pos i : Nat} {s : Bytes}
    (h : scanParen (depth + 1 : Nat) pos s = some i) :
    pos ≤ i ∧ nest depth (s.take (i - pos)) = some 0 := by
  induction s generalizing depth pos with
  | nil => cases h
  | cons b s ih =>
    -- the search counts the parenthesis it is in, so it stands one deeper than the text
    have hnext : ∀ depth' : Nat, scanParen (depth' + 1 : Nat) (pos + 1) s = some i →
        (∀ t, nest depth (b :: t) = nest depth' t) →
        pos ≤ i ∧ nest depth ((b :: s).take (i - pos)) = some 0 := by
      intro depth' h hb
      obtain ⟨hle, hnest⟩ := ih h
      have hsucc : i - pos = (i - (pos + 1)) + 1 := by omega
      rw [hsucc, List.take_succ_cons, hb]
      exact ⟨by omega, hnest⟩
    rw [scanParen] at h
    split at h
    · rename_i hopen
      subst hopen
      exact hnext (depth + 1) h fun t => rfl
    · rename_i hopen
      split at h
      · rename_i hclose
        subst hclose
        split at h
        · rename_i hone
          obtain rfl := Option.some.inj h
          obtain rfl : depth = 0 := by omega
          simp
        · rename_i hone
          obtain ⟨depth', rfl⟩ : ∃ depth', depth = depth' + 1 :=
            Nat.exists_eq_add_one_of_ne_zero (by omega)
          refine hnext depth' ?_ fun t => rfl
          rwa [show ((depth' + 1 + 1 : Nat) : Int) - 1 = ((depth' + 1 : Nat) : Int) by omega] at h
      · rename_i hclose
        exact hnext depth h fun t => nest_cons_of_ne hopen hclose depth t

/-- What lies between a parenthesis and its partner is balanced. -/
theorem balanced_of_splitParen? {s arg rest : Bytes} (h : splitParen? s = some (arg, rest)) :
    Balanced arg := by
  obtain ⟨i, hi, heq⟩ := Option.map_eq_some_iff.1 h
  obtain ⟨rfl, rfl⟩ := Prod.mk.inj heq
  obtain ⟨-, hnest⟩ := @nest_of_scanParen 0 _ _ _ hi
  exact balanced_iff.2 hnest

/-- The search for the partner of a parenthesis passes over a text that leads down to the depth where
it is. -/
theorem scanParen_of_nest {depth : Nat} {a : Bytes} (h : nest depth a = some 0) (pos : Nat)
    (r : Bytes) : scanParen (depth + 1 : Nat) pos (a ++ closeParen :: r) = some (pos + a.length) := by
  induction a generalizing depth pos with
  | nil =>
    obtain rfl : depth = 0 := Option.some.inj h
    rfl
  | cons b a ih =>
    -- each byte leaves the text behind it nested from some depth on, and the search one deeper
    have hnext : ∀ depth' : Nat, nest depth' a = some 0 →
        scanParen (depth' + 1 : Nat) (pos + 1) (a ++ closeParen :: r)
          = some (pos + (b :: a).length) := by
      intro depth' h
      rw [ih h, List.length_cons]
      congr 1
      omega
    rw [List.cons_append, scanParen]
    by_cases hopen : b = openParen
    · subst hopen
      rw [if_pos rfl]
      exact hnext (depth + 1) h
    · rw [if_neg hopen]
      by_cases hclose : b = closeParen
      · subst hclose
        cases depth with
        | zero => cases h
        | succ depth =>
          rw [if_pos rfl, if_neg (by omega),
            show ((depth + 1 + 1 : Nat) : Int) - 1 = ((depth + 1 : Nat) : Int) by omega]
          exact hnext depth h
      · rw [if_neg hclose]
        exact hnext depth ((nest_cons_of_ne hopen hclose depth a).symm.trans h)

/-- A balanced text between parentheses is what the first encloses. -/
theorem Balanced.splitParen? {a : Bytes} (h : Balanced a) (r : Bytes) :
    SqlDialect.splitParen? (a ++ closeParen :: r) = some (a, r) := by
  have hscan := scanParen_of_nest (balanced_iff.1 h) 0 r
  rw [Nat.zero_add] at hscan
  rw [SqlDialect.splitParen?, show (1 : Int) = ((0 + 1 : Nat) : Int) from rfl, hscan,
    Option.map_some]
  simp

/-! ## Cuts outside parentheses -/

/-- What stands in front of a place outside the parentheses of a balanced text is balanced. -/
theorem Balanced.of_depth {a b : Bytes} (h : Balanced (a ++ b)) (hdepth : depthAfter 0 a = 0) :
    Balanced a := by
  rw [balanced_iff] at h ⊢
  rw [nest_append] at h
  cases hnest : nest 0 a with
  | none =>
    rw [hnest] at h
    cases h
  | some depth => rw [← hdepth, depthAfter_of_nest hnest]

/-- A balanced text is cut into balanced texts at a clause. -/
theorem Balanced.splitAtClause {ps : List Pattern} (hps : ∀ p ∈ ps, p.Consumes) {s : Bytes}
    (h : Balanced s) :
    Balanced (SqlDialect.splitAtClause ps s).1 ∧ Balanced (SqlDialect.splitAtClause ps s).2 := by
  have hsplit := splitAtClause_append ps s
  have hfirst : Balanced (SqlDialect.splitAtClause ps s).1 := by
    rw [SqlDialect.splitAtClause, List.splitAt_eq]
    rcases topIndex_cases ps s with hindex | ⟨p, hp, m, hm, hlen⟩
    · rwa [hindex, List.take_length]
    · obtain ⟨hs, -⟩ := Pattern.places_of_findTop? (hps p hp) hm
      rw [hs, List.append_assoc] at h
      have hbefore := h.of_depth (depth_of_findTop? hm)
      rwa [← hlen, hs, List.append_assoc, List.take_left' rfl]
  rw [← hsplit] at h
  exact ⟨hfirst, h.of_append hfirst⟩

/-- The parts of a text between the commas outside its parentheses are balanced, from the depth at
which the first part starts. -/
theorem nest_splitTopFrom {depth : Nat} {s : Bytes} (h : nest depth s = some 0) :
    ∃ first rest, splitTopFrom depth s = first :: rest ∧ nest depth first = some 0 ∧
      ∀ part ∈ rest, Balanced part := by
  induction s generalizing depth with
  | nil => exact ⟨[], [], rfl, h, fun _ hpart => absurd hpart List.not_mem_nil⟩
  | cons b s ih =>
    rw [splitTopFrom]
    split
    · rename_i hcomma
      obtain ⟨rfl, rfl⟩ := hcomma
      obtain ⟨first, rest, hparts, hfirst, hrest⟩ := @ih 0 h
      refine ⟨[], first :: rest, by rw [hparts], rfl, ?_⟩
      exact List.forall_mem_cons.2 ⟨balanced_iff.2 hfirst, hrest⟩
    · obtain ⟨d, hstep, hrest⟩ := Option.bind_eq_some_iff.1 h
      obtain ⟨first, rest, hparts, hfirst, hparts'⟩ := ih hrest
      refine ⟨b :: first, rest, by rw [stepDepth_of_nestStep hstep, hparts]; rfl, ?_, hparts'⟩
      rw [nest_cons, hstep]
      exact hfirst

/-- The parts of a balanced text are balanced. -/
theorem Balanced.splitTop {s : Bytes} (h : Balanced s) : ∀ part ∈ splitTop s, Balanced part := by
  obtain ⟨first, rest, hparts, hfirst, hrest⟩ := nest_splitTopFrom (balanced_iff.1 h)
  rw [SqlDialect.splitTop, hparts]
  exact List.forall_mem_cons.2 ⟨balanced_iff.2 hfirst, hrest⟩

/-- The items of a balanced text are balanced. -/
theorem Balanced.items {s : Bytes} (h : Balanced s) : ∀ p ∈ items s, Balanced p.core := by
  intro p hp
  obtain ⟨part, hpart, rfl⟩ := List.mem_map.1 hp
  have hcore : parens (Spaced.ofText part).core = parens part :=
    (filter_ofText (fun _ => isParen_of_isBlank) part).2
  exact (sameNesting_of_parens hcore).balanced_iff.2 (h.splitTop part hpart)

/-! ## Lists of balanced texts -/

/-- The parts of a list of balanced texts are the parts of these. -/
theorem splitTop_join_balanced {parts : List Bytes} (hne : parts ≠ [])
    (hparts : ∀ part ∈ parts, Balanced part) :
    splitTop (join [comma] parts) = parts.flatMap splitTop :=
  splitTop_join hne fun part hpart =>
    depthAfter_of_nest (balanced_iff.1 (hparts part (List.dropLast_subset parts hpart)))

/-- Balanced texts make up a balanced list. -/
theorem balanced_join {sep : Bytes} (hsep : parens sep = []) {parts : List Bytes}
    (h : ∀ part ∈ parts, Balanced part) : Balanced (join sep parts) := by
  induction parts with
  | nil => exact balanced_nil
  | cons part parts ih =>
    obtain ⟨hpart, hparts⟩ := List.forall_mem_cons.1 h
    cases parts with
    | nil => simpa [join] using hpart
    | cons next parts =>
      rw [join_cons_cons]
      exact hpart.append ((balanced_of_parens hsep).append (ih hparts))

/-- A text without commas outside parentheses goes to the first part as a whole. -/
theorem splitTopFrom_append_plain {depth : Nat} {a : Bytes}
    (h : ∀ b ∈ a, isParen b = false ∧ (b = comma → depth ≠ 0)) (s : Bytes) :
    splitTopFrom depth (a ++ s) = a.foldr consPart (splitTopFrom depth s) := by
  induction a with
  | nil => rfl
  | cons b a ih =>
    obtain ⟨⟨hparen, hcomma⟩, ha⟩ := List.forall_mem_cons.1 h
    rw [isParen, Bool.or_eq_false_iff, beq_eq_false_iff_ne, beq_eq_false_iff_ne] at hparen
    have hdepth : stepDepth depth b = depth := by
      rw [stepDepth, if_neg hparen.1, if_neg hparen.2]
    rw [List.cons_append, splitTopFrom, if_neg fun hb => hcomma hb.1 hb.2, hdepth, ih ha]
    rfl

theorem foldr_consPart_singleton (a s : Bytes) : a.foldr consPart [s] = [a ++ s] := by
  induction a with
  | nil => rfl
  | cons b a ih =>
    rw [List.foldr_cons, ih]
    rfl

end SqlDialect
