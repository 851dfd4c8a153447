import Mathlib.Data.Finset.Card
import Mathlib.Data.List.Nodup
import Mathlib.Logic.Relation
import SqlDialect.Schema.Order

set_option autoImplicit false

/-! # Referred tables come first

The order of the tables holds each of them once, and every table stands behind the tables that it
refers to, up to references on a cycle (`orderByReferences_topological`). A visit finishes tables and
leaves open exactly those that were open before (`TableOrder.Extends`). So whatever a table refers to
has been finished before it, or is open at that time; and every open table leads to the one that is
visited, which closes a cycle (`TableOrder.Sound.behind`).

The bound on the depth of visits is never what ends one (`TableOrder.visit_succ`): each visit on the
way to the present one has entered another table. -/

namespace SqlDialect

/-- The table refers to the target, which is listed. -/
def RefersTo (tables : List Bytes) (refs : List Reference) (table target : Bytes) : Prop :=
  target ∈ referencesOf refs table ∧ target ∈ tables

/-- There is a way from one table to the other along references to listed tables. -/
def LeadsTo (tables : List Bytes) (refs : List Reference) : Bytes → Bytes → Prop :=
  Relation.ReflTransGen (RefersTo tables refs)

namespace TableOrder

variable {tables : List Bytes} {refs : List Reference} {o o₁ o₂ o₃ : TableOrder} {r t x : Bytes}
  {depth : Nat}

/-! ## One visit -/

/-- The listed tables that a table refers to, in order. -/
def targetsOf (tables : List Bytes) (refs : List Reference) (table : Bytes) : List Bytes :=
  (referencesOf refs table).filter tables.contains

theorem mem_targetsOf : r ∈ targetsOf tables refs t ↔ RefersTo tables refs t r := by
  rw [targetsOf, List.mem_filter, List.contains_iff_mem, RefersTo]

theorem visit_of_mem (h : t ∈ o.entered) : visit tables refs depth o t = o := by
  cases depth with
  | zero => rfl
  | succ depth => rw [visit, if_pos (List.contains_iff_mem.2 h)]

theorem visit_of_notMem (h : t ∉ o.entered) :
    visit tables refs (depth + 1) o t
      = ((targetsOf tables refs t).foldl (visit tables refs depth) (o.enter t)).finish t := by
  rw [visit, if_neg (mt List.contains_iff_mem.1 h), targetsOf]

/-- What every visit keeps, visits one after the other keep. -/
theorem foldl_visit_induction {P : TableOrder → Prop} {rs : List Bytes} (hP : P o)
    (hvisit : ∀ o, P o → ∀ r ∈ rs, P (visit tables refs depth o r)) :
    P (rs.foldl (visit tables refs depth) o) := by
  induction rs generalizing o with
  | nil => exact hP
  | cons r rs ih =>
    exact ih (hvisit o hP r List.mem_cons_self) fun o h r hr =>
      hvisit o h r (List.mem_cons_of_mem _ hr)

/-! ## Depth -/

/-- The number of listed tables whose visit has not begun. -/
def room (tables : List Bytes) (o : TableOrder) : Nat :=
  (tables.toFinset \ o.entered.toFinset).card

theorem room_le (h : o₁.entered ⊆ o₂.entered) : room tables o₂ ≤ room tables o₁ := by
  refine Finset.card_le_card fun x hx => ?_
  rw [Finset.mem_sdiff, List.mem_toFinset, List.mem_toFinset] at hx ⊢
  exact ⟨hx.1, mt (@h x) hx.2⟩

theorem room_enter_lt (ht : t ∈ tables) (h : t ∉ o.entered) :
    room tables (o.enter t) < room tables o := by
  refine Finset.card_lt_card ⟨fun x hx => ?_, fun hsub => ?_⟩
  · rw [Finset.mem_sdiff, List.mem_toFinset, List.mem_toFinset] at hx ⊢
    exact ⟨hx.1, mt (List.mem_cons_of_mem t) hx.2⟩
  · have hmem : t ∈ tables.toFinset \ (o.enter t).entered.toFinset := hsub (by simp [ht, h])
    simp [enter] at hmem

theorem entered_visit (o : TableOrder) (t : Bytes) :
    o.entered ⊆ (visit tables refs depth o t).entered := by
  induction depth generalizing o t with
  | zero => exact List.Subset.refl _
  | succ depth ih =>
    by_cases h : t ∈ o.entered
    · rw [visit_of_mem h]
      exact List.Subset.refl _
    · rw [visit_of_notMem h]
      exact foldl_visit_induction (P := fun o' => o.entered ⊆ o'.entered)
        (List.subset_cons_self t o.entered) fun o' h' r _ => List.Subset.trans h' (ih o' r)

/-- Where the depth is enough for the tables that are left, a greater one makes no difference. -/
theorem visit_succ (ht : t ∈ tables) (hroom : room tables o ≤ depth) :
    visit tables refs (depth + 1) o t = visit tables refs depth o t := by
  induction depth generalizing o t with
  | zero =>
    have hmem : t ∈ o.entered := by
      by_contra h
      exact absurd (room_enter_lt ht h) (by omega)
    rw [visit_of_mem hmem, visit_of_mem hmem]
  | succ depth ih =>
    by_cases h : t ∈ o.entered
    · rw [visit_of_mem h, visit_of_mem h]
    · have hlt := room_enter_lt ht h
      rw [visit_of_notMem h, visit_of_notMem h]
      congr 1
      have hfold : ∀ (rs : List Bytes) (o : TableOrder), (∀ r ∈ rs, r ∈ tables) →
          room tables o ≤ depth →
          rs.foldl (visit tables refs (depth + 1)) o = rs.foldl (visit tables refs depth) o := by
        intro rs
        induction rs with
        | nil => exact fun _ _ _ => rfl
        | cons r rs ihrs =>
          intro o hrs hroom
          obtain ⟨hr, hrs⟩ := List.forall_mem_cons.1 hrs
          rw [List.foldl_cons, List.foldl_cons, ih hr hroom]
          exact ihrs _ hrs ((room_le (entered_visit o r)).trans hroom)
      exact hfold _ _ (fun r hr => (mem_targetsOf.1 hr).2) (by omega)

/-! ## What a visit leaves behind -/

/-- The visit of the table has begun and is not over. -/
def Open (o : TableOrder) (t : Bytes) : Prop :=
  t ∈ o.entered ∧ t ∉ o.finished

/-- Some tables have been finished since, and the same ones are open. -/
structure Extends (o o' : TableOrder) : Prop where
  finished : o.finished <+: o'.finished
  entered : o.entered ⊆ o'.entered
  isOpen_iff : ∀ x, o'.Open x ↔ o.Open x

theorem Extends.refl (o : TableOrder) : Extends o o :=
  ⟨List.prefix_refl _, List.Subset.refl _, fun _ => Iff.rfl⟩

theorem Extends.trans (h₁ : Extends o₁ o₂) (h₂ : Extends o₂ o₃) : Extends o₁ o₃ where
  finished := h₁.finished.trans h₂.finished
  entered := List.Subset.trans h₁.entered h₂.entered
  isOpen_iff x := (h₂.isOpen_iff x).trans (h₁.isOpen_iff x)

/-- The finished tables are listed ones, each once, and each stands behind the listed tables that it
refers to, unless these lead back to it. -/
structure Sound (tables : List Bytes) (refs : List Reference) (o : TableOrder) : Prop where
  nodup : o.finished.Nodup
  entered : o.finished ⊆ o.entered
  listed : o.entered ⊆ tables
  behind : ∀ u ∈ o.finished, ∀ r, RefersTo tables refs u r →
    LeadsTo tables refs r u ∨ [r, u].Sublist o.finished

/-- Tables have been visited: whatever was open before is still open, and nothing else. -/
structure Visited (tables : List Bytes) (refs : List Reference) (o : TableOrder) (ts : List Bytes)
    (o' : TableOrder) : Prop where
  sound : Sound tables refs o'
  grows : Extends o o'
  reached : ts ⊆ o'.entered

theorem Sound.enter (h : Sound tables refs o) (ht : t ∈ tables) : Sound tables refs (o.enter t) where
  nodup := h.nodup
  entered := List.Subset.trans h.entered (List.subset_cons_self t o.entered)
  listed := List.cons_subset.2 ⟨ht, h.listed⟩
  behind := h.behind

theorem isOpen_enter (h : Sound tables refs o) (ht : t ∉ o.entered) :
    (o.enter t).Open x ↔ x = t ∨ o.Open x := by
  rw [Open, Open, enter, List.mem_cons]
  constructor
  · rintro ⟨rfl | hx, hnot⟩
    · exact Or.inl rfl
    · exact Or.inr ⟨hx, hnot⟩
  · rintro (rfl | ⟨hx, hnot⟩)
    · exact ⟨Or.inl rfl, mt (@h.entered x) ht⟩
    · exact ⟨Or.inr hx, hnot⟩

/-- Finishing a table whose targets have been visited keeps the order sound. -/
theorem Sound.finish (h : Sound tables refs o) (ht : o.Open t)
    (htargets : targetsOf tables refs t ⊆ o.entered)
    (hopen : ∀ x, o.Open x → LeadsTo tables refs x t) : Sound tables refs (o.finish t) where
  nodup := h.nodup.append (List.nodup_singleton t) (by simpa using ht.2)
  entered := List.append_subset.2 ⟨h.entered, List.cons_subset.2 ⟨ht.1, List.nil_subset _⟩⟩
  listed := h.listed
  behind := by
    intro u hu r hr
    rcases List.mem_append.1 hu with hu | hu
    · exact (h.behind u hu r hr).imp_right fun hsub => hsub.trans (List.sublist_append_left _ _)
    · obtain rfl := List.mem_singleton.1 hu
      have hentered := htargets (mem_targetsOf.2 hr)
      by_cases hfinished : r ∈ o.finished
      · exact Or.inr ((List.singleton_sublist.2 hfinished).append (List.Sublist.refl [u]))
      · exact Or.inl (hopen r ⟨hentered, hfinished⟩)

/-- Visits one after the other, if each of them does what it should. -/
theorem visited_foldl {ts : List Bytes} (hts : ts ⊆ tables) (hsound : Sound tables refs o)
    (hroom : room tables o ≤ depth)
    (hopen : ∀ t ∈ ts, ∀ x, o.Open x → LeadsTo tables refs x t)
    (hvisit : ∀ o t, t ∈ tables → Sound tables refs o → room tables o ≤ depth →
      (∀ x, o.Open x → LeadsTo tables refs x t) →
        Visited tables refs o [t] (visit tables refs depth o t)) :
    Visited tables refs o ts (ts.foldl (visit tables refs depth) o) := by
  induction ts generalizing o with
  | nil => exact ⟨hsound, .refl o, List.nil_subset _⟩
  | cons t ts ih =>
    obtain ⟨ht, hts⟩ := List.cons_subset.1 hts
    obtain ⟨hopent, hopen⟩ := List.forall_mem_cons.1 hopen
    have hfirst := hvisit o t ht hsound hroom hopent
    have hrest := ih hts hfirst.sound ((room_le hfirst.grows.entered).trans hroom) fun u hu x hx =>
      hopen u hu x ((hfirst.grows.isOpen_iff x).1 hx)
    exact ⟨hrest.sound, hfirst.grows.trans hrest.grows, List.cons_subset.2
      ⟨hrest.grows.entered (hfirst.reached List.mem_cons_self), hrest.reached⟩⟩

/-- A visit of a listed table to which all open tables lead. -/
theorem visited_visit (ht : t ∈ tables) (hsound : Sound tables refs o) (hroom : room tables o ≤ depth)
    (hopen : ∀ x, o.Open x → LeadsTo tables refs x t) :
    Visited tables refs o [t] (visit tables refs depth o t) := by
  induction depth generalizing o t with
  | zero =>
    have hmem : t ∈ o.entered := by
      by_contra h
      exact absurd (room_enter_lt ht h) (by omega)
    rw [visit_of_mem hmem]
    exact ⟨hsound, .refl o, by simpa using hmem⟩
  | succ depth ih =>
    by_cases hmem : t ∈ o.entered
    · rw [visit_of_mem hmem]
      exact ⟨hsound, .refl o, by simpa using hmem⟩
    · rw [visit_of_notMem hmem]
      have hlt := room_enter_lt ht hmem
      -- all that is open now leads to the table, and so to whatever it refers to
      have hopen' : ∀ x, (o.enter t).Open x → LeadsTo tables refs x t := by
        intro x hx
        rcases (isOpen_enter hsound hmem).1 hx with rfl | hx
        · exact .refl
        · exact hopen x hx
      have hlisted : targetsOf tables refs t ⊆ tables := fun r hr => (mem_targetsOf.1 hr).2
      have hroom' : room tables (o.enter t) ≤ depth := by omega
      have htargets := visited_foldl hlisted (hsound.enter ht) hroom'
        (fun r hr x hx => (hopen' x hx).tail (mem_targetsOf.1 hr))
        fun o t ht hsound hroom hopen => ih ht hsound hroom hopen
      generalize (targetsOf tables refs t).foldl (visit tables refs depth) (o.enter t) = o' at htargets
      have hopent : o'.Open t :=
        (htargets.grows.isOpen_iff t).2 ((isOpen_enter hsound hmem).2 (Or.inl rfl))
      refine ⟨htargets.sound.finish hopent htargets.reached fun x hx =>
        hopen' x ((htargets.grows.isOpen_iff x).1 hx), ⟨?_, ?_, fun x => ?_⟩, ?_⟩
      · exact htargets.grows.finished.trans (List.prefix_append _ _)
      · exact List.Subset.trans (List.subset_cons_self t _) htargets.grows.entered
      · have hx : (o'.finish t).Open x ↔ o'.Open x ∧ x ≠ t := by
          simp [Open, finish, and_assoc]
        have hne : o.Open x → x ≠ t := fun h heq => hmem (heq ▸ h.1)
        rw [hx, htargets.grows.isOpen_iff, isOpen_enter hsound hmem]
        tauto
      · exact List.cons_subset.2 ⟨hopent.1, List.nil_subset _⟩

end TableOrder

open TableOrder

/-- A greater depth than there are tables makes no difference. -/
theorem foldl_visit_of_le (tables : List Bytes) (refs : List Reference) {depth : Nat}
    (h : tables.length ≤ depth) :
    tables.foldl (visit tables refs depth) {} = tables.foldl (visit tables refs tables.length) {} := by
  have hroom : ∀ o, room tables o ≤ tables.length := fun o =>
    (Finset.card_le_card Finset.sdiff_subset).trans (List.toFinset_card_le tables)
  induction depth, h using Nat.le_induction with
  | base => rfl
  | succ depth hle ih =>
    rw [← ih]
    refine List.foldl_ext _ _ _ fun o t ht => ?_
    exact visit_succ ht ((hroom o).trans hle)

/-- **The order of the tables.** Every listed table is in it once and nothing else is. A table that
another one refers to stands in front of it, unless there is a way back along references to listed
tables. The bound on the depth of visits makes no difference. -/
theorem orderByReferences_topological (tables : List Bytes) (refs : List Reference) :
    (∀ depth, tables.length ≤ depth →
      (tables.foldl (visit tables refs depth) {}).finished = orderByReferences tables refs) ∧
    (orderByReferences tables refs).Nodup ∧
    (∀ t, t ∈ orderByReferences tables refs ↔ t ∈ tables) ∧
    ∀ t ∈ tables, ∀ r ∈ tables, r ∈ referencesOf refs t → ¬ LeadsTo tables refs r t →
      [r, t].Sublist (orderByReferences tables refs) := by
  have hsound : Sound tables refs {} :=
    ⟨List.nodup_nil, List.nil_subset _, List.nil_subset _, fun _ hu => absurd hu List.not_mem_nil⟩
  have hnone : ∀ x, ¬ TableOrder.Open {} x := fun x hx => absurd hx.1 List.not_mem_nil
  have hvisited := visited_foldl (List.Subset.refl tables) hsound
    ((Finset.card_le_card Finset.sdiff_subset).trans (List.toFinset_card_le tables))
    (fun t _ x hx => absurd hx (hnone x)) fun o t => visited_visit
  -- at the end no visit is open, so all tables whose visit has begun are finished
  have hmem : ∀ t, t ∈ orderByReferences tables refs ↔ t ∈ tables := by
    intro t
    constructor
    · exact fun ht => hvisited.sound.listed (hvisited.sound.entered ht)
    · intro ht
      by_contra hnot
      exact hnone t ((hvisited.grows.isOpen_iff t).1 ⟨hvisited.reached ht, hnot⟩)
  refine ⟨fun depth hdepth => ?_, hvisited.sound.nodup, hmem, fun t ht r hr href hback => ?_⟩
  · rw [foldl_visit_of_le tables refs hdepth, orderByReferences]
  · exact (hvisited.sound.behind t ((hmem t).2 ht) r ⟨href, hr⟩).resolve_left hback

/-- A table that refers into a cycle of two others comes last, also where it is listed first. -/
theorem orderByReferences_topological_cycle :
    let tables := [ascii "a", ascii "b", ascii "c"]
    let refs : List Reference :=
      [⟨ascii "a", ascii "b"⟩, ⟨ascii "b", ascii "c"⟩, ⟨ascii "c", ascii "b"⟩]
    ¬ LeadsTo tables refs (ascii "b") (ascii "a") ∧
      [ascii "b", ascii "a"].Sublist (orderByReferences tables refs) := by
  intro tables refs
  have hcycle : ∀ t, LeadsTo tables refs (ascii "b") t → t = ascii "b" ∨ t = ascii "c" := by
    intro t h
    induction h with
    | refl => exact Or.inl rfl
    | @tail u v _ hstep ih =>
      have htargets : ∀ u, u = ascii "b" ∨ u = ascii "c" → ∀ v ∈ referencesOf refs u,
          v = ascii "b" ∨ v = ascii "c" := by
        rintro u (rfl | rfl) <;> decide
      exact htargets u ih v hstep.1
  have hback : ¬ LeadsTo tables refs (ascii "b") (ascii "a") := fun h => by
    exact absurd (hcycle _ h) (by decide)
  exact ⟨hback, (orderByReferences_topological tables refs).2.2.2 _ (by decide) _ (by decide)
    (by decide) hback⟩

end SqlDialect
