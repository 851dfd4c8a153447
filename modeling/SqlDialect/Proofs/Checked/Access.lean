import SqlDialect.Proofs.Text.Bytes
import SqlDialect.Text.Access

set_option autoImplicit false

/-! # Accesses in range

An access is in range where the text is known to fall into parts: a place is then the length of what
stands in front of it. A run of accesses that are all in range is a result. -/

namespace SqlDialect

variable {α β : Type}

/-- Goes on with a result, of which what follows knows where it comes from. -/
def bindKnown (x : Except Fault α) (f : (a : α) → x = .ok a → Except Fault β) : Except Fault β :=
  match x, f with
  | .ok a, f => f a rfl
  | .error e, _ => .error e

namespace Bytes

/-- Where `part` occurs first. -/
def placeOf? (part s : Bytes) : Option Nat :=
  (cut? part s).map fun (before, _) => before.length

/-- Where the byte `sep` occurs last. -/
def lastPlaceOf? (sep : UInt8) (s : Bytes) : Option Nat :=
  (cutLast? sep s).map fun (before, _) => before.length

/-- Where a text occurs first, it lies between what is in front of it and what is behind it. -/
theorem parts_of_placeOf? {part s : Bytes} {i : Nat} (h : placeOf? part s = some i) :
    ∃ before after, cut? part s = some (before, after) ∧ s = before ++ part ++ after ∧
      before.length = i := by
  obtain ⟨⟨before, after⟩, hcut, rfl⟩ := Option.map_eq_some_iff.1 h
  exact ⟨before, after, hcut, eq_append_of_cut? hcut, rfl⟩

end Bytes

/-! ## Running -/

@[simp] theorem ok_bind (a : α) (f : α → Except Fault β) :
    ((Except.ok a : Except Fault α) >>= f) = f a := rfl

@[simp] theorem pure_eq_ok (a : α) : (pure a : Except Fault α) = .ok a := rfl

theorem bindKnown_ok {x : Except Fault α} {a : α} (h : x = .ok a)
    (f : (a : α) → x = .ok a → Except Fault β) : bindKnown x f = f a h := by
  subst h
  rfl

theorem mapM_ok {f : α → Except Fault β} {g : α → β} {as : List α}
    (h : ∀ a ∈ as, f a = .ok (g a)) : as.mapM f = .ok (as.map g) := by
  induction as with
  | nil => rfl
  | cons a as ih =>
    obtain ⟨ha, has⟩ := List.forall_mem_cons.1 h
    rw [List.mapM_cons, ha, ok_bind, ih has, ok_bind]
    rfl

/-- Writes `f a` for each element `a` into a list, from a place on. -/
def writeFrom (f : α → Except Fault β) (i : Nat) (out : List β) : List α → Except Fault (List β)
  | [] => return out
  | a :: as => do
    let b ← f a
    let out ← setAt out i b
    writeFrom f (i + 1) out as

/-- Writes `f a` for each element `a` into a list of the same length. -/
def writeEach (blank : β) (f : α → Except Fault β) (as : List α) : Except Fault (List β) :=
  writeFrom f 0 (List.replicate as.length blank) as

/-- A loop whose steps are all in range, under an invariant that they keep. -/
theorem foldlM_ok {P : β → Prop} {f : β → α → Except Fault β} {g : β → α → β} {as : List α}
    (h : ∀ b, ∀ a ∈ as, P b → f b a = .ok (g b a) ∧ P (g b a)) {b : β} (hb : P b) :
    as.foldlM f b = .ok (as.foldl g b) ∧ P (as.foldl g b) := by
  induction as generalizing b with
  | nil => exact ⟨rfl, hb⟩
  | cons a as ih =>
    obtain ⟨hstep, hinv⟩ := h b a List.mem_cons_self hb
    rw [List.foldlM_cons, hstep, ok_bind, List.foldl_cons]
    exact ih (fun b a ha => h b a (List.mem_cons_of_mem _ ha)) hinv

/-! ## Elements and stretches -/

theorem elementAt_eq {l a b : List α} {x : α} {i : Int} (hl : l = a ++ x :: b)
    (hi : i = a.length) : elementAt l i = .ok x := by
  subst hl hi
  simp [elementAt]

theorem setAt_eq {l a b : List α} {x : α} {i : Int} (hl : l = a ++ x :: b) (hi : i = a.length)
    (y : α) : setAt l i y = .ok (a ++ y :: b) := by
  subst hl hi
  have hlt : (a.length : Int) < (a ++ x :: b).length := by
    rw [List.length_append, List.length_cons]
    omega
  rw [setAt, if_pos ⟨Int.natCast_nonneg _, hlt⟩, Int.toNat_natCast,
    List.set_append_right _ _ (Nat.le_refl _), Nat.sub_self]
  rfl

theorem slice_eq {l a b c : List α} {low high : Int} (hl : l = a ++ b ++ c)
    (hlow : low = a.length) (hhigh : high = a.length + b.length) : slice l low high = .ok b := by
  subst hl hlow hhigh
  have hend : ¬ ((a.length + b.length : Int) < 0 ∨
      ((a ++ b ++ c).length : Int) < a.length + b.length) := by
    simp only [List.length_append]
    omega
  have hstart : ¬ ((a.length : Int) < 0 ∨ (a.length + b.length : Int) < a.length) := by omega
  have htake : ((a.length : Int) + b.length).toNat = (a ++ b).length := by
    simp only [List.length_append]
    omega
  rw [slice, if_neg hend, if_neg hstart, htake, List.take_left' rfl, Int.toNat_natCast,
    List.drop_left' rfl]

theorem sliceFrom_eq {l a b : List α} {low : Int} (hl : l = a ++ b) (hlow : low = a.length) :
    sliceFrom l low = .ok b := by
  refine slice_eq (a := a) (c := []) (by rw [hl, List.append_nil]) hlow ?_
  rw [hl, List.length_append, Int.natCast_add]

theorem sliceTo_eq {l a b : List α} {high : Int} (hl : l = a ++ b) (hhigh : high = a.length) :
    sliceTo l high = .ok a :=
  slice_eq (a := []) (c := b) (by rw [hl, List.nil_append]) rfl (by simp [hhigh])

theorem writeFrom_eq (f : α → Except Fault β) (as : List α) (written left : List β)
    (h : left.length = as.length) :
    writeFrom f written.length (written ++ left) as = (as.mapM f).map (written ++ ·) := by
  induction as generalizing written left with
  | nil =>
    obtain rfl := List.length_eq_zero_iff.1 h
    rfl
  | cons a as ih =>
    obtain ⟨x, left, rfl⟩ := List.exists_cons_of_length_eq_add_one h
    rw [writeFrom, List.mapM_cons]
    cases f a with
    | error e => rfl
    | ok b =>
      have hnext := ih (written ++ [b]) left (Nat.succ.inj h)
      rw [List.append_assoc, List.length_append] at hnext
      rw [ok_bind, ok_bind, setAt_eq rfl rfl, ok_bind]
      refine hnext.trans ?_
      cases as.mapM f with
      | error e => rfl
      | ok bs => exact congrArg Except.ok (List.append_assoc _ _ _)

/-- Every element has its place in a list of the same length. -/
theorem writeEach_eq (blank : β) (f : α → Except Fault β) (as : List α) :
    writeEach blank f as = as.mapM f := by
  have h := writeFrom_eq f as [] (List.replicate as.length blank) List.length_replicate
  refine h.trans ?_
  cases as.mapM f <;> rfl

theorem writeEach_ok (blank : β) {f : α → Except Fault β} {g : α → β} {as : List α}
    (h : ∀ a ∈ as, f a = .ok (g a)) : writeEach blank f as = .ok (as.map g) :=
  (writeEach_eq blank f as).trans (mapM_ok h)

/-- The first element can be read where there is one. -/
theorem elementAt_cons (a : α) (l : List α) : elementAt (a :: l) 0 = .ok a := rfl

/-- A text of two or more elements has two ends, and something between them. -/
theorem exists_between_ends {l : List α} (h : 2 ≤ l.length) :
    ∃ a inner z, l = a :: (inner ++ [z]) ∧ elementAt l ((l.length : Int) - 1) = .ok z ∧
      slice l 1 ((l.length : Int) - 1) = .ok inner := by
  obtain ⟨a, rest, rfl⟩ := List.exists_cons_of_length_pos (by omega : 0 < l.length)
  rcases List.eq_nil_or_concat rest with rfl | ⟨inner, z, rfl⟩
  · exact absurd h (by simp)
  · refine ⟨a, inner, z, by simp, elementAt_eq (a := a :: inner) (b := []) (by simp) (by simp), ?_⟩
    exact slice_eq (a := [a]) (c := [z]) (by simp) rfl (by simp; omega)

/-- A stretch that runs to the end is what is left without what stands in front of it. -/
theorem eq_drop_of_sliceFrom {l r : List α} {n : Nat} (h : sliceFrom l n = .ok r) :
    r = l.drop n := by
  rw [sliceFrom, slice] at h
  split at h
  · exact absurd h (by simp)
  · split at h
    · exact absurd h (by simp)
    · simpa using h.symm

theorem elementAt_of_getElem? {l : List α} {n : Nat} {a : α} (h : l[n]? = some a) :
    elementAt l n = .ok a := by
  simp [elementAt, h]

end SqlDialect
