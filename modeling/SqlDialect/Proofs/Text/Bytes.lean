import SqlDialect.Text.Bytes

set_option autoImplicit false

/-! # Fixed sequences and numbers in byte text

Reading off a fixed lead or trail is the inverse of appending it, and the digits that are written
for a number read back as that number. The range of what can be read is that of signed 64-bit
integers, so the statements about reading carry that bound. Texts are sorted byte by byte. -/

namespace SqlDialect

namespace Bytes

/-! ## Leads and trails -/

theorem dropLead?_append (lead s : Bytes) : dropLead? lead (lead ++ s) = some s := by
  induction lead with
  | nil => rfl
  | cons a lead ih => simp [dropLead?, ih]

theorem eq_append_of_dropLead? {lead s rest : Bytes} (h : dropLead? lead s = some rest) :
    s = lead ++ rest := by
  fun_induction dropLead? lead s with
  | case1 s => simpa using h
  | case2 => simp at h
  | case3 lead b s ih => simp [ih h]
  | case4 => simp at h

theorem eq_append_of_cut? {sep s before rest : Bytes} (h : cut? sep s = some (before, rest)) :
    s = before ++ sep ++ rest := by
  induction s generalizing before with
  | nil =>
    obtain ⟨r, hr, heq⟩ := Option.map_eq_some_iff.1 h
    cases heq
    exact eq_append_of_dropLead? hr
  | cons b s ih =>
    rw [cut?] at h
    split at h
    · rename_i r hr
      cases h
      exact eq_append_of_dropLead? hr
    · obtain ⟨⟨before', rest'⟩, hcut, heq⟩ := Option.map_eq_some_iff.1 h
      cases heq
      rw [ih hcut]
      rfl

theorem dropTrail?_append (s trail : Bytes) : dropTrail? trail (s ++ trail) = some s := by
  rw [dropTrail?, List.reverse_append, dropLead?_append]
  simp

theorem startsWith_iff {s lead : Bytes} : startsWith s lead = true ↔ lead <+: s := by
  rw [startsWith, Option.isSome_iff_exists]
  constructor
  · rintro ⟨rest, h⟩
    exact ⟨rest, (eq_append_of_dropLead? h).symm⟩
  · rintro ⟨rest, rfl⟩
    exact ⟨rest, dropLead?_append lead rest⟩

theorem endsWith_iff {s trail : Bytes} : endsWith s trail = true ↔ trail <:+ s := by
  rw [endsWith, dropTrail?, Option.isSome_map, ← List.reverse_prefix]
  exact startsWith_iff

/-! ## The end of a text -/

theorem head?_dropWhile {q : UInt8 → Bool} (s : Bytes) :
    ∀ x ∈ (s.dropWhile q).head?, q x = false := by
  intro x hx
  have hnot := List.head?_dropWhile_not q s
  rw [hx] at hnot
  exact hnot

theorem getLast?_dropTailWhile {q : UInt8 → Bool} (s : Bytes) :
    ∀ x ∈ (dropTailWhile q s).getLast?, q x = false := by
  rw [dropTailWhile, List.getLast?_reverse]
  exact head?_dropWhile s.reverse

theorem dropWhile_of_forall {q : UInt8 → Bool} {s : Bytes} (h : ∀ b ∈ s, q b = true) :
    s.dropWhile q = [] := by
  have hall : (s ++ []).dropWhile q = List.dropWhile q [] := List.dropWhile_append_of_pos h
  rwa [List.append_nil, List.dropWhile_nil] at hall

theorem dropTailWhile_of_forall {q : UInt8 → Bool} {s : Bytes} (h : ∀ b ∈ s, q b = true) :
    dropTailWhile q s = [] := by
  rw [dropTailWhile, List.reverse_eq_nil_iff]
  exact dropWhile_of_forall fun b hb => h b (List.mem_reverse.1 hb)

theorem dropTailWhile_append {p : UInt8 → Bool} {a : Bytes} (ha : ∀ x ∈ a.getLast?, p x = false)
    (b : Bytes) : dropTailWhile p (a ++ b) = a ++ dropTailWhile p b := by
  have hkeep : a.reverse.dropWhile p = a.reverse := by
    cases hrev : a.reverse with
    | nil => rfl
    | cons x r =>
      have hx := ha x (by rw [← List.head?_reverse, hrev]; rfl)
      rw [List.dropWhile_cons, if_neg (by rw [hx]; exact Bool.false_ne_true)]
  rw [dropTailWhile, dropTailWhile, List.reverse_append, List.dropWhile_append]
  split
  · rename_i hempty
    rw [hkeep, List.reverse_reverse, List.isEmpty_iff.1 hempty]
    simp
  · rw [List.reverse_append, List.reverse_reverse]

theorem dropTailWhile_prefix (p : UInt8 → Bool) (s : Bytes) : dropTailWhile p s <+: s := by
  have hsuffix : s.reverse.dropWhile p <:+ s.reverse := List.dropWhile_suffix p
  rwa [← List.reverse_prefix, List.reverse_reverse] at hsuffix

theorem dropTailWhile_append_drop (p : UInt8 → Bool) (s : Bytes) :
    dropTailWhile p s ++ s.drop (dropTailWhile p s).length = s :=
  List.prefix_iff_eq_append.1 <| dropTailWhile_prefix p s

/-- What is dropped off the end of a text are bytes that count. -/
theorem of_mem_drop_dropTailWhile {p : UInt8 → Bool} {s : Bytes} {b : UInt8}
    (hb : b ∈ s.drop (dropTailWhile p s).length) : p b = true := by
  have hcut : s = dropTailWhile p s ++ (s.reverse.takeWhile p).reverse := by
    rw [dropTailWhile, ← List.reverse_append, List.takeWhile_append_dropWhile, List.reverse_reverse]
  have htail : s.drop (dropTailWhile p s).length = (s.reverse.takeWhile p).reverse :=
    (congrArg (List.drop _) hcut).trans (List.drop_left' rfl)
  rw [htail, List.mem_reverse] at hb
  exact List.all_eq_true.1 List.all_takeWhile b hb

/-- What is dropped off the end depends only on the end, if that is not dropped as a whole. -/
theorem dropTailWhile_append_of_ne_nil {p : UInt8 → Bool} (a : Bytes) {b : Bytes}
    (hb : dropTailWhile p b ≠ []) : dropTailWhile p (a ++ b) = a ++ dropTailWhile p b := by
  have hkeep : (b.reverse.dropWhile p).isEmpty = false := by
    rw [List.isEmpty_eq_false_iff]
    exact fun hnil => hb (by rw [dropTailWhile, hnil]; rfl)
  rw [dropTailWhile, dropTailWhile, List.reverse_append, List.dropWhile_append, if_neg (by simp [hkeep]),
    List.reverse_append, List.reverse_reverse]

/-! ## Replacing a byte -/

theorem replaceAll_cons (q : UInt8) (new : Bytes) (b : UInt8) (s : Bytes) :
    replaceAll [q] new (b :: s) = (if b = q then new else [b]) ++ replaceAll [q] new s := by
  have hstart : startsWith (b :: s) [q] = true ↔ q = b := by
    simp [startsWith, dropLead?]
  rw [replaceAll, replaceFrom, List.length_singleton, Nat.sub_self]
  by_cases hb : b = q
  · rw [if_pos (hstart.2 hb.symm), if_pos hb]
    rfl
  · rw [if_neg fun h => hb (hstart.1 h).symm, if_neg hb]
    rfl

theorem replaceAll_of_notMem {q : UInt8} {new s : Bytes} (h : q ∉ s) :
    replaceAll [q] new s = s := by
  induction s with
  | nil => rfl
  | cons b s ih =>
    rw [List.mem_cons, not_or] at h
    rw [replaceAll_cons, if_neg (Ne.symm h.1), ih h.2, List.singleton_append]

/-! ## Parts between separators -/

theorem splitOnByte_ne_nil (sep : UInt8) (s : Bytes) : splitOnByte sep s ≠ [] := by
  cases s with
  | nil => exact List.cons_ne_nil _ _
  | cons b s =>
    rw [splitOnByte]
    split
    · exact List.cons_ne_nil _ _
    · split
      · exact List.cons_ne_nil _ _
      · exact List.cons_ne_nil _ _

theorem join_cons_cons (sep part next : Bytes) (parts : List Bytes) :
    join sep (part :: next :: parts) = part ++ (sep ++ join sep (next :: parts)) := by
  simp [join, List.intercalate]

/-! ## Digits -/

theorem isDigit_iff (b : UInt8) : isDigit b = true ↔ 48 ≤ b.toNat ∧ b.toNat ≤ 57 := by
  simp [isDigit, UInt8.le_iff_toNat_le]

/-- The byte of a digit character has the same code. -/
theorem toNat_byte_of_isDigit {c : Char} (hc : c.isDigit = true) :
    c.toNat.toUInt8.toNat = c.toNat ∧ 48 ≤ c.toNat ∧ c.toNat ≤ 57 := by
  have hrange : 48 ≤ c.toNat ∧ c.toNat ≤ 57 := Char.isDigit_iff_toNat.1 hc
  refine ⟨?_, hrange⟩
  rw [Nat.toUInt8, UInt8.toNat_ofNat']
  omega

theorem decimal_ne_nil (n : Nat) : decimal n ≠ [] := by
  intro h
  rw [decimal, List.map_eq_nil_iff] at h
  exact Nat.toDigits_ne_nil h

theorem isDigit_of_mem_decimal {n : Nat} {b : UInt8} (hb : b ∈ decimal n) : isDigit b = true := by
  rw [decimal, List.mem_map] at hb
  obtain ⟨c, hc, rfl⟩ := hb
  have hdigit : c.isDigit = true := Nat.isDigit_of_mem_toDigits (by decide) (by decide) hc
  obtain ⟨hbyte, hrange⟩ := toNat_byte_of_isDigit hdigit
  rw [isDigit_iff, hbyte]
  exact hrange

/-- Reading the bytes of digit characters is reading the characters. -/
theorem foldl_bytes_of_digits (cs : List Char) (hcs : ∀ c ∈ cs, c.isDigit = true) (init : Nat) :
    (cs.map fun c => c.toNat.toUInt8).foldl (fun n b => n * 10 + (b.toNat - 48)) init
      = Nat.ofDigitChars 10 cs init := by
  induction cs generalizing init with
  | nil => rfl
  | cons c cs ih =>
    have hc := (toNat_byte_of_isDigit (hcs c List.mem_cons_self)).1
    have htail := ih (fun c' hc' => hcs c' (List.mem_cons_of_mem c hc'))
    rw [List.map_cons, List.foldl_cons, htail, Nat.ofDigitChars_cons, hc, Nat.mul_comm init 10]
    rfl

/-- The text of a number has that number as its value. -/
theorem digitsValue_decimal (n : Nat) : digitsValue (decimal n) = n := by
  have hdigits : ∀ c ∈ Nat.toDigits 10 n, c.isDigit = true :=
    fun c hc => Nat.isDigit_of_mem_toDigits (by decide) (by decide) hc
  rw [digitsValue, decimal, foldl_bytes_of_digits _ hdigits]
  simp

/-- The first number that does not fit into 64 bits with a sign. -/
def int64Limit : Nat := 9223372036854775808

/-- A run of digits is read as its value, if the value fits into 64 bits with a sign. -/
theorem toInt64?_of_digits {ds : Bytes} (hds : ∀ b ∈ ds, isDigit b = true) (hne : ds ≠ []) :
    toInt64? ds = if digitsValue ds < int64Limit then some (digitsValue ds : Int) else none := by
  have hall : ds.all isDigit = true := List.all_eq_true.2 hds
  cases ds with
  | nil => exact absurd rfl hne
  | cons b ds =>
    have hb := (isDigit_iff b).1 (hds b List.mem_cons_self)
    have hplus : b ≠ 43 := by rintro rfl; exact absurd hb (by decide)
    have hminus : b ≠ 45 := by rintro rfl; exact absurd hb (by decide)
    rw [int64Limit]
    simp [toInt64?, hplus, hminus, hall]

/-! ## The byte order -/

theorem le_trans {a b c : Bytes} (hab : le a b = true) (hbc : le b c = true) : le a c = true := by
  induction a generalizing b c with
  | nil => rfl
  | cons x a ih =>
    cases b with
    | nil => cases hab
    | cons y b =>
      cases c with
      | nil => cases hbc
      | cons z c =>
        simp only [le] at hab hbc ⊢
        by_cases hxy : x = y
        · subst hxy
          rw [if_pos rfl] at hab
          by_cases hxz : x = z
          · rw [if_pos hxz] at hbc ⊢
            exact ih hab hbc
          · rwa [if_neg hxz] at hbc ⊢
        · rw [if_neg hxy, decide_eq_true_eq] at hab
          have hlt : x < z := by
            by_cases hyz : y = z
            · rwa [← hyz]
            · rw [if_neg hyz, decide_eq_true_eq] at hbc
              exact UInt8.lt_trans hab hbc
          rw [if_neg (UInt8.ne_of_lt hlt), decide_eq_true_eq]
          exact hlt

theorem le_total (a b : Bytes) : (le a b || le b a) = true := by
  induction a generalizing b with
  | nil => rfl
  | cons x a ih =>
    cases b with
    | nil => rfl
    | cons y b =>
      simp only [le]
      by_cases heq : x = y
      · subst heq
        simpa using ih b
      · rw [if_neg heq, if_neg (Ne.symm heq), Bool.or_eq_true, decide_eq_true_eq, decide_eq_true_eq]
        exact UInt8.lt_or_lt_of_ne heq

theorem nodup_eraseDups (ts : List Bytes) : ts.eraseDups.Nodup := by
  match ts with
  | [] => exact List.nodup_nil
  | t :: ts =>
    rw [List.eraseDups_cons, List.nodup_cons, List.mem_eraseDups, List.mem_filter]
    have hshort := List.length_filter_le (fun b => !b == t) ts
    exact ⟨fun h => by simp at h, nodup_eraseDups _⟩
termination_by ts.length
decreasing_by exact Nat.lt_succ_of_le hshort

/-- Sorting texts without their repetitions puts them into strict order. -/
theorem pairwise_sorted_eraseDups (ts : List Bytes) :
    (sorted ts.eraseDups).Pairwise fun a b => le a b = true ∧ a ≠ b := by
  have hsorted : (sorted ts.eraseDups).Pairwise fun a b => le a b = true := by
    refine List.pairwise_mergeSort ?_ le_total _
    exact fun _ _ _ => le_trans
  have hnodup : (sorted ts.eraseDups).Nodup :=
    (List.mergeSort_perm _ _).nodup_iff.2 (nodup_eraseDups ts)
  exact hsorted.and hnodup

theorem mem_sorted_eraseDups {ts : List Bytes} {t : Bytes} :
    t ∈ sorted ts.eraseDups ↔ t ∈ ts := by
  rw [sorted, List.mem_mergeSort, List.mem_eraseDups]

end Bytes

end SqlDialect
