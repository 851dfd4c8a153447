import SqlDialect.Proofs.Checked.Access
import SqlDialect.Proofs.Literal.RoundTrip

set_option autoImplicit false

/-! # Literals by place

Taking literals out and putting them back with every byte read, and every stretch cut out, by its
place (`SqlDialect.Text.Access`). Each function here comes with the statement that no access is out
of range and that the result is that of the function of the same name which takes the text apart
instead.

One access can fail: the content of a literal is cut from its second byte on, which a literal
without any text does not have (`body_nil`). The literals of a statement start with their quotes. -/

namespace SqlDialect.Checked

/-! ## Literals and placeholders -/

/-- The content of a literal without its delimiters. -/
def body (l : Literal) : Except Fault Bytes :=
  if 2 ≤ l.text.length then do
    let last ← elementAt l.text ((l.text.length : Int) - 1)
    if last = l.quote then slice l.text 1 ((l.text.length : Int) - 1) else sliceFrom l.text 1
  else sliceFrom l.text 1

theorem body_ok {l : Literal} (h : l.text ≠ []) : body l = .ok l.body := by
  obtain ⟨q, text⟩ := l
  obtain ⟨a, rest, rfl⟩ := List.exists_cons_of_ne_nil h
  have hfrom : sliceFrom (a :: rest) 1 = .ok rest := sliceFrom_eq (a := [a]) rfl rfl
  by_cases hlen : 2 ≤ (a :: rest).length
  · obtain ⟨b, inner, z, hends, hlast, hinner⟩ := exists_between_ends hlen
    obtain ⟨rfl, rfl⟩ := List.cons.inj hends
    have hget : (a :: (inner ++ [z])).getLast? = some z := by
      rw [← List.cons_append, List.getLast?_concat]
    simp only [body, Literal.body, hlen, hlast, hinner, hfrom, hget, if_true, ok_bind]
    by_cases hz : z = q
    · simp [hz]
    · simp [hz]
  · obtain rfl : rest = [] := by
      rw [List.length_cons] at hlen
      exact List.length_eq_zero_iff.1 (by omega)
    exact hfrom

/-- Every literal has at least the quote that opens it. -/
def Delimited (t : LiteralTable) : Prop :=
  ∀ l ∈ t, l.text ≠ []

theorem body_ok_of_lookup? {t : LiteralTable} (ht : Delimited t) {token : Bytes} {l : Literal}
    (h : t.lookup? token = some l) : body l = .ok l.body := by
  obtain ⟨n, -, hn⟩ := Option.bind_eq_some_iff.1 h
  exact body_ok (ht l (List.mem_of_getElem? hn))

/-- A literal without text has no content that could be cut out. -/
theorem body_nil (q : UInt8) : body ⟨q, []⟩ = .error (.sliceStart 1 0) := rfl

/-- The number a placeholder token carries. -/
def placeholderIndex (token : Bytes) : Except Fault (Option Nat) :=
  if Bytes.startsWith token marker && Bytes.endsWith token markerEnd then do
    let digits ← slice token marker.length ((token.length : Int) - markerEnd.length)
    return (Bytes.toInt64? digits).bind fun n => if n < 0 then none else some n.toNat
  else return none

/-- No end of the start of a placeholder is a start of its end. -/
theorem eq_length_of_drop_marker :
    ∀ k ≤ marker.length, marker.drop k <+: markerEnd → k = marker.length := by
  decide

/-- A token that starts and ends like a placeholder is long enough for both. -/
theorem exists_digits {token : Bytes} (hlead : Bytes.startsWith token marker = true)
    (htrail : Bytes.endsWith token markerEnd = true) :
    ∃ digits, token = marker ++ digits ++ markerEnd := by
  obtain ⟨rest, rfl⟩ := Bytes.startsWith_iff.1 hlead
  obtain ⟨lead, hend⟩ := Bytes.endsWith_iff.1 htrail
  rcases List.append_eq_append_iff.1 hend with ⟨c, hmarker, hrest⟩ | ⟨digits, _, hrest⟩
  · have hlen : lead.length = marker.length :=
      eq_length_of_drop_marker lead.length (by rw [hmarker]; simp)
        ⟨rest, by rw [hmarker, List.drop_left, hrest]⟩
    have hc : c = [] := by
      have := congrArg List.length hmarker
      rw [List.length_append] at this
      exact List.eq_nil_of_length_eq_zero (by omega)
    exact ⟨[], by rw [hrest, hc]; simp⟩
  · exact ⟨digits, by rw [hrest, List.append_assoc]⟩

theorem placeholderIndex_ok (token : Bytes) :
    placeholderIndex token = .ok (placeholderIndex? token) := by
  rw [placeholderIndex]
  split
  · rename_i h
    obtain ⟨hlead, htrail⟩ := Bool.and_eq_true_iff.1 h
    obtain ⟨digits, rfl⟩ := exists_digits hlead htrail
    have hslice : slice (marker ++ digits ++ markerEnd) marker.length
        (((marker ++ digits ++ markerEnd).length : Int) - markerEnd.length) = .ok digits :=
      slice_eq rfl rfl (by simp only [List.length_append]; omega)
    have hdrop : Bytes.dropLead? marker (marker ++ digits ++ markerEnd)
        = some (digits ++ markerEnd) := by
      rw [List.append_assoc, Bytes.dropLead?_append]
    simp only [hslice, ok_bind, placeholderIndex?, hdrop, Bytes.dropTrail?_append,
      Option.bind_eq_bind, Option.bind_some, pure_eq_ok]
  · rename_i h
    simp only [placeholderIndex?, Option.bind_eq_bind, pure_eq_ok]
    cases hlead : Bytes.dropLead? marker token with
    | none => rfl
    | some rest =>
      cases htrail : Bytes.dropTrail? markerEnd rest with
      | none => simp [htrail]
      | some digits =>
        -- what ends like a placeholder behind its start ends like one
        refine absurd ?_ h
        have htoken := Bytes.eq_append_of_dropLead? hlead
        have hrest : Bytes.endsWith rest markerEnd = true := by
          rw [Bytes.endsWith, htrail]
          rfl
        rw [Bool.and_eq_true_iff, Bytes.startsWith_iff, Bytes.endsWith_iff, htoken]
        exact ⟨List.prefix_append _ _,
          (Bytes.endsWith_iff.1 hrest).trans (List.suffix_append _ _)⟩

/-- The literal behind a placeholder token. -/
def lookup (t : LiteralTable) (token : Bytes) : Except Fault (Option Literal) := do
  match ← placeholderIndex token with
  | none => return none
  | some n =>
    if t.length ≤ n then return none
    else
      let l ← elementAt t n
      return some l

theorem lookup_ok (t : LiteralTable) (token : Bytes) : lookup t token = .ok (t.lookup? token) := by
  rw [lookup, placeholderIndex_ok, LiteralTable.lookup?, ok_bind]
  cases placeholderIndex? token with
  | none => rfl
  | some n =>
    dsimp only [Option.bind_some]
    split
    · rename_i h
      rw [List.getElem?_eq_none h]
      rfl
    · rename_i h
      rw [elementAt_of_getElem? (List.getElem?_eq_getElem (Nat.lt_of_not_le h)), ok_bind,
        List.getElem?_eq_getElem (Nat.lt_of_not_le h)]
      rfl

/-- Puts another literal behind a placeholder token. -/
def replace (t : LiteralTable) (token : Bytes) (l : Literal) : Except Fault LiteralTable := do
  match ← placeholderIndex token with
  | none => return t
  | some n => if t.length ≤ n then return t else setAt t n l

theorem replace_ok (t : LiteralTable) (token : Bytes) (l : Literal) :
    replace t token l = .ok (t.replace token l) := by
  rw [replace, placeholderIndex_ok, LiteralTable.replace, ok_bind]
  cases placeholderIndex? token with
  | none => rfl
  | some n =>
    dsimp only
    split
    · rename_i h
      rw [List.set_eq_of_length_le h]
      rfl
    · rename_i h
      rw [setAt, if_pos ⟨Int.natCast_nonneg n, by omega⟩, Int.toNat_natCast]

/-! ## Taking literals out -/

/-- The place behind the quote that closes a literal, looked for from a place in it. -/
def scanQuotedFrom (sql : Bytes) (q : UInt8) (i : Nat) : Except Fault Nat :=
  if i < sql.length then do
    let b ← elementAt sql i
    if b = backslash then scanQuotedFrom sql q (i + 2)
    else if b = q then
      if i + 1 < sql.length then do
        let next ← elementAt sql (i + 1)
        if next = q then scanQuotedFrom sql q (i + 2) else return i + 1
      else return i + 1
    else scanQuotedFrom sql q (i + 1)
  else return sql.length
termination_by sql.length - i

theorem scanQuotedFrom_end {sql : Bytes} {q : UInt8} {i : Nat} (h : sql.length ≤ i) :
    scanQuotedFrom sql q i = .ok sql.length := by
  rw [scanQuotedFrom, if_neg (by omega)]
  rfl

/-- One step of the scan. -/
theorem scanQuotedFrom_cons (a : Bytes) (q b : UInt8) (s : Bytes) :
    scanQuotedFrom (a ++ b :: s) q a.length
      = if b = backslash ∨ b = q ∧ s.head? = some q then
          scanQuotedFrom (a ++ b :: s) q (a.length + 2)
        else if b = q then .ok (a.length + 1)
        else scanQuotedFrom (a ++ b :: s) q (a.length + 1) := by
  rw [scanQuotedFrom, if_pos (by simp), elementAt_eq (a := a) rfl rfl, ok_bind]
  by_cases hescape : b = backslash
  · simp [hescape]
  by_cases hquote : b = q
  · subst hquote
    cases s with
    | nil => simp
    | cons c s =>
      have hnext : elementAt (a ++ b :: c :: s) ((a.length : Int) + 1) = .ok c :=
        elementAt_eq (a := a ++ [b]) (b := s) (by simp) (by simp)
      rw [if_neg hescape, if_pos rfl, if_pos (by simp), hnext, ok_bind]
      simp [hescape]
  · simp [hescape, hquote]

theorem scanQuotedFrom_ok (a : Bytes) (q : UInt8) (s : Bytes) :
    scanQuotedFrom (a ++ s) q a.length = .ok (a.length + (closeQuote q s).1.length) := by
  fun_induction closeQuote q s generalizing a with
  | case1 =>
    rw [List.append_nil]
    exact scanQuotedFrom_end (Nat.le_refl _)
  | case2 b =>
    have hend : ∀ i, a.length < i → scanQuotedFrom (a ++ [b]) q i = .ok (a.length + 1) := by
      intro i hi
      rw [scanQuotedFrom_end (by rw [List.length_append]; exact hi)]
      simp
    rw [scanQuotedFrom_cons, hend _ (by omega), hend _ (by omega)]
    simp
  | case3 c s ih =>
    have hnext := ih (a ++ [backslash, c])
    rw [List.append_assoc, List.length_append] at hnext
    rw [scanQuotedFrom_cons, if_pos (Or.inl rfl)]
    exact hnext.trans (by simp [Prod.map]; omega)
  | case4 s _ ih =>
    have hnext := ih (a ++ [q, q])
    rw [List.append_assoc, List.length_append] at hnext
    rw [scanQuotedFrom_cons, if_pos (Or.inr ⟨rfl, rfl⟩)]
    exact hnext.trans (by simp [Prod.map]; omega)
  | case5 c s hescape hne =>
    have hcond : ¬ (q = backslash ∨ q = q ∧ (c :: s).head? = some q) := by
      simp [hescape, hne]
    rw [scanQuotedFrom_cons, if_neg hcond, if_pos rfl]
    rfl
  | case6 b c s hescape hquote ih =>
    have hnext := ih (a ++ [b])
    rw [List.append_assoc, List.length_append] at hnext
    have hcond : ¬ (b = backslash ∨ b = q ∧ (c :: s).head? = some q) := by
      simp [hescape, hquote]
    rw [scanQuotedFrom_cons, if_neg hcond, if_neg hquote]
    exact hnext.trans (by simp [Prod.map]; omega)

/-- The place behind the literal that starts at a place. -/
def scanQuoted (sql : Bytes) (start : Nat) : Except Fault Nat := do
  let q ← elementAt sql start
  scanQuotedFrom sql q (start + 1)

theorem scanQuoted_ok (a : Bytes) (q : UInt8) (s : Bytes) :
    scanQuoted (a ++ q :: s) a.length = .ok (a.length + (1 + (closeQuote q s).1.length)) := by
  have h := scanQuotedFrom_ok (a ++ [q]) q s
  rw [List.append_assoc, List.length_append] at h
  rw [scanQuoted, elementAt_eq (a := a) rfl rfl, ok_bind]
  exact h.trans (by simp [Nat.add_assoc])

theorem lt_of_scanQuoted {sql : Bytes} {i stop : Nat} (hi : i < sql.length)
    (h : scanQuoted sql i = .ok stop) : i < stop := by
  have hparts : sql.take i ++ sql[i] :: sql.drop (i + 1) = sql := by
    rw [← List.drop_eq_getElem_cons hi, List.take_append_drop]
  have hlen : (sql.take i).length = i := List.length_take_of_le (Nat.le_of_lt hi)
  have hstop := scanQuoted_ok (sql.take i) sql[i] (sql.drop (i + 1))
  rw [hparts, hlen, h] at hstop
  cases hstop
  omega

/-- Takes the literals out of a statement from a place on, behind what has been written. -/
def shieldFrom (sql : Bytes) (i : Nat) (out : Bytes) (t : LiteralTable) :
    Except Fault (Bytes × LiteralTable) :=
  if hi : i < sql.length then do
    let b ← elementAt sql i
    if b = singleQuote ∨ b = doubleQuote then
      bindKnown (scanQuoted sql i) fun stop _ => do
        let text ← slice sql i stop
        shieldFrom sql stop (out ++ placeholder t.length) (t ++ [⟨b, text⟩])
    else if b = backtick then do
      let inner ← sliceFrom sql (i + 1)
      match Bytes.placeOf? [backtick] inner with
      | none =>
        let rest ← sliceFrom sql i
        return (out ++ rest, t)
      | some n =>
        let name ← slice sql i ((i + n + 2 : Nat) : Int)
        shieldFrom sql (i + n + 2) (out ++ name) t
    else shieldFrom sql (i + 1) (out ++ [b]) t
  else return (out, t)
termination_by sql.length - i
decreasing_by
  · have := lt_of_scanQuoted hi ‹_›
    omega
  · omega
  · omega

/-- Takes the literals out of a statement. -/
def shield (sql : Bytes) : Except Fault (Bytes × LiteralTable) :=
  shieldFrom sql 0 [] []

/-- A name in backticks ends with the first backtick, if there is one. -/
theorem throughByte_eq (q : UInt8) (s : Bytes) :
    (Bytes.placeOf? [q] s = none ∧ throughByte q s = (s, [])) ∨
      ∃ name rest, Bytes.placeOf? [q] s = some name.length ∧ s = name ++ q :: rest ∧
        throughByte q s = (name ++ [q], rest) := by
  induction s with
  | nil => exact Or.inl ⟨rfl, rfl⟩
  | cons b s ih =>
    by_cases hb : b = q
    · subst hb
      refine Or.inr ⟨[], s, ?_, rfl, ?_⟩
      · simp [Bytes.placeOf?, Bytes.cut?, Bytes.dropLead?]
      · simp [throughByte]
    · have hplace : Bytes.placeOf? [q] (b :: s) = (Bytes.placeOf? [q] s).map (· + 1) := by
        have hlead : Bytes.dropLead? [q] (b :: s) = none := by
          rw [Bytes.dropLead?, if_neg (Ne.symm hb)]
        rw [Bytes.placeOf?, Bytes.cut?, hlead, Bytes.placeOf?]
        cases Bytes.cut? [q] s <;> rfl
      rw [hplace, throughByte, if_neg hb]
      rcases ih with ⟨hnone, hthrough⟩ | ⟨name, rest, hsome, rfl, hthrough⟩
      · exact Or.inl ⟨by rw [hnone]; rfl, by rw [hthrough]; rfl⟩
      · exact Or.inr ⟨b :: name, rest, by rw [hsome]; rfl, rfl, by rw [hthrough]; rfl⟩

theorem shieldFrom_ok (a s out : Bytes) (t : LiteralTable) :
    shieldFrom (a ++ s) a.length out t
      = .ok (out ++ (Shielding.ofText s).head
          ++ Shielding.numbered t.length (Shielding.ofText s).tail,
        t ++ (Shielding.ofText s).literals) := by
  fun_induction Shielding.ofText s generalizing a out t with
  | case1 =>
    rw [shieldFrom, dif_neg (by simp)]
    simp [Shielding.numbered, Shielding.literals]
  | case2 b s hb ih =>
    have hs := closeQuote_append b s
    have htext : slice (a ++ b :: s) a.length
        ((a.length + (1 + (closeQuote b s).1.length) : Nat) : Int)
          = .ok (b :: (closeQuote b s).1) :=
      slice_eq (c := (closeQuote b s).2) (by simp [hs]) rfl (by simp; omega)
    have hnext := ih (a ++ b :: (closeQuote b s).1) (out ++ placeholder t.length)
      (t ++ [⟨b, b :: (closeQuote b s).1⟩])
    have hlen : (a ++ b :: (closeQuote b s).1).length
        = a.length + (1 + (closeQuote b s).1.length) := by
      simp
      omega
    have hwhole : a ++ b :: (closeQuote b s).1 ++ (closeQuote b s).2 = a ++ b :: s := by
      simp [hs]
    rw [hlen, hwhole] at hnext
    rw [shieldFrom, dif_pos (by simp), elementAt_eq (a := a) rfl rfl, ok_bind, if_pos hb,
      bindKnown_ok (scanQuoted_ok a b s), htext, ok_bind, hnext]
    simp [Shielding.literal, Shielding.numbered, Shielding.literals]
  | case3 s hquote ih =>
    have hinner : sliceFrom (a ++ backtick :: s) ((a.length : Int) + 1) = .ok s :=
      sliceFrom_eq (a := a ++ [backtick]) (by simp) (by simp)
    rw [shieldFrom, dif_pos (by simp), elementAt_eq (a := a) rfl rfl, ok_bind, if_neg hquote,
      if_pos rfl, hinner, ok_bind]
    rcases throughByte_eq backtick s with ⟨hplace, hthrough⟩ | ⟨name, rest, hplace, rfl, hthrough⟩
    · have hrest : sliceFrom (a ++ backtick :: s) a.length = .ok (backtick :: s) :=
        sliceFrom_eq rfl rfl
      rw [hplace, hthrough]
      dsimp only
      rw [hrest, Shielding.ofText]
      simp [Shielding.keep, Shielding.numbered, Shielding.literals]
    · have hname : slice (a ++ backtick :: (name ++ backtick :: rest)) a.length
          ((a.length + name.length + 2 : Nat) : Int) = .ok (backtick :: name ++ [backtick]) :=
        slice_eq (c := rest) (by simp) rfl (by simp; omega)
      have hnext :=
        ih (a ++ (backtick :: name ++ [backtick])) (out ++ (backtick :: name ++ [backtick])) t
      have hlen : (a ++ (backtick :: name ++ [backtick])).length = a.length + name.length + 2 := by
        simp
        omega
      have hwhole : a ++ (backtick :: name ++ [backtick]) ++ rest
          = a ++ backtick :: (name ++ backtick :: rest) := by
        simp
      rw [hthrough] at hnext ⊢
      dsimp only at hnext
      rw [hlen, hwhole] at hnext
      rw [hplace]
      dsimp only
      rw [hname, ok_bind, hnext]
      simp [Shielding.keep, Shielding.literals]
  | case4 b s hquote hb ih =>
    have hnext := ih (a ++ [b]) (out ++ [b]) t
    rw [List.append_assoc, List.length_append] at hnext
    rw [shieldFrom, dif_pos (by simp), elementAt_eq (a := a) rfl rfl, ok_bind, if_neg hquote,
      if_neg hb]
    exact hnext.trans (by simp [Shielding.keep, Shielding.literals])

theorem shield_ok (sql : Bytes) : shield sql = .ok (SqlDialect.shield sql) := by
  have h := shieldFrom_ok [] sql [] []
  simpa [shield, SqlDialect.shield, Shielding.text] using h

/-! ## Putting literals back -/

/-- The place behind a run of digits. -/
def skipDigits (s : Bytes) (j : Nat) : Except Fault Nat :=
  if j < s.length then do
    let b ← elementAt s j
    if Bytes.isDigit b then skipDigits s (j + 1) else return j
  else return j
termination_by s.length - j

theorem skipDigits_ok (a s : Bytes) :
    skipDigits (a ++ s) a.length = .ok (a.length + (s.takeWhile Bytes.isDigit).length) := by
  induction s generalizing a with
  | nil =>
    rw [skipDigits, if_neg (by simp)]
    rfl
  | cons b s ih =>
    have hnext := ih (a ++ [b])
    rw [List.append_assoc, List.length_append] at hnext
    rw [skipDigits, if_pos (by simp), elementAt_eq (a := a) rfl rfl, ok_bind]
    by_cases hb : Bytes.isDigit b = true
    · rw [if_pos hb, List.takeWhile_cons_of_pos hb]
      exact hnext.trans (by simp; omega)
    · rw [if_neg hb, List.takeWhile_cons_of_neg hb]
      rfl

/-- What stands for the start of a text that starts like a placeholder, and how many bytes that
start has: the literal for its placeholder, or the start of a placeholder as it is. -/
def restoreToken (t : LiteralTable) (s : Bytes) : Except Fault (Bytes × Nat) := do
  let j ← skipDigits s marker.length
  if marker.length < j then
    let behind ← sliceFrom s j
    if Bytes.startsWith behind markerEnd then
      let token ← sliceTo s ((j + markerEnd.length : Nat) : Int)
      match ← lookup t token with
      | some l => return (l.text, token.length)
      | none => return (marker, marker.length)
    else return (marker, marker.length)
  else return (marker, marker.length)

theorem restoreToken_ok (t : LiteralTable) (s : Bytes) :
    restoreToken t (marker ++ s)
      = .ok (((t.tokenAt? (marker ++ s)).map fun (l, n) => (l.text, n)).getD
          (marker, marker.length)) := by
  have hskip := skipDigits_ok marker s
  have htoken : t.tokenAt? (marker ++ s)
      = (Bytes.dropLead? markerEnd (s.dropWhile Bytes.isDigit)).bind fun _ =>
          (t.lookup? (marker ++ s.takeWhile Bytes.isDigit ++ markerEnd)).map fun l =>
            (l, (marker ++ s.takeWhile Bytes.isDigit ++ markerEnd).length) := by
    have hdrop : s.drop (s.takeWhile Bytes.isDigit).length = s.dropWhile Bytes.isDigit := by
      have h : (s.takeWhile Bytes.isDigit ++ s.dropWhile Bytes.isDigit).drop
          (s.takeWhile Bytes.isDigit).length = s.dropWhile Bytes.isDigit := List.drop_left
      rwa [List.takeWhile_append_dropWhile] at h
    simp only [LiteralTable.tokenAt?, Bytes.dropLead?_append, Option.bind_eq_bind, Option.bind_some,
      hdrop]
    cases Bytes.dropLead? markerEnd (s.dropWhile Bytes.isDigit) with
    | none => rfl
    | some rest => cases t.lookup? (marker ++ s.takeWhile Bytes.isDigit ++ markerEnd) <;> rfl
  have hs : s = s.takeWhile Bytes.isDigit ++ s.dropWhile Bytes.isDigit :=
    List.takeWhile_append_dropWhile.symm
  rw [restoreToken, hskip, ok_bind, htoken]
  generalize s.takeWhile Bytes.isDigit = ds at hs ⊢
  generalize s.dropWhile Bytes.isDigit = rest at hs ⊢
  subst hs
  have hlookup : t.lookup? (marker ++ [] ++ markerEnd) = none := by
    rw [LiteralTable.lookup?, placeholderIndex?_without_digits]
    rfl
  cases ds with
  | nil =>
    rw [if_neg (by simp), hlookup]
    cases Bytes.dropLead? markerEnd rest <;> rfl
  | cons d ds =>
    have hbehind : sliceFrom (marker ++ (d :: ds ++ rest))
        ((marker.length + (d :: ds).length : Nat) : Int)
        = .ok rest :=
      sliceFrom_eq (a := marker ++ d :: ds) (by simp) (by simp)
    rw [if_pos (by simp), hbehind, ok_bind, Bytes.startsWith]
    cases hend : Bytes.dropLead? markerEnd rest with
    | none => rfl
    | some after =>
      have hto : sliceTo (marker ++ (d :: ds ++ rest))
          ((marker.length + (d :: ds).length + markerEnd.length : Nat) : Int)
            = .ok (marker ++ d :: ds ++ markerEnd) := by
        rw [Bytes.eq_append_of_dropLead? hend]
        exact sliceTo_eq (b := after) (by simp) (by simp only [List.length_append])
      rw [Option.isSome_some, if_pos rfl, hto, ok_bind, lookup_ok, ok_bind]
      cases t.lookup? (marker ++ d :: ds ++ markerEnd) <;> rfl

/-- What stands for the start of a text that starts like a placeholder is not empty. -/
theorem pos_of_restoreToken {t : LiteralTable} {s : Bytes} {p : Bytes × Nat}
    (h : restoreToken t (marker ++ s) = .ok p) : 0 < p.2 := by
  rw [restoreToken_ok] at h
  cases h
  cases hp : t.tokenAt? (marker ++ s) with
  | none => decide
  | some p =>
    simp only [LiteralTable.tokenAt?, Option.bind_eq_bind, Option.bind_eq_some_iff] at hp
    obtain ⟨_, _, _, _, l, _, hp⟩ := hp
    cases hp
    simp [marker, ascii]

/-- Puts the literals back into a text, behind what has been written. -/
def restoreFrom (t : LiteralTable) (rest out : Bytes) : Except Fault Bytes :=
  match _hplace : Bytes.placeOf? marker rest with
  | none => .ok (out ++ rest)
  | some i => do
    let before ← sliceTo rest i
    bindKnown (sliceFrom rest i) fun tail _htail =>
      bindKnown (restoreToken t tail) fun p _htoken =>
        bindKnown (sliceFrom tail p.2) fun next _hnext => restoreFrom t next (out ++ before ++ p.1)
termination_by rest.length
decreasing_by
  obtain ⟨before, after, -, rfl, rfl⟩ := Bytes.parts_of_placeOf? _hplace
  have htail := eq_drop_of_sliceFrom _htail
  rw [List.append_assoc, List.drop_left] at htail
  subst htail
  have hpos := pos_of_restoreToken _htoken
  have hne : 0 < (marker ++ after).length := by simp [marker, ascii]
  rw [eq_drop_of_sliceFrom _hnext]
  simp only [List.length_drop, List.length_append] at hne ⊢
  omega

/-- A byte that no placeholder starts at is kept. -/
theorem restore_cons_of_lead {t : LiteralTable} {b : UInt8} {s : Bytes}
    (h : Bytes.dropLead? marker (b :: s) = none) :
    SqlDialect.restore (b :: s) t = b :: SqlDialect.restore s t :=
  restore_cons_of_none (by rw [LiteralTable.tokenAt?, h]; rfl)

/-- Nothing is put back in front of the first start of a placeholder. -/
theorem restore_of_placeOf? (t : LiteralTable) (s : Bytes) :
    (Bytes.placeOf? marker s = none ∧ SqlDialect.restore s t = s) ∨
      ∃ before after, Bytes.placeOf? marker s = some before.length ∧
        s = before ++ (marker ++ after) ∧
        SqlDialect.restore s t = before ++ SqlDialect.restore (marker ++ after) t := by
  induction s with
  | nil => exact Or.inl ⟨rfl, rfl⟩
  | cons b s ih =>
    cases hlead : Bytes.dropLead? marker (b :: s) with
    | some after =>
      have hs := Bytes.eq_append_of_dropLead? hlead
      refine Or.inr ⟨[], after, ?_, hs, ?_⟩
      · rw [Bytes.placeOf?, Bytes.cut?, hlead]
        rfl
      · rw [hs]
        rfl
    | none =>
      have hplace : Bytes.placeOf? marker (b :: s) = (Bytes.placeOf? marker s).map (· + 1) := by
        rw [Bytes.placeOf?, Bytes.cut?, hlead, Bytes.placeOf?]
        cases Bytes.cut? marker s <;> rfl
      rw [hplace, restore_cons_of_lead hlead]
      rcases ih with ⟨hnone, hrestore⟩ | ⟨before, after, hsome, hs, hrestore⟩
      · exact Or.inl ⟨by rw [hnone]; rfl, by rw [hrestore]⟩
      · exact Or.inr ⟨b :: before, after, by rw [hsome]; rfl, by rw [hs]; rfl,
          by rw [hrestore]; rfl⟩

/-- No placeholder starts inside the start of a placeholder. -/
theorem restore_inside_marker (t : LiteralTable) {w u : Bytes} (hmarker : marker = w ++ u)
    (hw : w ≠ []) (after : Bytes) :
    SqlDialect.restore (u ++ after) t = u ++ SqlDialect.restore after t := by
  induction u generalizing w with
  | nil => rfl
  | cons b u ih =>
    have hlead : Bytes.dropLead? marker (b :: (u ++ after)) = none := by
      rw [Option.eq_none_iff_forall_ne_some]
      intro rest hrest
      have hsame := Bytes.eq_append_of_dropLead? hrest
      have hdrop : marker.drop w.length = b :: u := by rw [hmarker, List.drop_left]
      have hlen := congrArg List.length hmarker
      rw [List.length_append, List.length_cons] at hlen
      refine marker_borderless w.length (by omega) (List.length_pos_iff.2 hw) ?_
      rw [hdrop]
      have hinside : b :: u <+: b :: (u ++ after) := ⟨after, rfl⟩
      exact List.prefix_of_prefix_length_le hinside ⟨rest, hsame.symm⟩
        (by rw [List.length_cons]; omega)
    rw [List.cons_append, restore_cons_of_lead hlead,
      ih (w := w ++ [b]) (by rw [hmarker, List.append_assoc]; rfl) (by simp)]
    rfl

/-- What is written for a start of a placeholder, and where the text goes on. -/
theorem restore_marker {t : LiteralTable} {after : Bytes} {p : Bytes × Nat}
    (h : restoreToken t (marker ++ after) = .ok p) :
    ∃ token next, marker ++ after = token ++ next ∧ p.2 = token.length ∧
      SqlDialect.restore (marker ++ after) t = p.1 ++ SqlDialect.restore next t := by
  rw [restoreToken_ok] at h
  cases h
  cases hp : t.tokenAt? (marker ++ after) with
  | none =>
    refine ⟨marker, after, rfl, rfl, ?_⟩
    show SqlDialect.restore (marker ++ after) t = marker ++ SqlDialect.restore after t
    obtain ⟨u, hu⟩ : ∃ u, marker = 95 :: u := ⟨_, rfl⟩
    rw [hu, List.cons_append] at hp
    rw [hu, List.cons_append, restore_cons_of_none hp,
      restore_inside_marker t (w := [95]) hu (by simp)]
    rfl
  | some p =>
    obtain ⟨l, n⟩ := p
    obtain ⟨ds, next, hs, hds, hl⟩ := digits_of_tokenAt? hp
    rw [hs, tokenAt?_of_digits t hds next, hl] at hp
    obtain rfl : (marker ++ ds ++ markerEnd).length = n := by
      cases hp
      rfl
    refine ⟨marker ++ ds ++ markerEnd, next, hs, rfl, ?_⟩
    rw [hs]
    refine restore_token (by simp [marker, ascii]) ?_
    rw [tokenAt?_of_digits t hds next, hl]
    rfl

theorem restoreFrom_ok (t : LiteralTable) (rest out : Bytes) :
    restoreFrom t rest out = .ok (out ++ SqlDialect.restore rest t) := by
  rw [restoreFrom]
  rcases restore_of_placeOf? t rest with ⟨hplace, hrestore⟩ | ⟨before, after, hplace, hs, hrestore⟩
  · split
    · rw [hrestore]
    · rename_i hsome
      rw [hplace] at hsome
      cases hsome
  · split
    · rename_i hnone
      rw [hplace] at hnone
      cases hnone
    · rename_i i hsome
      rw [hplace] at hsome
      cases hsome
      have hto : sliceTo rest before.length = .ok before := sliceTo_eq hs rfl
      have hfrom : sliceFrom rest before.length = .ok (marker ++ after) := sliceFrom_eq hs rfl
      obtain ⟨p, hp⟩ : ∃ p, restoreToken t (marker ++ after) = .ok p := ⟨_, restoreToken_ok t after⟩
      obtain ⟨token, next, htext, hlen, hmarker⟩ := restore_marker hp
      have hnext : sliceFrom (marker ++ after) p.2 = .ok next :=
        sliceFrom_eq htext (congrArg Nat.cast hlen)
      have hpos := pos_of_restoreToken hp
      rw [hto, ok_bind, bindKnown_ok hfrom, bindKnown_ok hp, bindKnown_ok hnext,
        restoreFrom_ok t next, hrestore, hmarker]
      simp
termination_by rest.length
decreasing_by
  have hlen' := congrArg List.length htext
  simp only [List.length_append] at hlen'
  simp only [hs, List.length_append]
  omega

/-- Puts the literals back. -/
def restore (s : Bytes) (t : LiteralTable) : Except Fault Bytes :=
  if t.isEmpty then return s else restoreFrom t s []

theorem restore_ok (s : Bytes) (t : LiteralTable) :
    restore s t = .ok (SqlDialect.restore s t) := by
  rw [restore]
  split
  · rename_i h
    rw [List.isEmpty_iff.1 h, restore_of_no_literals]
    rfl
  · exact restoreFrom_ok t s []

end SqlDialect.Checked
