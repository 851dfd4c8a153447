import SqlDialect.Proofs.Checked.Access
import SqlDialect.Proofs.Statement.SelectHead

set_option autoImplicit false

/-! # Clauses and lists by place

The scanners for parentheses, clauses and lists, with every byte read, and every stretch cut out, by
its place. A clause is looked for from a place on, with the depths of the whole text; that place is
outside parentheses wherever the rules look for one, so the depths are those of what is left. -/

namespace SqlDialect

namespace Pattern

/-- Where the leftmost match starts and ends. -/
def span? (p : Pattern) (s : Bytes) : Option (Nat × Nat) :=
  (p.find? s).map fun m => (m.before.length, m.before.length + m.text.length)

/-- Where matches start and end, of which the first was looked for from a place on. -/
def spansFrom (pos : Nat) : List Match → List (Nat × Nat)
  | [] => []
  | m :: ms =>
    (pos + m.before.length, pos + m.before.length + m.text.length) ::
      spansFrom (pos + m.before.length + m.text.length) ms

/-- Where all matches start and end. -/
def spans (p : Pattern) (s : Bytes) : List (Nat × Nat) :=
  spansFrom 0 (p.all s)

/-- Either there is no match, or there is a first one and the others are behind it. -/
theorem allFrom_cases (p : Pattern) (prev : Option UInt8) (s : Bytes) :
    p.allFrom prev s = [] ∨
      ∃ m, s = m.before ++ m.text ++ m.after ∧ m.after.length < s.length ∧
        p.allFrom prev s = m :: p.allFrom m.text.getLast? m.after := by
  rw [allFrom]
  cases hm : p.findFrom? 0 prev s with
  | none => exact Or.inl rfl
  | some m =>
    by_cases hlt : m.after.length < s.length
    · exact Or.inr ⟨m, (text_of_findFrom? hm).symm, hlt, by simp only [hlt, if_true]⟩
    · exact Or.inl (by simp only [hlt, if_false])

end Pattern

namespace Checked

/-! ## Depth -/

/-- Notes the depth in front of every byte from a place on; gives the depth at the end too. -/
def noteDepths (s : Bytes) (i depth : Nat) (d : List Nat) : Except Fault (List Nat × Nat) :=
  if i < s.length then do
    let d ← setAt d i depth
    let b ← elementAt s i
    noteDepths s (i + 1) (stepDepth depth b) d
  else return (d, depth)
termination_by s.length - i

/-- The depth in front of every byte, and at the end. -/
def parenDepths (s : Bytes) : Except Fault (List Nat) := do
  let (d, depth) ← noteDepths s 0 0 (List.replicate (s.length + 1) 0)
  setAt d s.length depth

/-- The depths in front of every byte and at the end, from the depth at the start. -/
def depths (depth : Nat) : Bytes → List Nat
  | [] => [depth]
  | b :: s => depth :: depths (stepDepth depth b) s

theorem length_depths (depth : Nat) (s : Bytes) : (depths depth s).length = s.length + 1 := by
  induction s generalizing depth with
  | nil => rfl
  | cons b s ih => rw [depths, List.length_cons, ih, List.length_cons]

theorem noteDepths_ok (a s : Bytes) (depth : Nat) {d : List Nat} (hd : d.length = a.length) :
    ∃ init, noteDepths (a ++ s) a.length depth (d ++ List.replicate (s.length + 1) 0)
        = .ok (d ++ init ++ [0], depthAfter depth s) ∧
      init ++ [depthAfter depth s] = depths depth s := by
  induction s generalizing a depth d with
  | nil =>
    refine ⟨[], ?_, rfl⟩
    rw [noteDepths, if_neg (by simp)]
    simp [depthAfter]
  | cons b s ih =>
    obtain ⟨init, hnote, hinit⟩ :=
      ih (a ++ [b]) (stepDepth depth b) (d := d ++ [depth]) (by simp [hd])
    refine ⟨depth :: init, ?_, congrArg (depth :: ·) hinit⟩
    have hset : setAt (d ++ List.replicate ((b :: s).length + 1) 0) a.length depth
        = .ok (d ++ depth :: List.replicate (s.length + 1) 0) :=
      setAt_eq (by rw [List.length_cons, List.replicate_succ]) (by rw [hd]) depth
    rw [noteDepths, if_pos (by simp), hset, ok_bind, elementAt_eq (a := a) rfl rfl, ok_bind]
    simpa [depthAfter] using hnote

theorem parenDepths_ok (s : Bytes) : parenDepths s = .ok (depths 0 s) := by
  obtain ⟨init, hnote, hinit⟩ := noteDepths_ok [] s 0 (d := []) rfl
  have hlen : init.length = s.length := by
    have h := congrArg List.length hinit
    rw [length_depths, List.length_append, List.length_singleton] at h
    omega
  rw [List.nil_append, List.nil_append, List.nil_append, List.length_nil] at hnote
  rw [parenDepths, hnote, ok_bind, ← hinit]
  exact setAt_eq rfl (by rw [hlen]) _

/-- The depth behind a text is the one at the place of its length. -/
theorem exists_depths_append (a s : Bytes) (depth : Nat) :
    ∃ init rest, depths depth (a ++ s) = init ++ depthAfter depth a :: rest ∧
      init.length = a.length := by
  induction a generalizing depth with
  | nil => cases s <;> exact ⟨[], _, rfl, rfl⟩
  | cons b a ih =>
    obtain ⟨init, rest, hdepths, hlen⟩ := ih (stepDepth depth b)
    exact ⟨depth :: init, rest, congrArg (depth :: ·) hdepths, congrArg (· + 1) hlen⟩

theorem elementAt_depths (a s : Bytes) (depth : Nat) :
    elementAt (depths depth (a ++ s)) a.length = .ok (depthAfter depth a) := by
  obtain ⟨init, rest, hdepths, hlen⟩ := exists_depths_append a s depth
  exact elementAt_eq hdepths (congrArg Nat.cast hlen.symm)

/-- The first of the stretches that starts outside parentheses; they are counted from a place on. -/
def firstOutside (depths : List Nat) (start : Nat) :
    List (Nat × Nat) → Except Fault (Option (Nat × Nat))
  | [] => return none
  | (low, high) :: spans => do
    let depth ← elementAt depths ((start + low : Nat) : Int)
    if depth = 0 then return some (start + low, start + high)
    else firstOutside depths start spans

/-- The place of a match behind a text. -/
def placeBehind (a : Bytes) (m : Match) : Nat × Nat :=
  (a.length + m.before.length, a.length + m.before.length + m.text.length)

theorem firstOutside_ok (p : Pattern) (a left s : Bytes) (prev : Option UInt8) :
    firstOutside (depths 0 (a ++ left ++ s)) a.length
        (Pattern.spansFrom left.length (p.allFrom prev s))
      = .ok ((firstTop left (depthAfter 0 (a ++ left)) (p.allFrom prev s)).map
          (placeBehind a)) := by
  rcases p.allFrom_cases prev s with hnil | ⟨m, hs, hlt, hall⟩
  · rw [hnil]
    rfl
  · have hplace : elementAt (depths 0 (a ++ left ++ s))
        ((a.length + (left.length + m.before.length) : Nat) : Int)
          = .ok (depthAfter 0 (a ++ left ++ m.before)) := by
      have h := elementAt_depths (a ++ left ++ m.before) (m.text ++ m.after) 0
      rw [hs]
      simpa [Nat.add_assoc] using h
    rw [hall, Pattern.spansFrom, firstOutside, hplace, ok_bind, firstTop, ← depthAfter_append]
    rw [List.append_assoc a left m.before]
    split
    · simp [placeBehind, Nat.add_assoc]
    · have hnext := firstOutside_ok p a (left ++ m.before ++ m.text) m.after m.text.getLast?
      have hwhole : a ++ (left ++ m.before ++ m.text) ++ m.after = a ++ left ++ s := by
        rw [hs]
        simp only [List.append_assoc]
      rw [hwhole] at hnext
      simp only [List.length_append, ← List.append_assoc, depthAfter_append, Nat.add_assoc]
        at hnext ⊢
      exact hnext
termination_by s.length

/-- The first match outside parentheses that starts behind a place. -/
def findTopLevel (s : Bytes) (p : Pattern) (start : Nat) : Except Fault (Option (Nat × Nat)) :=
  if s.length < start then return none
  else do
    let depths ← parenDepths s
    let rest ← sliceFrom s start
    firstOutside depths start (p.spans rest)

/-- At the end of the text there is nothing to find, whatever the depth is there. -/
theorem findTopLevel_ok (p : Pattern) {a : Bytes} (s : Bytes) (ha : s ≠ [] → depthAfter 0 a = 0) :
    findTopLevel (a ++ s) p a.length = .ok ((findTop? p s).map (placeBehind a)) := by
  have hrest : sliceFrom (a ++ s) a.length = .ok s := sliceFrom_eq rfl rfl
  rw [findTopLevel, if_neg (by simp), parenDepths_ok, ok_bind, hrest, ok_bind]
  by_cases hs : s = []
  · obtain rfl := hs
    have hall : p.all [] = [] := by
      rw [Pattern.all, Pattern.allFrom]
      split <;> rfl
    rw [Pattern.spans, findTop?, hall]
    rfl
  · have hfirst := firstOutside_ok p a [] s none
    rw [List.append_nil, ha hs] at hfirst
    exact hfirst

theorem findTopLevel_zero (s : Bytes) (p : Pattern) :
    findTopLevel s p 0 = .ok ((findTop? p s).map (placeBehind [])) :=
  findTopLevel_ok p (a := []) s fun _ => rfl

/-- The text is cut in front of a clause, and behind its opening words. -/
theorem cuts_of_findTop? {p : Pattern} (hp : p.Consumes) {s : Bytes} {m : Match}
    (h : findTop? p s = some m) :
    sliceTo s (placeBehind [] m).1 = .ok m.before ∧
      sliceTo s (placeBehind [] m).2 = .ok (m.before ++ m.text) ∧
      sliceFrom s (placeBehind [] m).2 = .ok m.after := by
  obtain ⟨hs, -⟩ := Pattern.places_of_findTop? hp h
  have hend : (placeBehind [] m).2 = (m.before ++ m.text).length := by simp [placeBehind]
  refine ⟨sliceTo_eq (hs.trans (List.append_assoc _ _ _)) ?_, sliceTo_eq hs ?_, sliceFrom_eq hs ?_⟩
  · simp [placeBehind]
  · rw [hend]
  · rw [hend]

theorem length_before_of_firstTop (p : Pattern) (prev : Option UInt8) {left s : Bytes} {depth : Nat}
    {m : Match} (h : firstTop left depth (p.allFrom prev s) = some m) :
    m.before.length ≤ (left ++ s).length := by
  rcases p.allFrom_cases prev s with hnil | ⟨m₀, hs, hlt, hall⟩
  · rw [hnil] at h
    cases h
  · rw [hall, firstTop] at h
    split at h
    · cases h
      rw [hs]
      simp only [List.length_append]
      omega
    · have hle := length_before_of_firstTop p m₀.text.getLast? h
      have hlen := congrArg List.length hs
      simp only [List.length_append] at hle hlen ⊢
      omega
termination_by s.length

/-- Where the first match of any of the patterns outside parentheses starts; the end of the text if
there is none. -/
def firstTopLevel (s : Bytes) (start : Nat) (ps : List Pattern) : Except Fault Nat :=
  ps.foldlM (fun stop p => do
    match ← findTopLevel s p start with
    | some (low, _) => return if low < stop then low else stop
    | none => return stop) s.length

theorem firstTopLevel_ok (ps : List Pattern) {a : Bytes} (s : Bytes)
    (ha : s ≠ [] → depthAfter 0 a = 0) :
    firstTopLevel (a ++ s) a.length ps = .ok (a.length + (splitAtClause ps s).1.length) := by
  have hfold : ∀ n, ps.foldlM (fun stop p => do
      match ← findTopLevel (a ++ s) p a.length with
      | some (low, _) => return if low < stop then low else stop
      | none => return stop) (a.length + n)
      = (.ok (a.length + ps.foldl
          (fun n p => ((findTop? p s).map fun m => min n m.before.length).getD n) n) :
        Except Fault Nat) := by
    intro n
    induction ps generalizing n with
    | nil => rfl
    | cons p ps ih =>
      rw [List.foldlM_cons, List.foldl_cons, findTopLevel_ok p s ha]
      cases findTop? p s with
      | none => exact ih n
      | some m =>
        have hmin : (if a.length + m.before.length < a.length + n then a.length + m.before.length
            else a.length + n) = a.length + min n m.before.length := by
          split <;> omega
        rw [Option.map_some, ok_bind]
        dsimp only [placeBehind]
        rw [hmin, pure_eq_ok, ok_bind]
        exact ih _
  have hle : topIndex ps s ≤ s.length := by
    rcases topIndex_cases ps s with h | ⟨p, -, m, hm, h⟩
    · exact Nat.le_of_eq h
    · rw [← h]
      exact length_before_of_firstTop p none hm
  rw [splitAtClause, List.splitAt_eq, List.length_take_of_le hle, firstTopLevel, List.length_append]
  exact hfold s.length

/-! ## Parentheses -/

/-- The place of the parenthesis that brings the balance to zero, from a place on; -1 if there is
none. -/
def matchParenFrom (s : Bytes) (i depth : Int) : Except Fault Int :=
  if i < s.length then do
    let b ← elementAt s i
    if b = openParen then matchParenFrom s (i + 1) (depth + 1)
    else if b = closeParen then
      if depth - 1 = 0 then return i else matchParenFrom s (i + 1) (depth - 1)
    else matchParenFrom s (i + 1) depth
  else return -1
termination_by (s.length - i).toNat

/-- The place of the parenthesis that closes the one at a place; -1 if it is not closed. -/
def matchParen (s : Bytes) (start : Int) : Except Fault Int :=
  matchParenFrom s start 0

theorem matchParenFrom_ok (a s : Bytes) (depth : Int) :
    matchParenFrom (a ++ s) a.length depth
      = .ok (((scanParen depth a.length s).map Nat.cast).getD (-1)) := by
  induction s generalizing a depth with
  | nil =>
    rw [matchParenFrom, if_neg (by simp)]
    rfl
  | cons b s ih =>
    have hnext : ∀ depth, matchParenFrom (a ++ b :: s) ((a.length : Int) + 1) depth
        = .ok (((scanParen depth (a.length + 1) s).map Nat.cast).getD (-1)) := by
      intro depth
      have h := ih (a ++ [b]) depth
      rwa [List.append_assoc, List.length_append] at h
    have hin : (a.length : Int) < (a ++ b :: s).length := by
      rw [List.length_append, List.length_cons]
      omega
    rw [matchParenFrom, if_pos hin, elementAt_eq (a := a) rfl rfl, ok_bind, scanParen]
    split
    · exact hnext _
    · split
      · by_cases hone : depth = 1
        · rw [if_pos (by omega), if_pos hone]
          rfl
        · rw [if_neg (by omega), if_neg hone]
          exact hnext _
      · exact hnext _

/-- A scan that starts further on ends further on. -/
theorem scanParen_add (depth : Int) (pos n : Nat) (s : Bytes) :
    scanParen depth (pos + n) s = (scanParen depth n s).map (pos + ·) := by
  induction s generalizing depth n with
  | nil => rfl
  | cons b s ih =>
    simp only [scanParen, Nat.add_assoc, ih]
    split
    · rfl
    · split
      · split <;> rfl
      · rfl

/-- A parenthesis is closed where what it encloses ends. -/
theorem matchParen_ok (a s : Bytes) :
    matchParen (a ++ openParen :: s) a.length
      = .ok (((splitParen? s).map fun (arg, _) => ((a.length + 1 + arg.length : Nat) : Int)).getD
          (-1)) := by
  have hscan : scanParen (0 + 1) (a.length + 1) s = (scanParen 1 0 s).map (a.length + 1 + ·) :=
    scanParen_add 1 (a.length + 1) 0 s
  rw [matchParen, matchParenFrom_ok, scanParen, if_pos rfl, hscan, splitParen?]
  cases hclose : scanParen 1 0 s with
  | none => rfl
  | some i =>
    have hlen : (s.take i).length = i := by
      have := lt_of_scanParen hclose
      exact List.length_take_of_le (by omega)
    simp only [Option.map_some, Option.getD_some, hlen]

/-! ## Lists -/

/-- The parts between the commas outside parentheses, from a place on; `last` is where the part at
that place starts. -/
def splitTopLevelFrom (s : Bytes) (i depth last : Nat) (parts : List Bytes) :
    Except Fault (List Bytes) :=
  if i < s.length then do
    let b ← elementAt s i
    if b = comma ∧ depth = 0 then
      let part ← slice s last i
      splitTopLevelFrom s (i + 1) depth (i + 1) (parts ++ [part])
    else splitTopLevelFrom s (i + 1) (stepDepth depth b) last parts
  else do
    let part ← sliceFrom s last
    return parts ++ [part]
termination_by s.length - i

/-- The parts between the commas outside parentheses. -/
def splitTopLevel (s : Bytes) : Except Fault (List Bytes) :=
  splitTopLevelFrom s 0 0 0 []

theorem splitTopLevelFrom_ok (a x s : Bytes) (depth : Nat) (parts : List Bytes) {part : Bytes}
    {rest : List Bytes} (h : splitTopFrom depth s = part :: rest) :
    splitTopLevelFrom (a ++ x ++ s) (a.length + x.length) depth a.length parts
      = .ok (parts ++ (x ++ part) :: rest) := by
  induction s generalizing a x depth parts part rest with
  | nil =>
    cases h
    have hpart : sliceFrom (a ++ x ++ []) a.length = .ok x := sliceFrom_eq (by simp) rfl
    rw [splitTopLevelFrom, if_neg (by simp), hpart]
    simp
  | cons b s ih =>
    have hb : elementAt (a ++ x ++ b :: s) ((a.length + x.length : Nat) : Int) = .ok b :=
      elementAt_eq (a := a ++ x) rfl (by simp)
    rw [splitTopLevelFrom, if_pos (by simp), hb, ok_bind]
    rw [splitTopFrom] at h
    split
    · rename_i hcomma
      rw [if_pos hcomma] at h
      cases h
      have hpart : slice (a ++ x ++ b :: s) a.length ((a.length + x.length : Nat) : Int) = .ok x :=
        slice_eq rfl rfl (by simp)
      obtain ⟨next, rest, hnext⟩ := List.exists_cons_of_ne_nil (splitTopFrom_ne_nil depth s)
      have hrest := ih (a ++ x ++ [b]) [] depth (parts ++ [x]) hnext
      rw [List.append_nil, List.length_nil, Nat.add_zero, List.append_assoc, List.length_append,
        List.length_append] at hrest
      rw [hpart, ok_bind, hnext]
      exact hrest.trans (by simp)
    · rename_i hcomma
      rw [if_neg hcomma] at h
      obtain ⟨next, rest', hnext⟩ := List.exists_cons_of_ne_nil
        (splitTopFrom_ne_nil (stepDepth depth b) s)
      rw [hnext] at h
      cases h
      have hrest := ih a (x ++ [b]) (stepDepth depth b) parts hnext
      rw [← List.append_assoc, List.append_assoc, List.length_append] at hrest
      exact hrest.trans (by simp)

theorem splitTopLevel_ok (s : Bytes) : splitTopLevel s = .ok (splitTop s) := by
  obtain ⟨part, rest, h⟩ := List.exists_cons_of_ne_nil (splitTopFrom_ne_nil 0 s)
  have hsplit := splitTopLevelFrom_ok [] [] s 0 [] h
  rw [splitTop, h]
  exact hsplit

/-- Separates the blanks at both ends. -/
def splitSpace (s : Bytes) : Except Fault Spaced := do
  let core := Bytes.trimLeft s
  let lead ← sliceTo s ((s.length : Int) - core.length)
  let trimmed := Bytes.trimRight core
  let trail ← sliceFrom core trimmed.length
  return ⟨lead, trimmed, trail⟩

theorem splitSpace_ok (s : Bytes) : splitSpace s = .ok (Spaced.ofText s) := by
  have hs : s = s.takeWhile Bytes.isBlank ++ Bytes.trimLeft s :=
    List.takeWhile_append_dropWhile.symm
  have hlen := congrArg List.length hs
  rw [List.length_append] at hlen
  have hlead : sliceTo s ((s.length : Int) - (Bytes.trimLeft s).length)
      = .ok (s.takeWhile Bytes.isBlank) := sliceTo_eq hs (by omega)
  have htrail : sliceFrom (Bytes.trimLeft s) (Bytes.trimRight (Bytes.trimLeft s)).length
      = .ok ((Bytes.trimLeft s).drop (Bytes.trimRight (Bytes.trimLeft s)).length) :=
    sliceFrom_eq (Bytes.dropTailWhile_append_drop _ _).symm rfl
  simp only [splitSpace, hlead, htrail, ok_bind, pure_eq_ok, Spaced.ofText]

/-- Changes what is between the blanks of each part, from a place on; a state is carried along. -/
def mapParts {σ : Type} (f : σ → Bytes → Except Fault (Bytes × σ)) (i : Nat) (out : List Bytes) :
    σ → List Bytes → Except Fault (List Bytes × σ)
  | state, [] => return (out, state)
  | state, part :: parts => do
    let p ← splitSpace part
    let (core, state) ← f state p.core
    let out ← setAt out i (p.lead ++ core ++ p.trail)
    mapParts f (i + 1) out state parts

/-- Changes every item of a list and keeps the blanks around it; a state is carried along. -/
def mapItems {σ : Type} (f : σ → Bytes → Except Fault (Bytes × σ)) (state : σ) (list : Bytes) :
    Except Fault (Bytes × σ) := do
  let parts ← splitTopLevel list
  let (parts, state) ← mapParts f 0 parts state parts
  return (Bytes.join [comma] parts, state)

/-- Changes what is between the blanks of each item; a state is carried along. -/
def mapCores {σ : Type} (f : σ → Bytes → Except Fault (Bytes × σ)) :
    σ → List Spaced → Except Fault (List Spaced × σ)
  | state, [] => return ([], state)
  | state, p :: ps => do
    let (core, state) ← f state p.core
    let (rest, state) ← mapCores f state ps
    return ({ p with core } :: rest, state)

/-- The items of a list are changed one by one. -/
theorem mapItems_eq {σ : Type} (f : σ → Bytes → Except Fault (Bytes × σ)) (state : σ)
    (list : Bytes) :
    mapItems f state list
      = (mapCores f state (items list)).map fun (ps, state) => (ofItems ps, state) := by
  -- `left` is what the parts still to be changed are written over
  have hparts : ∀ parts written left state, left.length = parts.length →
      mapParts f written.length (written ++ left) state parts
        = (mapCores f state (parts.map Spaced.ofText)).map fun (ps, state) =>
            (written ++ ps.map Spaced.text, state) := by
    intro parts
    induction parts with
    | nil =>
      intro written left state h
      obtain rfl := List.length_eq_zero_iff.1 h
      rfl
    | cons part parts ih =>
      intro written left state h
      obtain ⟨x, left, rfl⟩ := List.exists_cons_of_length_eq_add_one h
      rw [mapParts, List.map_cons, mapCores, splitSpace_ok, ok_bind]
      cases f state (Spaced.ofText part).core with
      | error e => rfl
      | ok r =>
        obtain ⟨core, next⟩ := r
        have hnext := ih (written ++ [Spaced.text { Spaced.ofText part with core }]) left next
          (Nat.succ.inj h)
        rw [List.append_assoc, List.length_append] at hnext
        rw [ok_bind, ok_bind]
        dsimp only
        rw [setAt_eq rfl rfl, ok_bind]
        refine hnext.trans ?_
        cases mapCores f next (parts.map Spaced.ofText) with
        | error e => rfl
        | ok r => exact congrArg (fun l => Except.ok (l, r.2)) (List.append_assoc _ _ _)
  have hall := hparts (splitTop list) [] (splitTop list) state rfl
  rw [List.nil_append, List.length_nil] at hall
  rw [mapItems, splitTopLevel_ok, ok_bind, hall, items]
  cases mapCores f state ((splitTop list).map Spaced.ofText) with
  | error e => rfl
  | ok r => rfl

/-- The text without blanks and semicolons at its end, and whether there was a semicolon. -/
def trimStatementEnd (s : Bytes) : Except Fault (Bytes × Bool) := do
  let trimmed := Bytes.dropTailWhile (fun b => Bytes.isBlank b || b == 59) s
  let tail ← sliceFrom s trimmed.length
  return (trimmed, tail.contains 59)

theorem trimStatementEnd_ok (s : Bytes) :
    trimStatementEnd s = .ok (SqlDialect.trimStatementEnd s) := by
  have htail : sliceFrom s (Bytes.dropTailWhile (fun b => Bytes.isBlank b || b == 59) s).length
      = .ok (s.drop (Bytes.dropTailWhile (fun b => Bytes.isBlank b || b == 59) s).length) :=
    sliceFrom_eq (Bytes.dropTailWhile_append_drop _ _).symm rfl
  rw [trimStatementEnd]
  simp only [htail, ok_bind, pure_eq_ok, SqlDialect.trimStatementEnd]

/-! ## The select list -/

/-- Where the select list of a SELECT statement starts and ends. -/
def selectList (s : Bytes) : Except Fault (Option (Nat × Nat)) :=
  match selectHeadPattern.span? s with
  | none => return none
  | some (_, start) => do
    match ← findTopLevel s Clause.fromPattern start with
    | some (low, _) => return some (start, low)
    | none => return some (start, s.length)

/-- A SELECT statement is cut outside parentheses. -/
theorem cut_of_ofText? {s : Bytes} {p : SelectParts} (h : SelectParts.ofText? s = some p) :
    s = p.head ++ p.list ++ p.tail ∧ depthAfter 0 p.head = 0 ∧
      (p.tail = [] ∨ p.tail ≠ [] ∧ depthAfter 0 p.list = 0) := by
  obtain ⟨m, hm, rfl⟩ := Option.map_eq_some_iff.1 h
  obtain ⟨hs, hhead, -, -⟩ := find?_selectHead hm
  have hdepth := depthAfter_plain hhead.plain 0
  cases hfrom : findTop? Clause.fromPattern m.after with
  | none => exact ⟨by rw [List.append_nil, ← hs], hdepth, Or.inl rfl⟩
  | some f =>
    obtain ⟨hafter, c', hplaces⟩ :=
      Pattern.places_of_findTop? (Pattern.consumes_wholeWord (by decide)) hfrom
    have hne := hplaces.text_ne_nil (Pattern.consumes_wholeWord (by decide))
    refine ⟨?_, hdepth, Or.inr ⟨?_, depth_of_findTop? hfrom⟩⟩
    · rw [hs, hafter]
      simp only [List.append_assoc]
    · simp [hne]

theorem selectList_ok (s : Bytes) :
    selectList s = .ok ((SelectParts.ofText? s).map fun p =>
      (p.head.length, p.head.length + p.list.length)) := by
  rw [selectList, Pattern.span?, SelectParts.ofText?]
  cases hm : selectHeadPattern.find? s with
  | none => rfl
  | some m =>
    obtain ⟨hs, hhead, -, -⟩ := find?_selectHead hm
    have hfind := findTopLevel_ok Clause.fromPattern m.after fun _ => depthAfter_plain hhead.plain 0
    rw [← hs] at hfind
    simp only [Option.map_some, Pattern.before_eq_nil hm, List.length_nil, Nat.zero_add, hfind,
      ok_bind]
    cases findTop? Clause.fromPattern m.after with
    | none =>
      have hlen : s.length = m.text.length + m.after.length := by
        rw [← List.length_append, ← hs]
      simp only [Option.map_none, pure_eq_ok, hlen]
    | some f => rfl

/-- Whether the statement is a SELECT that reads from a table. -/
def readsTable (s : Bytes) : Except Fault Bool := do
  match ← selectList s with
  | some (_, stop) => return stop < s.length
  | none => return false

theorem readsTable_ok (s : Bytes) : readsTable s = .ok (SqlDialect.readsTable s) := by
  rw [readsTable, selectList_ok, SqlDialect.readsTable, ok_bind]
  cases h : SelectParts.ofText? s with
  | none => rfl
  | some p =>
    obtain ⟨hs, -, -⟩ := cut_of_ofText? h
    have hlen := congrArg List.length hs
    simp only [List.length_append] at hlen
    have hlt : p.head.length + p.list.length < s.length ↔ p.tail ≠ [] := by
      rw [← List.length_pos_iff]
      omega
    have htail : decide (p.head.length + p.list.length < s.length) = !p.tail.isEmpty := by
      rw [Bool.eq_iff_iff]
      simp [hlt]
    exact congrArg Except.ok htail

end Checked

end SqlDialect
