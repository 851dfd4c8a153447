import SqlDialect.Proofs.Checked.Literal
import SqlDialect.Statement.Kind

set_option autoImplicit false

/-! # Kinds of statements by place

The comments in front of a statement are cut off by their places, and its first words are looked at
one by one. -/

namespace SqlDialect.Checked

/-! ## Leading comments -/

theorem dropLine_eq (s : Bytes) : dropLine s = (throughByte 10 s).2 := by
  induction s with
  | nil => rfl
  | cons b s ih =>
    rw [dropLine, throughByte, ih]
    split <;> rfl

/-- What follows the comment that starts the text, if one does. An unclosed comment runs to the
end. -/
def dropComment (sql : Bytes) : Except Fault (Option Bytes) :=
  if Bytes.startsWith sql (ascii "/*") then do
    let inner ← sliceFrom sql 2
    match Bytes.placeOf? (ascii "*/") inner with
    | none => return some []
    | some n =>
      let rest ← sliceFrom sql ((n + 4 : Nat) : Int)
      return some rest
  else if Bytes.startsWith sql (ascii "--") || Bytes.startsWith sql (ascii "#") then
    match Bytes.placeOf? [10] sql with
    | none => return some []
    | some n => do
      let rest ← sliceFrom sql ((n + 1 : Nat) : Int)
      return some rest
  else return none

theorem dropComment_ok (sql : Bytes) : dropComment sql = .ok (dropComment? sql) := by
  rw [dropComment, dropComment?, Bytes.startsWith]
  cases hblock : Bytes.dropLead? (ascii "/*") sql with
  | some inner =>
    have hsql := Bytes.eq_append_of_dropLead? hblock
    have hinner : sliceFrom sql 2 = .ok inner := sliceFrom_eq hsql rfl
    rw [Option.isSome_some, if_pos rfl, hinner, ok_bind]
    cases hplace : Bytes.placeOf? (ascii "*/") inner with
    | none =>
      dsimp only
      rw [Option.map_eq_none_iff.1 hplace]
      rfl
    | some n =>
      obtain ⟨before, after, hcut, hparts, rfl⟩ := Bytes.parts_of_placeOf? hplace
      have hrest : sliceFrom sql ((before.length + 4 : Nat) : Int) = .ok after :=
        sliceFrom_eq (a := ascii "/*" ++ before ++ ascii "*/") (by rw [hsql, hparts]; simp)
          (by simp [ascii]; omega)
      dsimp only
      rw [hrest, hcut]
      rfl
  | none =>
    rw [Option.isSome_none, if_neg Bool.false_ne_true]
    dsimp only
    split
    · rw [dropLine_eq]
      rcases throughByte_eq 10 sql with ⟨hplace, hthrough⟩ | ⟨line, rest, hplace, hsql, hthrough⟩
      · rw [hplace, hthrough]
        rfl
      · have hrest : sliceFrom sql ((line.length + 1 : Nat) : Int) = .ok rest :=
          sliceFrom_eq (a := line ++ [10]) (by rw [hsql]; simp) (by simp)
        rw [hplace, hthrough]
        dsimp only
        rw [hrest]
        rfl
    · rfl

/-- The text behind leading blanks and comments. -/
def skipLeadingComments (s : Bytes) : Except Fault Bytes :=
  bindKnown (dropComment (Bytes.trimLeft s)) fun
    | some rest, _hrest => skipLeadingComments rest
    | none, _ => .ok (Bytes.trimLeft s)
termination_by s.length
decreasing_by
  rw [dropComment_ok] at _hrest
  have hrest := length_of_dropComment? (Except.ok.inj _hrest)
  have htrim : (Bytes.trimLeft s).length ≤ s.length := (List.dropWhile_suffix _).length_le
  omega

theorem skipLeadingComments_ok (s : Bytes) :
    skipLeadingComments s = .ok (SqlDialect.skipLeadingComments s) := by
  have hdrop := dropComment_ok (Bytes.trimLeft s)
  rw [skipLeadingComments, SqlDialect.skipLeadingComments]
  split
  · rename_i rest h
    rw [h] at hdrop
    rw [bindKnown_ok hdrop]
    exact skipLeadingComments_ok rest
  · rename_i h
    rw [h] at hdrop
    rw [bindKnown_ok hdrop]
termination_by s.length
decreasing_by
  rename_i h _
  have hrest := length_of_dropComment? h
  have htrim : (Bytes.trimLeft s).length ≤ s.length := (List.dropWhile_suffix _).length_le
  omega

/-! ## Classification -/

/-- The first words in upper case. -/
def leadingWords (s : Bytes) (n : Nat) : Except Fault (List Bytes) :=
  let fields := Bytes.words s
  if n < fields.length then do
    let fields ← sliceTo fields n
    writeEach [] (fun word => .ok (Bytes.toUpper word)) fields
  else writeEach [] (fun word => .ok (Bytes.toUpper word)) fields

theorem leadingWords_ok (s : Bytes) (n : Nat) :
    leadingWords s n = .ok (((Bytes.words s).take n).map Bytes.toUpper) := by
  rw [leadingWords]
  split
  · rename_i h
    have hto : sliceTo (Bytes.words s) n = .ok ((Bytes.words s).take n) :=
      sliceTo_eq (List.take_append_drop n _).symm
        (by rw [List.length_take_of_le (Nat.le_of_lt h)])
    rw [hto, ok_bind]
    exact writeEach_ok [] fun _ _ => rfl
  · rename_i h
    rw [List.take_of_length_le (Nat.le_of_not_lt h)]
    exact writeEach_ok [] fun _ _ => rfl

/-- Whether there are more than `n` words and the next one is this. -/
def wordIs (words : List Bytes) (n : Nat) (word : Bytes) : Except Fault Bool :=
  if n < words.length then do
    let w ← elementAt words n
    return w == word
  else return false

theorem wordIs_ok (words : List Bytes) (n : Nat) (word : Bytes) :
    wordIs words n word = .ok (words[n]? == some word) := by
  rw [wordIs]
  split
  · rename_i h
    rw [elementAt_of_getElem? (List.getElem?_eq_getElem h), List.getElem?_eq_getElem h]
    rfl
  · rename_i h
    rw [List.getElem?_eq_none (Nat.le_of_not_lt h)]
    rfl

/-- The kind that upper-case leading words announce. -/
def kindOf (words : List Bytes) : Except Fault Kind :=
  if words.length = 0 then return .other
  else do
    let word ← elementAt words 0
    if word = ascii "SELECT" ∨ word = ascii "(SELECT" then return .select
    else if word = ascii "INSERT" then return .insert
    else if word = ascii "REPLACE" then return .replace
    else if word = ascii "UPDATE" then return .update
    else if word = ascii "DELETE" then return .delete
    else if word = ascii "CREATE" then
      if ← wordIs words 1 (ascii "TABLE") then return .createTable
      else if ← wordIs words 1 (ascii "TEMPORARY") then
        if ← wordIs words 2 (ascii "TABLE") then return .createTable else return .other
      else return .other
    else if word = ascii "ALTER" then
      if ← wordIs words 1 (ascii "TABLE") then return .alterTable else return .other
    else return .other

theorem kindOf_ok (words : List Bytes) : kindOf words = .ok (Kind.ofWords words) := by
  cases words with
  | nil => rfl
  | cons word rest =>
    rw [kindOf, if_neg (by simp), elementAt_cons, ok_bind, Kind.ofWords]
    simp only [wordIs_ok, ok_bind, pure_eq_ok]
    have htemporary : (rest.take 2 = [ascii "TEMPORARY", ascii "TABLE"])
        ↔ rest[0]? = some (ascii "TEMPORARY") ∧ rest[1]? = some (ascii "TABLE") := by
      rcases rest with _ | ⟨a, _ | ⟨b, rest⟩⟩ <;> simp
    simp only [htemporary, List.head?_eq_getElem?, List.getElem?_cons_succ, beq_iff_eq]
    grind

/-- The kind of a statement whose literals have been taken out. -/
def classify (s : Bytes) : Except Fault Kind := do
  let s ← skipLeadingComments s
  let words ← leadingWords s 3
  kindOf words

theorem classify_ok (s : Bytes) : classify s = .ok (Kind.ofShielded s) := by
  rw [classify, skipLeadingComments_ok, ok_bind, leadingWords_ok, ok_bind, kindOf_ok]
  rfl

end SqlDialect.Checked
