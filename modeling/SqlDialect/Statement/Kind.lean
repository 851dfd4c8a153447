import SqlDialect.Literal
import SqlDialect.Text.Case
import SqlDialect.Text.Space

set_option autoImplicit false

/-! # Kinds of statements

The kind of a statement is read off its first words, behind white space and comments, and selects
the rules that apply to it. -/

namespace SqlDialect

/-- The class of a statement. -/
inductive Kind where
  | other
  | select
  | insert
  | replace
  | update
  | delete
  | createTable
  | alterTable
deriving Repr, DecidableEq

namespace Kind

/-- All kinds, in the order of their codes. -/
def all : List Kind :=
  [other, select, insert, replace, update, delete, createTable, alterTable]

/-- The kind with a given code; every other code means `other`. -/
def ofCode (n : Int) : Kind :=
  if n < 0 then other else all.getD n.toNat other

/-- The name of a kind in logs and journals. -/
def name : Kind → Bytes
  | other => ascii "OTHER"
  | select => ascii "SELECT"
  | insert => ascii "INSERT"
  | replace => ascii "REPLACE"
  | update => ascii "UPDATE"
  | delete => ascii "DELETE"
  | createTable => ascii "CREATE_TABLE"
  | alterTable => ascii "ALTER_TABLE"

end Kind

/-! ## Leading comments -/

/-- What follows the first newline; nothing if there is none. -/
def dropLine : Bytes → Bytes
  | [] => []
  | b :: s => if b = 10 then s else dropLine s

/-- What follows the comment that starts the text, if one does. An unclosed comment runs to the
end. -/
def dropComment? (s : Bytes) : Option Bytes :=
  match Bytes.dropLead? (ascii "/*") s with
  | some inner => some (((Bytes.cut? (ascii "*/") inner).map Prod.snd).getD [])
  | none =>
    if Bytes.startsWith s (ascii "--") || Bytes.startsWith s (ascii "#") then some (dropLine s)
    else none

theorem length_dropLine (s : Bytes) : (dropLine s).length ≤ s.length - 1 := by
  induction s with
  | nil => simp [dropLine]
  | cons b s ih =>
    rw [dropLine]
    split
    · simp
    · simp
      omega

theorem length_of_dropComment? {s rest : Bytes} (h : dropComment? s = some rest) :
    rest.length < s.length := by
  rw [dropComment?] at h
  split at h
  · rename_i inner hi
    have hlen := Bytes.length_of_dropLead? hi
    have htwo : (ascii "/*").length = 2 := rfl
    cases hc : Bytes.cut? (ascii "*/") inner with
    | none => simp [hc] at h; subst h; simp; omega
    | some p =>
      obtain ⟨before, after⟩ := p
      have := Bytes.length_of_cut? hc
      simp [hc] at h
      subst h
      omega
  · split at h
    · rename_i hs
      simp only [Option.some.injEq] at h
      subst h
      have := length_dropLine s
      cases s with
      | nil => simp [Bytes.startsWith, ascii, Bytes.dropLead?] at hs
      | cons b s => simp at this ⊢; omega
    · simp at h

/-- The text behind leading blanks and comments. -/
def skipLeadingComments (s : Bytes) : Bytes :=
  match _h : dropComment? (Bytes.trimLeft s) with
  | some rest => skipLeadingComments rest
  | none => Bytes.trimLeft s
termination_by s.length
decreasing_by
  have h₁ := length_of_dropComment? _h
  have h₂ : (Bytes.trimLeft s).length ≤ s.length := (List.dropWhile_suffix _).length_le
  omega

/-! ## Classification -/

/-- The kind that upper-case leading words announce. -/
def Kind.ofWords : List Bytes → Kind
  | [] => other
  | word :: rest =>
    if word = ascii "SELECT" ∨ word = ascii "(SELECT" then select
    else if word = ascii "INSERT" then insert
    else if word = ascii "REPLACE" then replace
    else if word = ascii "UPDATE" then update
    else if word = ascii "DELETE" then delete
    else if word = ascii "CREATE" then
      if rest.head? = some (ascii "TABLE") then createTable
      else if rest.take 2 = [ascii "TEMPORARY", ascii "TABLE"] then createTable
      else other
    else if word = ascii "ALTER" then
      if rest.head? = some (ascii "TABLE") then alterTable else other
    else other

/-- The kind of a statement whose literals have been taken out. -/
def Kind.ofShielded (s : Bytes) : Kind :=
  Kind.ofWords (((Bytes.words (skipLeadingComments s)).take 3).map Bytes.toUpper)

/-- The kind of a statement. -/
def Kind.ofStatement (sql : Bytes) : Kind :=
  Kind.ofShielded (shield sql).1

end SqlDialect
