set_option autoImplicit false

/-! # Byte text

Statements, names and messages are plain byte sequences: nothing is lost on text that is not
valid UTF-8, and every offset is a byte offset. This file holds the type and the operations on
it that look at single bytes or at fixed byte sequences; characters are the business of
`SqlDialect.Text.Utf8`. -/

namespace SqlDialect

/-- Text as a sequence of bytes. -/
abbrev Bytes := List UInt8

/-- The bytes of an ASCII text: one byte per character. -/
def ascii (s : String) : Bytes :=
  s.toList.map fun c => c.toNat.toUInt8

/-- A text by its characters. A literal is by definition the string of its characters, so a rewrite
with this spares the kernel the UTF-8 form of the literal, which costs it more than most runs on it. -/
theorem ascii_ofList (cs : List Char) :
    ascii (String.ofList cs) = cs.map fun c => c.toNat.toUInt8 := by
  rw [ascii, String.toList_ofList]

/-! ## Deciding along a list

What holds of all members of a list is decided member by member, in preference to instances that go
through all elements of the type, of which bytes and characters have some. -/

instance (priority := 1100) decidableForallMem {α : Type} (s : List α) (P : α → Prop)
    [DecidablePred P] : Decidable (∀ a ∈ s, P a) :=
  List.decidableBAll P s

instance (priority := 1100) decidableForallMemOption {α : Type} (o : Option α) (P : α → Prop)
    [DecidablePred P] : Decidable (∀ a ∈ o, P a) :=
  Option.decidableForallMem o

instance (priority := 1100) decidableExistsMemOption {α : Type} (o : Option α) (P : α → Prop)
    [DecidablePred P] : Decidable (∃ a ∈ o, P a) :=
  Option.decidableExistsMem o

namespace Bytes

/-! ## Byte classes -/

/-- Space, tab, carriage return and newline: the blanks of a statement. -/
def isBlank (b : UInt8) : Bool :=
  b == 32 || b == 9 || b == 13 || b == 10

/-- A decimal digit. -/
def isDigit (b : UInt8) : Bool :=
  48 ≤ b && b ≤ 57

/-- An upper-case ASCII letter. -/
def isUpper (b : UInt8) : Bool :=
  65 ≤ b && b ≤ 90

/-- A lower-case ASCII letter. -/
def isLower (b : UInt8) : Bool :=
  97 ≤ b && b ≤ 122

/-- An ASCII letter, a digit or an underscore: the bytes of a word. -/
def isWord (b : UInt8) : Bool :=
  isLower b || isUpper b || isDigit b || b == 95

/-! ## Fixed byte sequences -/

/-- What follows `lead`, if the text starts with it. -/
def dropLead? : Bytes → Bytes → Option Bytes
  | [], s => some s
  | _ :: _, [] => none
  | a :: lead, b :: s => if a = b then dropLead? lead s else none

/-- Whether the text starts with `lead`. -/
def startsWith (s lead : Bytes) : Bool :=
  (dropLead? lead s).isSome

/-- What precedes `trail`, if the text ends with it. -/
def dropTrail? (trail s : Bytes) : Option Bytes :=
  (dropLead? trail.reverse s.reverse).map List.reverse

/-- Whether the text ends with `trail`. -/
def endsWith (s trail : Bytes) : Bool :=
  (dropTrail? trail s).isSome

/-- The text before and after the first occurrence of `sep`, if there is one. -/
def cut? (sep : Bytes) : Bytes → Option (Bytes × Bytes)
  | [] => (dropLead? sep []).map fun rest => ([], rest)
  | b :: s =>
    match dropLead? sep (b :: s) with
    | some rest => some ([], rest)
    | none => (cut? sep s).map fun (before, rest) => (b :: before, rest)

theorem length_of_dropLead? {lead s rest : Bytes} (h : dropLead? lead s = some rest) :
    s.length = lead.length + rest.length := by
  fun_induction dropLead? lead s <;> simp_all
  omega

theorem length_of_cut? {sep s before rest : Bytes}
    (h : cut? sep s = some (before, rest)) : rest.length ≤ s.length := by
  induction s generalizing before with
  | nil =>
    simp only [cut?, Option.map_eq_some_iff, Prod.mk.injEq] at h
    obtain ⟨r, hr, _, rfl⟩ := h
    have := length_of_dropLead? hr
    omega
  | cons b s ih =>
    rw [cut?] at h
    split at h
    · rename_i r hr
      have := length_of_dropLead? hr
      simp only [Option.some.injEq, Prod.mk.injEq] at h
      obtain ⟨_, rfl⟩ := h
      omega
    · simp only [Option.map_eq_some_iff, Prod.mk.injEq] at h
      obtain ⟨⟨a, r⟩, hr, _, rfl⟩ := h
      have := ih hr
      simp only [List.length_cons] at this ⊢
      omega

/-- Whether `part` occurs in the text. -/
def containsText (s part : Bytes) : Bool :=
  (cut? part s).isSome

/-- Replaces occurrences of `old` from left to right, skipping `skip` bytes first. -/
def replaceFrom (old new : Bytes) : Nat → Bytes → Bytes
  | _, [] => []
  | skip + 1, _ :: s => replaceFrom old new skip s
  | 0, b :: s =>
    if startsWith (b :: s) old then new ++ replaceFrom old new (old.length - 1) s
    else b :: replaceFrom old new 0 s

/-- Replaces every occurrence of the non-empty text `old`, left to right and without overlap. -/
def replaceAll (old new s : Bytes) : Bytes :=
  replaceFrom old new 0 s

/-- The parts between the occurrences of the byte `sep`; never empty. -/
def splitOnByte (sep : UInt8) : Bytes → List Bytes
  | [] => [[]]
  | b :: s =>
    match splitOnByte sep s with
    | [] => [[]]
    | part :: parts => if b = sep then [] :: part :: parts else (b :: part) :: parts

/-- The text before and after the last occurrence of the byte `sep`, if there is one. -/
def cutLast? (sep : UInt8) : Bytes → Option (Bytes × Bytes)
  | [] => none
  | b :: s =>
    match cutLast? sep s with
    | some (before, rest) => some (b :: before, rest)
    | none => if b = sep then some ([], s) else none

/-! ## Trimming and joining -/

/-- Drops the longest tail of bytes that satisfy `p`. -/
def dropTailWhile (p : UInt8 → Bool) (s : Bytes) : Bytes :=
  (s.reverse.dropWhile p).reverse

/-- The text without leading blanks. -/
def trimLeft (s : Bytes) : Bytes :=
  s.dropWhile isBlank

/-- The text without trailing blanks. -/
def trimRight (s : Bytes) : Bytes :=
  dropTailWhile isBlank s

/-- Puts `sep` between the parts. -/
def join (sep : Bytes) (parts : List Bytes) : Bytes :=
  sep.intercalate parts

/-! ## Numbers and order -/

/-- A natural number in decimal. -/
def decimal (n : Nat) : Bytes :=
  (Nat.toDigits 10 n).map fun c => c.toNat.toUInt8

/-- The value of a run of decimal digits. -/
def digitsValue (s : Bytes) : Nat :=
  s.foldl (fun n b => n * 10 + (b.toNat - 48)) 0

/-- Reads a signed 64-bit decimal integer: an optional sign and at least one digit. -/
def toInt64? (s : Bytes) : Option Int :=
  let (negative, digits) :=
    match s with
    | 43 :: rest => (false, rest)
    | 45 :: rest => (true, rest)
    | _ => (false, s)
  if digits.isEmpty || !digits.all isDigit then none
  else
    let n := digitsValue digits
    if negative then if n ≤ 9223372036854775808 then some (-(n : Int)) else none
    else if n < 9223372036854775808 then some (n : Int) else none

/-- Byte-wise lexicographic order. -/
def le : Bytes → Bytes → Bool
  | [], _ => true
  | _ :: _, [] => false
  | a :: s, b :: t => if a = b then le s t else a < b

/-- The texts in byte-wise order. -/
def sorted (ts : List Bytes) : List Bytes :=
  ts.mergeSort le

end Bytes

end SqlDialect
