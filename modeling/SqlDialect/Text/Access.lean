import SqlDialect.Text.Bytes

set_option autoImplicit false

/-! # Access by place

Elements are read and stretches are cut out by their places. A place comes out of arithmetic and may
be any integer: an access out of range is a fault, which stops the conversion of a statement. Faults
are worded as the runtime words them. -/

namespace SqlDialect

/-- An access out of range. -/
inductive Fault where
  /-- No element stands at the place. -/
  | index (i : Int) (length : Nat)
  /-- A stretch ends in front of the text or behind its end. -/
  | sliceEnd (high : Int) (length : Nat)
  /-- A stretch starts in front of the text or behind its own end. -/
  | sliceStart (low high : Int)
deriving Repr, DecidableEq

namespace Fault

/-- An integer in decimal. -/
def number (i : Int) : Bytes :=
  if i < 0 then ascii "-" ++ Bytes.decimal i.natAbs else Bytes.decimal i.natAbs

/-- The length that an access went beyond; a negative place is beyond every length. -/
def beyond (i : Int) (length : Nat) : Bytes :=
  if i < 0 then [] else ascii " with length " ++ Bytes.decimal length

/-- How the log words a fault. -/
def message : Fault → Bytes
  | index i length =>
    ascii "runtime error: index out of range [" ++ number i ++ ascii "]" ++ beyond i length
  | sliceEnd high length =>
    ascii "runtime error: slice bounds out of range [:" ++ number high ++ ascii "]" ++
      beyond high length
  | sliceStart low high =>
    ascii "runtime error: slice bounds out of range [" ++ number low ++ ascii ":" ++
      (if low < 0 then [] else number high) ++ ascii "]"

end Fault

variable {α : Type}

/-- The element at a place. -/
def elementAt (l : List α) (i : Int) : Except Fault α :=
  match if 0 ≤ i then l[i.toNat]? else none with
  | some a => .ok a
  | none => .error (.index i l.length)

/-- The list with another element at a place. -/
def setAt (l : List α) (i : Int) (a : α) : Except Fault (List α) :=
  if 0 ≤ i ∧ i < l.length then .ok (l.set i.toNat a) else .error (.index i l.length)

/-- The stretch between two places. -/
def slice (l : List α) (low high : Int) : Except Fault (List α) :=
  if high < 0 ∨ l.length < high then .error (.sliceEnd high l.length)
  else if low < 0 ∨ high < low then .error (.sliceStart low high)
  else .ok ((l.take high.toNat).drop low.toNat)

/-- The stretch from a place to the end. -/
def sliceFrom (l : List α) (low : Int) : Except Fault (List α) :=
  slice l low l.length

/-- The stretch from the start to a place. -/
def sliceTo (l : List α) (high : Int) : Except Fault (List α) :=
  slice l 0 high

end SqlDialect
