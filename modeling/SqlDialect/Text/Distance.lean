import SqlDialect.Text.Bytes

set_option autoImplicit false

/-! # Edit distance

How many bytes have to be put in, left out or replaced to make one text from another. The distances
of a text from all leading parts of the other one form a row; each further byte turns a row into the
next. -/

namespace SqlDialect

namespace Bytes

/-- The rest of the next row: `left` is the entry made last and `diagonal` the entry above it. -/
def extendRow (a : UInt8) (left diagonal : Nat) : Bytes → List Nat → List Nat
  | b :: t, above :: row =>
    let here := if a = b then diagonal else min (min left above) diagonal + 1
    here :: extendRow a here above t row
  | _, _ => []

/-- The row for one more byte. -/
def nextRow (t : Bytes) (row : List Nat) (a : UInt8) : List Nat :=
  match row with
  | [] => []
  | first :: row => (first + 1) :: extendRow a (first + 1) first t row

/-- The edit distance of two texts. -/
def distance (s t : Bytes) : Nat :=
  (s.foldl (nextRow t) (List.range (t.length + 1))).getLastD 0

end Bytes

end SqlDialect
