import SqlDialect.Conversion.Cache

set_option autoImplicit false

/-! # Remembered conversions

A store of conversions that drops the one that was not used for longest when there is no room.
Looking a statement up or adding it makes it the most recent one. It is the store that converters
have unless another one is named. -/

namespace SqlDialect

/-- Converted statements, the most recently used first, at most `capacity` of them. -/
structure Memo where
  capacity : Nat
  entries : List (Bytes × Bytes) := []
deriving Repr, DecidableEq

namespace Memo

/-- The conversion of a statement, if it is in the store. -/
def get? (m : Memo) (sql : Bytes) : Option Bytes :=
  m.entries.lookup sql

/-- Puts a statement in front. -/
def insert (m : Memo) (sql out : Bytes) : Memo :=
  { m with entries := ((sql, out) :: m.entries.filter (·.1 != sql)).take m.capacity }

@[default_instance]
instance : Cache Memo where
  new capacity := { capacity }
  get m sql :=
    match m.get? sql with
    | some out => (some out, m.insert sql out)
    | none => (none, m)
  add := insert
  size m := m.entries.length

end Memo

end SqlDialect
