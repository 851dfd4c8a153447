import SqlDialect.Text.Bytes

set_option autoImplicit false

/-! # Named values

Values under names, in the order in which the names were first used. -/

namespace SqlDialect

/-- Values under names; each name occurs once. -/
abbrev Named (α : Type) := List (Bytes × α)

namespace Named

/-- Puts a value under a name, in the place of an earlier one if there is one. -/
def assign {α : Type} (entries : Named α) (name : Bytes) (value : α) : Named α :=
  if entries.any (·.1 == name) then
    entries.map fun e => if e.1 == name then (name, value) else e
  else entries ++ [(name, value)]

end Named

end SqlDialect
