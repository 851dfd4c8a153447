import SqlDialect.Text.Bytes

set_option autoImplicit false

/-! # Log entries

What a run reports on the side: messages with a level, the name of the part that speaks, and named
values. -/

namespace SqlDialect

/-- How much an entry matters. -/
inductive LogLevel where
  | debug
  | info
  | warn
deriving Repr, DecidableEq

/-- A value in a log entry. -/
inductive LogValue where
  | text (s : Bytes)
  | texts (ss : List Bytes)
  | number (n : Nat)
  /-- How long something took. -/
  | elapsed
deriving Repr, DecidableEq

/-- One entry of the log. -/
structure LogEntry where
  level : LogLevel
  /-- The part that speaks; empty for the program itself. -/
  logger : Bytes := []
  message : Bytes
  fields : List (Bytes × LogValue) := []
deriving Repr, DecidableEq

end SqlDialect
