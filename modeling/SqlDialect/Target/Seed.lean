import SqlDialect.Target.Server

set_option autoImplicit false

/-! # Learning the keys of the target

The unique indexes of the target go into the key catalog, so that upserts into tables that exist
already find their key. Rows that were read before an error stay in the catalog. -/

namespace SqlDialect

/-- Why the keys could not be read. -/
inductive SeedError where
  | notAsked (error : Bytes)
  | badRow (error : Bytes)
  | interrupted (error : Bytes)
deriving Repr, DecidableEq

namespace SeedError

/-- The wording of an error. -/
def message : SeedError → Bytes
  | notAsked error => ascii "query unique keys: " ++ error
  | badRow error => ascii "scan unique key: " ++ error
  | interrupted error => ascii "read unique keys: " ++ error

end SeedError

/-- The catalog after reading indexes, the number of rows read, and the error if there is one. -/
structure Seeded where
  catalog : KeyCatalog
  count : Nat := 0
  error : Option SeedError := none

namespace Seeded

/-- Reads the remaining rows. -/
def readRows (failure : Option Bytes) (s : Seeded) : List (Except Bytes IndexRow) → Seeded
  | [] => { s with error := failure.map .interrupted }
  | .error e :: _ => { s with error := some (.badRow e) }
  | .ok row :: rows =>
    { s with catalog := s.catalog.register row.table row.key, count := s.count + 1 }.readRows
      failure rows

end Seeded

namespace KeyCatalog

/-- Adds the indexes of an answer. -/
def seed (c : KeyCatalog) : IndexAnswer → Seeded
  | .refused e => { catalog := c, error := some (.notAsked e) }
  | .rows rows failure => ({ catalog := c } : Seeded).readRows failure rows

end KeyCatalog

end SqlDialect
