import SqlDialect.Catalog.Basic

set_option autoImplicit false

/-! # Working with a catalog step by step

The operations on a key catalog as values, and their answers. Where there is no catalog every
operation is answered as by an empty one, and nothing is kept. -/

namespace SqlDialect

/-- An operation on a key catalog. -/
inductive CatalogStep where
  | register (table : Bytes) (key : TableKey)
  | setTable (table : Bytes) (keys : List TableKey)
  | size
  | keys (table : Bytes)
  | conflictTarget (table : Bytes) (columns : List Bytes)
deriving Repr, DecidableEq

/-- The answer to an operation on a key catalog. -/
inductive CatalogAnswer where
  | size (n : Nat)
  | keys (ks : List TableKey)
  | target (columns : Option (List Bytes))
deriving Repr, DecidableEq

namespace KeyCatalog

/-- The catalog after an operation. -/
def after (c : KeyCatalog) : CatalogStep → KeyCatalog
  | .register table key => c.register table key
  | .setTable table keys => c.setTable table keys
  | .size | .keys _ | .conflictTarget _ _ => c

/-- The answer of a catalog to an operation that has been carried out. -/
def answer (c : KeyCatalog) : CatalogStep → CatalogAnswer
  | .register _ _ | .setTable _ _ | .size => .size c.size
  | .keys table => .keys (c.keys table)
  | .conflictTarget table columns => .target (c.conflictTarget? table columns)

/-- Carries out an operation and answers it. -/
def step (c : KeyCatalog) (s : CatalogStep) : KeyCatalog × CatalogAnswer :=
  (c.after s, (c.after s).answer s)

/-- Carries out an operation where there may be no catalog. -/
def stepOn (c : Option KeyCatalog) (s : CatalogStep) : Option KeyCatalog × CatalogAnswer :=
  match c with
  | some c => (some (c.after s), (c.after s).answer s)
  | none => (none, KeyCatalog.answer {} s)

end KeyCatalog

end SqlDialect
