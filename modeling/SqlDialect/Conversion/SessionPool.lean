import SqlDialect.Catalog.Step
import SqlDialect.Conversion.Converter

set_option autoImplicit false

/-! # Many sessions on one converter

Sessions are known by name and begin when they are first used; a statement without a session name is
converted without one. The steps of all sessions may be interleaved in any order. -/

namespace SqlDialect

/-- A converter and the sessions that use it. -/
structure SessionPool (κ : Type := Memo) where
  converter : Converter κ := {}
  sessions : List (Bytes × Session) := []

/-- What can happen to a pool of sessions. -/
inductive PoolStep where
  /-- A statement of a session; the empty name means no session. -/
  | convert (session sql : Bytes)
  /-- A session forgets its last query. -/
  | reset (session : Bytes)
  /-- An operation on the converter's catalog. -/
  | catalog (s : CatalogStep)

/-- What a step is answered with. -/
inductive PoolAnswer where
  /-- The kind of a statement and what it was converted to. -/
  | converted (kind : Kind) (output : Bytes)
  /-- A last query is forgotten. -/
  | forgotten
  /-- What the catalog says. -/
  | catalog (a : CatalogAnswer)
deriving Repr, DecidableEq

namespace SessionPool

variable {κ : Type}

/-- The session of a name, which begins if it is new; none for the empty name. -/
def session? (p : SessionPool κ) (name : Bytes) : Option Session :=
  if name.isEmpty then none else some ((p.sessions.lookup name).getD {})

/-- Keeps a session under its name. -/
def setSession (p : SessionPool κ) (name : Bytes) : Option Session → SessionPool κ
  | none => p
  | some s => { p with sessions := (name, s) :: p.sessions.filter (·.1 != name) }

/-- The last query of a session; empty without a session. -/
def lastQuery (p : SessionPool κ) (name : Bytes) : Bytes :=
  ((p.session? name).map Session.lastQuery).getD []

variable [Cache κ]

/-- Converts a statement of a session. -/
def convert (p : SessionPool κ) (name sql : Bytes) : SessionPool κ × Conversion κ :=
  let r := p.converter.convert (p.session? name) sql
  ({ p with converter := r.converter }.setSession name r.session, r)

/-- Makes a session forget its last query. -/
def reset (p : SessionPool κ) (name : Bytes) : SessionPool κ :=
  p.setSession name ((p.session? name).map fun _ => {})

/-- Carries out an operation on the catalog. -/
def stepCatalog (p : SessionPool κ) (s : CatalogStep) : SessionPool κ × CatalogAnswer :=
  let (catalog, answer) := p.converter.catalog.step s
  ({ p with converter := { p.converter with catalog } }, answer)

/-- The pool after a step. -/
def step (p : SessionPool κ) : PoolStep → SessionPool κ
  | .convert name sql => (p.convert name sql).1
  | .reset name => p.reset name
  | .catalog s => (p.stepCatalog s).1

/-- The answer of the pool to a step. -/
def answer (p : SessionPool κ) : PoolStep → PoolAnswer
  | .convert name sql => .converted (p.convert name sql).2.kind (p.convert name sql).2.output
  | .reset _ => .forgotten
  | .catalog s => .catalog (p.stepCatalog s).2

/-- The pool after some steps. -/
def run (p : SessionPool κ) (steps : List PoolStep) : SessionPool κ :=
  steps.foldl step p

/-- The answers to some steps, in order. -/
def answers : SessionPool κ → List PoolStep → List PoolAnswer
  | _, [] => []
  | p, s :: steps => p.answer s :: answers (p.step s) steps

end SessionPool

end SqlDialect
