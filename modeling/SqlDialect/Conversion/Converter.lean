import SqlDialect.Conversion.Memo
import SqlDialect.Conversion.Rule

set_option autoImplicit false

/-! # The converter

A converter turns statements of MySQL's dialect into PostgreSQL's. It holds the key catalog, which
table definitions fill and upserts read, and possibly a store of earlier conversions. A session
remembers the last query that read from a table, which a later `SELECT FOUND_ROWS()` counts.

Conversion never fails: a statement that the rules cannot deal with is passed through unchanged. -/

namespace SqlDialect

/-- What spans the statements of one request. -/
structure Session where
  /-- The last query that read from a table. -/
  lastQuery : Bytes := []
deriving Repr, DecidableEq

/-- The state that all sessions share; `κ` is the store of earlier conversions. -/
structure Converter (κ : Type := Memo) where
  options : TypeOptions := {}
  catalog : KeyCatalog := {}
  memo : Option κ := none

namespace Converter

variable {κ : Type} [Cache κ]

/-- A converter with a store for so many conversions; none for a size that is not positive. -/
def withMemo (c : Converter κ) (size : Int) : Converter κ :=
  { c with memo := if size ≤ 0 then none else some (Cache.new size.toNat) }

/-- The number of stored conversions. -/
def memoSize (c : Converter κ) : Nat :=
  (c.memo.map Cache.size).getD 0

end Converter

/-- What is left after a statement has been converted. -/
structure Conversion (κ : Type := Memo) where
  converter : Converter κ
  session : Option Session
  kind : Kind
  output : Bytes
  log : List LogEntry

namespace Kind

/-- Whether statements of the kind are converted in the same way every time. Table definitions feed
the catalog and inserts read it. -/
def isMemoizable : Kind → Bool
  | select | update | delete | other => true
  | insert | replace | createTable | alterTable => false

end Kind

namespace Converter

variable {κ : Type}

/-- Runs the rules on a statement whose literals have been taken out. -/
def runRules (c : Converter κ) (kind : Kind) (text : Bytes) (literals : LiteralTable) :
    Except Fault Draft :=
  SqlDialect.runRules conversionRules
    { kind, text, literals, options := c.options, catalog := c.catalog }

/-- The entry that is logged when a statement is passed through. -/
def passedThrough (sql : Bytes) (f : Fault) : LogEntry :=
  { level := .warn
    message := ascii "rewrite failed, passing statement through"
    fields := [(ascii "panic", .text f.message), (ascii "in", .text sql)] }

/-- The entry that is logged for every statement. -/
def converted (kind : Kind) (sql out : Bytes) : LogEntry :=
  { level := .debug
    message := ascii "rewrite"
    fields := [(ascii "kind", .text kind.name), (ascii "in", .text sql), (ascii "out", .text out),
      (ascii "elapsed", .elapsed)] }

/-- Converts a statement by the rules alone: the output, the catalog afterwards and the log. A fault
leaves the statement as it is. -/
def convertFresh (c : Converter κ) (sql : Bytes) (kind : Kind) (text : Bytes)
    (literals : LiteralTable) : Except (List LogEntry) (Bytes × KeyCatalog × List LogEntry) :=
  match c.runRules kind text literals with
  | .ok d => .ok (d.result, d.catalog, d.log)
  | .error f => .error [passedThrough sql f]

/-- Remembers the statement in the session if it is a query that reads from a table. -/
def remember (session : Option Session) (sql : Bytes) (kind : Kind) (shielded : Bytes) :
    Option Session :=
  if kind = .select ∧ !isFoundRowsLookup shielded ∧ readsTable shielded then
    session.map fun _ => ⟨sql⟩
  else session

section Stored

variable [Cache κ]

/-- Looks a statement up in the store, if there is one and the kind is stored. -/
def lookUp (c : Converter κ) (kind : Kind) (sql : Bytes) : Option Bytes × Converter κ :=
  match c.memo with
  | some memo =>
    if kind.isMemoizable then
      let (output, memo) := Cache.get memo sql
      (output, { c with memo := some memo })
    else (none, c)
  | none => (none, c)

/-- Adds a conversion to the store, if there is one and the kind is stored. -/
def store (c : Converter κ) (kind : Kind) (sql output : Bytes) : Converter κ :=
  if kind.isMemoizable then { c with memo := c.memo.map (Cache.add · sql output) } else c

/-- Converts a statement of a session; without a session no query is remembered. A statement is
stored only after its rules have run without a fault. -/
def convert (c : Converter κ) (session : Option Session) (sql : Bytes) : Conversion κ :=
  let (shielded, literals) := shield sql
  let kind := Kind.ofShielded shielded
  let session' := remember session sql kind shielded
  let finish (c : Converter κ) (output : Bytes) (log : List LogEntry) : Conversion κ :=
    ⟨c, session', kind, output, log ++ [converted kind sql output]⟩
  if kind = .select ∧ isFoundRowsLookup shielded then
    let (text, literals) := foundRowsQuery ((session.map Session.lastQuery).getD [])
    match c.convertFresh sql .select text literals with
    | .ok (output, catalog, log) => finish { c with catalog } output log
    | .error log => finish c sql log
  else
    match c.lookUp kind sql with
    | (some output, c) => finish c output []
    | (none, c) =>
      match c.convertFresh sql kind shielded literals with
      | .ok (output, catalog, log) =>
        finish ({ c with catalog }.store kind sql output) output log
      | .error log => finish c sql log

end Stored

end Converter

end SqlDialect
