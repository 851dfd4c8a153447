import SqlDialect.Identifier.Basic
import SqlDialect.Target.Server
import SqlDialect.Text.Quoted

set_option autoImplicit false

/-! # Preparing the target schema

What is done about a schema that may exist already: it is used as it is, made anew, or taken as an
error. -/

namespace SqlDialect

/-- What to do about an existing schema. -/
inductive SchemaPolicy where
  | reuse
  | fail
  | recreate
deriving Repr, DecidableEq

namespace SchemaPolicy

/-- The policy of a name. -/
def ofName? (name : Bytes) : Option SchemaPolicy :=
  if name = ascii "reuse" then some reuse
  else if name = ascii "error" then some fail
  else if name = ascii "recreate" then some recreate
  else none

/-- The name of a policy. -/
def name : SchemaPolicy → Bytes
  | reuse => ascii "reuse"
  | fail => ascii "error"
  | recreate => ascii "recreate"

end SchemaPolicy

/-- Why a schema could not be prepared. -/
inductive SchemaError where
  | notCreated (error : Bytes)
  | notDropped (error : Bytes)
  | notChecked (error : Bytes)
  | alreadyExists (schema : Bytes)
  | unknownPolicy (name : Bytes)
deriving Repr, DecidableEq

namespace SchemaError

/-- The wording of an error. -/
def message : SchemaError → Bytes
  | notCreated error => ascii "create schema: " ++ error
  | notDropped error => ascii "drop schema: " ++ error
  | notChecked error => ascii "check schema existence: " ++ error
  | alreadyExists schema =>
    ascii "schema " ++ Bytes.quoted schema ++
      ascii " already exists in target database (on_schema_exists=error)"
  | unknownPolicy name => ascii "unsupported on_schema_exists value " ++ Bytes.quoted name

end SchemaError

namespace TargetServer

/-- Executes a statement: the event, and the error in the given sense. -/
def run (s : TargetServer) (sql : Bytes) (asError : Bytes → SchemaError) :
    List TargetEvent × Option SchemaError :=
  ([.statement sql], (s.execute sql).map asError)

/-- Does a second thing unless the first has failed. -/
def andThen (first second : List TargetEvent × Option SchemaError) :
    List TargetEvent × Option SchemaError :=
  match first with
  | (events, some e) => (events, some e)
  | (events, none) => (events ++ second.1, second.2)

/-- Prepares a schema: what the server is asked, and the error if there is one. -/
def prepareSchema (s : TargetServer) (schema : Bytes) :
    SchemaPolicy → List TargetEvent × Option SchemaError
  | .reuse => s.run (ascii "CREATE SCHEMA IF NOT EXISTS " ++ doubleQuoted schema) .notCreated
  | .recreate =>
    andThen
      (s.run (ascii "DROP SCHEMA IF EXISTS " ++ doubleQuoted schema ++ ascii " CASCADE") .notDropped)
      (s.run (ascii "CREATE SCHEMA " ++ doubleQuoted schema) .notCreated)
  | .fail =>
    andThen
      ([.askSchema],
        match s.schemaExists with
        | .error e => some (.notChecked e)
        | .ok true => some (.alreadyExists schema)
        | .ok false => none)
      (s.run (ascii "CREATE SCHEMA " ++ doubleQuoted schema) .notCreated)

/-- Prepares a schema by the policy of a name. -/
def prepareSchemaNamed (s : TargetServer) (schema policy : Bytes) :
    List TargetEvent × Option SchemaError :=
  match SchemaPolicy.ofName? policy with
  | some p => s.prepareSchema schema p
  | none => ([], some (.unknownPolicy policy))

end TargetServer

end SqlDialect
