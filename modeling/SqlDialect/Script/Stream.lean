import SqlDialect.Job
import SqlDialect.Script.Split

set_option autoImplicit false

/-! # Converting a script

A script is converted statement by statement; the outcome is a script again, with an empty line
between statements. -/

namespace SqlDialect

/-- Why a script was not converted. -/
inductive StreamError where
  | notRead (error : Bytes)
  | notWritten (error : Bytes)
deriving Repr, DecidableEq

namespace StreamError

/-- The wording of an error. -/
def message : StreamError → Bytes
  | notRead error => ascii "read input: " ++ error
  | notWritten error => ascii "write output: " ++ error

end StreamError

namespace Job

variable {κ δ : Type} [Cache κ] [Database δ]

/-- Converts statements and notes them, in order. -/
def convertAll (j : Job κ δ) : List Bytes → Job κ δ × List Bytes
  | [] => (j, [])
  | sql :: rest =>
    let (j, out) := j.convert sql
    let (j, outs) := (j.note sql out none).convertAll rest
    (j, out :: outs)

/-- The script of some statements. -/
def scriptText (statements : List Bytes) : Bytes :=
  Bytes.join [10] (statements.map fun sql => terminate sql ++ [10])

/-- Converts a script. -/
def convertScript (j : Job κ δ) (script : Bytes) : Job κ δ × Bytes :=
  let (j, outs) := j.convertAll (splitStatements script)
  (j, scriptText outs)

/-- Converts a script that may be unreadable and whose outcome may be impossible to write. -/
def stream (j : Job κ δ) (input : Except Bytes Bytes) (writeError : Option Bytes) :
    Except StreamError (Job κ δ × Bytes) :=
  match input with
  | .error e => .error (.notRead e)
  | .ok script =>
    let (j, out) := j.convertScript script
    match writeError with
    | some e => if out.isEmpty then .ok (j, out) else .error (.notWritten e)
    | none => .ok (j, out)

end Job

end SqlDialect
