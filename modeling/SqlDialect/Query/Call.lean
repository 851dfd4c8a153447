import SqlDialect.Pattern.Lemmas
import SqlDialect.Statement.Clause

set_option autoImplicit false

/-! # Function calls

Calls of functions that PostgreSQL spells differently. Some are renamed in place; `UNIX_TIMESTAMP`
and `DATE` change their shape, for which the argument text between the parentheses is needed. -/

namespace SqlDialect

/-- The head of a call: the function's name and the opening parenthesis. -/
def callHead (name : String) : Pattern :=
  .seqs [.wordEdge, .keyword name, .blanks, .text "("]

/-- A call without arguments. -/
def emptyCall (name : String) : Pattern :=
  .seqs [callHead name, .blanks, .text ")"]

/-- Writes `f arg` for each call whose head the pattern matches, from left to right; `head` ends at
the opening parenthesis. A call that is not closed is left as it is, with all that follows. -/
def mapCalls (head : Pattern) (f : Bytes → Bytes) (s : Bytes) : Bytes :=
  match _hm : head.find? s with
  | none => s
  | some m =>
    match _hp : splitParen? m.after with
    | none => s
    | some (arg, rest) => m.before ++ f arg ++ mapCalls head f rest
termination_by s.length
decreasing_by
  have h₁ := congrArg List.length (Pattern.text_of_find? _hm)
  have h₂ := length_of_splitParen? _hp
  simp only [List.length_append] at h₁
  omega

/-- Writes the calls of renamed functions, and `UNIX_TIMESTAMP` as the seconds of an instant. -/
def convertFunctions (s : Bytes) : Bytes :=
  let s := (callHead "SUBSTRING_INDEX").replace (ascii "split_part(") s
  let s := (emptyCall "UTC_TIMESTAMP").replace (ascii "CURRENT_TIMESTAMP AT TIME ZONE 'UTC'") s
  let s := (callHead "IFNULL").replace (ascii "COALESCE(") s
  let s := (emptyCall "RAND").replace (ascii "RANDOM()") s
  mapCalls (callHead "UNIX_TIMESTAMP") epochOf s
where
  /-- The seconds since the epoch of an instant; of the present one without an argument. -/
  epochOf (arg : Bytes) : Bytes :=
    let arg := Bytes.trimSpace arg
    if arg.isEmpty then ascii "extract(epoch from now())::bigint"
    else ascii "extract(epoch from " ++ arg ++ ascii ")::bigint"

/-- A cast to a date. -/
def castToDate (arg : Bytes) : Bytes :=
  let arg := Bytes.trimSpace arg
  if isPlainColumn arg then arg ++ ascii "::date" else ascii "(" ++ arg ++ ascii ")::date"

/-- Writes `DATE(x)` as a cast in the clauses that filter, group and order. The select list keeps its
calls. -/
def castDateCalls (s : Bytes) : Bytes :=
  let (head, clauses) := splitAtClause
    [Clause.wherePattern, Clause.groupByPattern, Clause.havingPattern, Clause.orderByPattern] s
  head ++ mapCalls (callHead "DATE") castToDate clauses

end SqlDialect
