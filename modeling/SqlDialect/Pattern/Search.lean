import SqlDialect.Pattern.Basic

set_option autoImplicit false

/-! # Searching with patterns

The first match of a pattern in a text, all matches from left to right without overlap, and
replacement. A match is given by the three parts of the text that it separates: what precedes it,
what it covers, and what follows. -/

namespace SqlDialect

/-- A match: the text is `before ++ text ++ after`. -/
structure Match where
  before : Bytes
  text : Bytes
  after : Bytes
  groups : List (Nat × Bytes)
deriving Repr, DecidableEq

namespace Match

/-- What the group recorded, if it took part in the match. -/
def group? (m : Match) (n : Nat) : Option Bytes :=
  m.groups.lookup n

/-- What the group recorded; empty if it took no part in the match. -/
def group (m : Match) (n : Nat) : Bytes :=
  (m.group? n).getD []

/-- The match seen from one byte further left. -/
def shift (b : UInt8) (m : Match) : Match :=
  { m with before := b :: m.before }

end Match

namespace Pattern

/-- The match that starts right here, `prev` being the byte before. -/
def matchHere? (p : Pattern) (prev : Option UInt8) (s : Bytes) : Option Match :=
  (p.run { prev, rest := s } some).map fun c =>
    { before := []
      text := s.take c.taken
      after := c.rest
      groups := c.groups.map fun g => (g.number, g.text s) }

/-- The set of a repetition of single characters with which the pattern starts. Where such a pattern
does not match, it does not match behind a character of the set either: the repetition could have
taken that character as well. -/
def leadRun? : Pattern → Option CharSet
  | many (one set) => some set
  | manyLazy (one set) => some set
  | seq (one set) q => if q.leadRun? = some set then some set else none
  | seq p _ => p.leadRun?
  | group _ p => p.leadRun?
  | _ => none

/-- How many bytes behind `b` can be passed over when the pattern does not match at `b`: those that
belong to the same character, and those up to the end of a run that starts with `b`. -/
def stride (p : Pattern) (b : UInt8) (s : Bytes) : Nat :=
  let inRun (set : CharSet) (b : UInt8) : Bool := b < 128 && set.contains b.toNat
  match p.leadRun? with
  | some set => if inRun set b then (s.takeWhile (inRun set)).length else (Utf8.lead b s).2
  | none => (Utf8.lead b s).2

/-- The leftmost match that starts at a character of the text after its first `skip` bytes. -/
def findFrom? (p : Pattern) : Nat → Option UInt8 → Bytes → Option Match
  | 0, prev, [] => p.matchHere? prev []
  | 0, prev, b :: s =>
    match p.matchHere? prev (b :: s) with
    | some m => some m
    | none => (p.findFrom? (p.stride b s) (some b) s).map (Match.shift b)
  | _ + 1, _, [] => none
  | skip + 1, _, b :: s => (p.findFrom? skip (some b) s).map (Match.shift b)

/-- The leftmost match in the text. -/
def find? (p : Pattern) (s : Bytes) : Option Match :=
  p.findFrom? 0 none s

/-- Whether the pattern matches somewhere in the text. -/
def occursIn (p : Pattern) (s : Bytes) : Bool :=
  (p.find? s).isSome

/-- The matches from left to right, `prev` being the byte before the text. The part before a match
starts where the match before it ended. The patterns searched for in this way match no empty
text; an empty match would end the search. -/
def allFrom (p : Pattern) (prev : Option UInt8) (s : Bytes) : List Match :=
  match p.findFrom? 0 prev s with
  | none => []
  | some m =>
    if m.after.length < s.length then
      m :: p.allFrom m.text.getLast? m.after
    else []
termination_by s.length

/-- All matches from left to right; the part before each starts where the one before it ended. -/
def all (p : Pattern) (s : Bytes) : List Match :=
  p.allFrom none s

/-- Writes `f m` for each match `m`, and keeps what is between the matches. -/
def replaceWith (p : Pattern) (f : Match → Bytes) (s : Bytes) : Bytes :=
  let hits := p.all s
  hits.flatMap (fun m => m.before ++ f m) ++ ((hits.getLast?.map Match.after).getD s)

/-- Replaces each match by a fixed text. -/
def replace (p : Pattern) (new s : Bytes) : Bytes :=
  p.replaceWith (fun _ => new) s

/-- Removes each match. -/
def erase (p : Pattern) (s : Bytes) : Bytes :=
  p.replace [] s

end Pattern

end SqlDialect
