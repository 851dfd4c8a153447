import SqlDialect.Pattern.CharSet
import SqlDialect.Text.Utf8

set_option autoImplicit false

/-! # Patterns

A pattern describes a stretch of text. Matching is leftmost-first: alternatives are tried in the
order in which they are written, repetition takes as much as it can (or as little, when lazy) and
gives back only when what follows does not match. A group records the text it matched.

The matcher is written with the rest of the match as a function argument, so that it is a structural
recursion on the pattern; a repetition recurses on the text that is left and goes on only after
a step that consumed something. -/

namespace SqlDialect

/-- A description of a stretch of text. -/
inductive Pattern where
  /-- The empty stretch. -/
  | nothing
  /-- One character of the set. -/
  | one (set : CharSet)
  /-- A place between a word byte and something else. -/
  | wordEdge
  /-- The beginning of the text. -/
  | textStart
  /-- The end of the text. -/
  | textEnd
  /-- One stretch after the other. -/
  | seq (p q : Pattern)
  /-- The first that leads to a match. -/
  | alt (p q : Pattern)
  /-- Any number of stretches, as many as possible. -/
  | many (p : Pattern)
  /-- Any number of stretches, as few as possible. -/
  | manyLazy (p : Pattern)
  /-- A stretch whose text is recorded under a number. -/
  | group (n : Nat) (p : Pattern)
deriving Repr, DecidableEq

namespace Pattern

/-! ## Building patterns -/

/-- The patterns one after the other. -/
def seqs (ps : List Pattern) : Pattern :=
  ps.foldr seq nothing

/-- The first of the patterns that leads to a match. -/
def alts : List Pattern → Pattern
  | [] => nothing
  | [p] => p
  | p :: q :: ps => alt p (alts (q :: ps))

/-- The pattern or nothing, preferring the pattern. -/
def opt (p : Pattern) : Pattern :=
  alt p nothing

/-- At least one stretch, as many as possible. -/
def many1 (p : Pattern) : Pattern :=
  seq p (many p)

/-- At least one stretch, as few as possible. -/
def many1Lazy (p : Pattern) : Pattern :=
  seq p (manyLazy p)

/-- An ASCII text exactly as written. -/
def text (s : String) : Pattern :=
  seqs (s.toList.map fun c => one (CharSet.exactly c))

/-- An ASCII text in any letter case. -/
def keyword (s : String) : Pattern :=
  seqs (s.toList.map fun c => one (CharSet.anyCase c))

/-- The first of some keywords that leads to a match. -/
def keywords (ss : List String) : Pattern :=
  alts (ss.map keyword)

/-- A keyword that stands as a word of its own. -/
def wholeWord (s : String) : Pattern :=
  seqs [wordEdge, keyword s, wordEdge]

/-- Any number of blanks. -/
def blanks : Pattern :=
  many (one CharSet.blank)

/-- At least one blank. -/
def blanks1 : Pattern :=
  many1 (one CharSet.blank)

/-- Words separated by blanks, in any letter case. -/
def phrase : List String → Pattern
  | [] => nothing
  | [s] => keyword s
  | s :: rest => seqs [keyword s, blanks1, phrase rest]

/-- A phrase whose ends are word edges. -/
def wholePhrase (ss : List String) : Pattern :=
  seqs [wordEdge, phrase ss, wordEdge]

/-! ## Matching -/

/-- What a group has recorded: its number and where in the match its text is. -/
structure Recorded where
  number : Nat
  start : Nat
  length : Nat
deriving Repr, DecidableEq

/-- The recorded part of the text that the match starts. -/
def Recorded.text (g : Recorded) (s : Bytes) : Bytes :=
  (s.drop g.start).take g.length

/-- A place in a text during a match. -/
structure Cursor where
  /-- The byte before this place; none at the beginning of the text. -/
  prev : Option UInt8
  /-- The text from this place on. -/
  rest : Bytes
  /-- How many bytes the match has taken. -/
  taken : Nat := 0
  /-- What groups have recorded, the latest first. -/
  groups : List Recorded := []
deriving Repr, DecidableEq

namespace Cursor

/-- The character at the cursor and the cursor after it. -/
def next? (c : Cursor) : Option (Nat × Cursor) :=
  match c.rest with
  | [] => none
  | b :: s =>
    let (code, n) := Utf8.lead b s
    some (code, { c with
      prev := some ((s.take n).getLastD b)
      rest := s.drop n
      taken := c.taken + (s.take n).length + 1 })

/-- Whether exactly one side of the cursor is a word byte. -/
def atWordEdge (c : Cursor) : Bool :=
  c.prev.any Bytes.isWord != c.rest.head?.any Bytes.isWord

/-- Records what was matched since `start` under the number `n`. -/
def record (c : Cursor) (n : Nat) (start : Cursor) : Cursor :=
  { c with groups := ⟨n, start.taken, c.taken - start.taken⟩ :: c.groups }

end Cursor

/-- Runs `body` as often as it leads to a match by `k`, longest first. `left` is the text at the
cursor and bounds the number of rounds. -/
def repeatGreedy {α : Type} (body : Cursor → (Cursor → Option α) → Option α)
    (k : Cursor → Option α) : (left : Bytes) → Cursor → Option α
  | [], c => k c
  | _ :: left, c =>
    match body c fun c' => if c.taken < c'.taken then repeatGreedy body k left c' else none with
    | some r => some r
    | none => k c

/-- Runs `body` as often as it leads to a match by `k`, shortest first. -/
def repeatLazy {α : Type} (body : Cursor → (Cursor → Option α) → Option α)
    (k : Cursor → Option α) : (left : Bytes) → Cursor → Option α
  | [], c => k c
  | _ :: left, c =>
    match k c with
    | some r => some r
    | none => body c fun c' => if c.taken < c'.taken then repeatLazy body k left c' else none

/-- The first way in which the pattern matches at the cursor and `k` accepts the place after it. -/
def run {α : Type} : Pattern → Cursor → (Cursor → Option α) → Option α
  | nothing, c, k => k c
  | one set, c, k =>
    match c.next? with
    | some (code, c') => if set.contains code then k c' else none
    | none => none
  | wordEdge, c, k => if c.atWordEdge then k c else none
  | textStart, c, k => if c.prev.isNone then k c else none
  | textEnd, c, k => if c.rest.isEmpty then k c else none
  | seq p q, c, k => p.run c fun c' => q.run c' k
  | alt p q, c, k =>
    match p.run c k with
    | some r => some r
    | none => q.run c k
  | many p, c, k => repeatGreedy (fun c' k' => p.run c' k') k c.rest c
  | manyLazy p, c, k => repeatLazy (fun c' k' => p.run c' k') k c.rest c
  | group n p, c, k => p.run c fun c' => k (c'.record n c)

end Pattern

end SqlDialect
