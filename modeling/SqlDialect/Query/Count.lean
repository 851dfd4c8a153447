import SqlDialect.Statement.Clause

set_option autoImplicit false

/-! # Counts in the select list

Every count of an expression without an alias is named, from `count0` on. A query that mixes such
counts with plain columns and does not group is grouped by those columns, as MySQL would do.
`COUNT(*)` is neither named nor a reason to group. -/

namespace SqlDialect

/-- The head of a COUNT call at the start of an item. -/
def countHead : Pattern :=
  .seqs [.textStart, .keyword "COUNT", .blanks, .text "("]

/-- Whether the item is a COUNT call of something other than a star, and nothing else. -/
def isCountCall (item : Bytes) : Bool :=
  match countHead.find? item with
  | none => false
  | some m =>
    match splitParen? m.after with
    | some (arg, []) => Bytes.trimSpace arg != ascii "*"
    | _ => false

/-- Whether the item gets an alias. -/
def isUnnamedCount (item : Bytes) : Bool :=
  !isPlainColumn item && isCountCall item

/-- Names the counts among the items, from number `n` on. -/
def nameCounts : Nat → List Spaced → List Spaced
  | _, [] => []
  | n, p :: ps =>
    if isUnnamedCount p.core then
      { p with core := p.core ++ ascii " AS count" ++ Bytes.decimal n } :: nameCounts (n + 1) ps
    else p :: nameCounts n ps

/-- The clauses that follow GROUP BY. -/
def afterGroup : List Pattern :=
  [Clause.havingPattern, Clause.orderByPattern] ++ Clause.afterOrder

/-- Puts a clause before the clauses that follow GROUP BY in `tail`, or before the semicolons at the
end. -/
def insertGroupBy (head tail clause : Bytes) : Bytes :=
  let (before, after) := splitAtClause afterGroup tail
  if after.isEmpty then
    let (body, had) := trimStatementEnd (head ++ tail)
    body ++ ascii " " ++ clause ++ semicolonIf had
  else Bytes.trimRight (head ++ before) ++ ascii " " ++ clause ++ ascii " " ++ after

/-- Names the counts of the select list and groups by its plain columns where that is due. -/
def aliasCountsAndGroup (s : Bytes) : Bytes :=
  match SelectParts.ofText? s with
  | none => s
  | some p =>
    let parts := items p.list
    if !(parts.any fun q => isUnnamedCount q.core) then s
    else
      let head := p.head ++ ofItems (nameCounts 0 parts)
      let plain := (parts.map Spaced.core).filter isPlainColumn
      if plain.isEmpty || (findTop? Clause.groupByPattern p.tail).isSome then head ++ p.tail
      else insertGroupBy head p.tail (ascii "GROUP BY " ++ Bytes.join (ascii ", ") plain)

end SqlDialect
