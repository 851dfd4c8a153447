import SqlDialect.Query.Operator
import SqlDialect.Statement.Clause
import SqlDialect.Text.Access

set_option autoImplicit false

/-! # ORDER BY

Two habits of MySQL queries: sorting numerically by adding zero to a column, and sorting by a column
named in a string. The latter becomes a plain column, which is then added to the select list. -/

namespace SqlDialect

/-- A column plus zero; group 1 is the column and group 2 the character after the zero, if any. -/
def plusZeroPattern : Pattern :=
  .seqs [.group 1 (.many1 (.one (CharSet.word.union (CharSet.ofString ".\"")))), .blanks, .text "+",
    .blanks, .text "0",
    .group 2 (.alt (.one (CharSet.word.union (CharSet.ofString ".")).compl) .textEnd)]

/-- Writes a sort key `column + 0` as a cast to an integer. -/
def castOrderByPlusZero (s : Bytes) : Bytes :=
  match findTop? Clause.orderByPattern s with
  | none => s
  | some m =>
    m.before ++ m.text ++ plusZeroPattern.replaceWith
      (fun k => ascii "CAST(" ++ k.group 1 ++ ascii " AS INTEGER)" ++ k.group 2) m.after

/-- A sort item that is a lone literal: group 1 is its placeholder, group 2 the direction with the
blanks before it. -/
def literalOrderItem : Pattern :=
  .seqs [.textStart, .group 1 literalToken,
    .opt (.group 2 (.seq .blanks1 (.keywords ["ASC", "DESC"]))), .textEnd]

/-- A bare name. -/
def bareWord : Pattern :=
  .seq (.one CharSet.nameStart) (.many (.one (CharSet.word.union (CharSet.ofString "$"))))

/-- A bare name, or two joined by a dot, and nothing else. -/
def columnNamePattern : Pattern :=
  .seqs [.textStart, bareWord, .opt (.seq (.text ".") bareWord), .textEnd]

/-- A sort item after unquoting: the item, and the column it names if it was a literal. -/
structure OrderItem where
  text : Bytes
  column : Option Bytes := none

/-- Unquotes one sort item. A literal that is no column name stays. Where no literal belongs to the
placeholder there is nothing to cut the content out of. -/
def unquoteOrderItem (lits : LiteralTable) (item : Bytes) : Except Fault OrderItem :=
  match literalOrderItem.find? item with
  | none => .ok { text := item }
  | some m =>
    match lits.lookup? (m.group 1) with
    | none => .error (.sliceStart 1 0)
    | some l =>
      if columnNamePattern.occursIn l.body then
        let name := normalizeName l.body
        .ok { text := name ++ m.group 2, column := some name }
      else .ok { text := item }

/-- Adds columns to a select list, in order, leaving out those whose lower-case text is in
`present`. -/
def addColumns (present : List Bytes) : List Bytes → Bytes
  | [] => []
  | col :: cols =>
    let key := Bytes.toLower col
    if present.contains key then addColumns present cols
    else ascii ", " ++ col ++ addColumns (key :: present) cols

/-- Whether the select item stands for all columns. -/
def isStar (item : Bytes) : Bool :=
  item == ascii "*" || Bytes.endsWith item (ascii ".*")

/-- Adds columns to the select list unless they are already selected or an item is a star. -/
def appendToSelectList (s : Bytes) (cols : List Bytes) : Bytes :=
  match SelectParts.ofText? s with
  | none => s
  | some p =>
    let selected := (splitTop p.list).map Bytes.trimSpace
    if selected.any isStar then s
    else
      let list := Bytes.trimRight p.list
      p.head ++ list ++ addColumns (selected.map Bytes.toLower) cols ++ p.list.drop list.length ++
        p.tail

/-- Writes `ORDER BY 'column'` as `ORDER BY column` and makes sure that the column is selected. -/
def unquoteOrderByLiteral (s : Bytes) (lits : LiteralTable) : Except Fault Bytes :=
  match findTop? Clause.orderByPattern s with
  | none => .ok s
  | some m => do
    let (list, tail) := splitAtClause Clause.afterOrder m.after
    let parts := items list
    let orders ← parts.mapM fun p => unquoteOrderItem lits p.core
    let added := orders.filterMap OrderItem.column
    if added.isEmpty then .ok s
    else
      let list := ofItems (List.zipWith (fun p o => { p with core := o.text }) parts orders)
      .ok (appendToSelectList (m.before ++ m.text ++ list ++ tail) added)

end SqlDialect
