import SqlDialect.Conversion.Rule
import SqlDialect.Proofs.Checked.Catalog
import SqlDialect.Proofs.Checked.Match
import SqlDialect.Proofs.Checked.Name

set_option autoImplicit false

/-! # Table definitions by place

The statements that create and alter tables. Keys and columns are read by the groups of their
patterns, and what is between two places is cut out: the list behind the head of a key, the body and
the options of a table, the rest of a specification behind its opening words. -/

namespace SqlDialect.Checked

variable {lits : LiteralTable}

/-! ## Keys -/

/-- Reads a column of a key, which is noted, and gives it as it appears in the output. -/
def keyPart (lits : LiteralTable) (parts : List KeyPart) (col : Bytes) :
    Except Fault (Bytes × List KeyPart) :=
  match keyPartPattern.find? col with
  | none => return (col, parts)
  | some m => do
    let written ← elementAt (keyPartPattern.submatches m) 1
    let name ← bareName written lits
    let limit ← elementAt (keyPartPattern.submatches m) 2
    let rendered ← normalizeName written
    let direction ← elementAt (keyPartPattern.submatches m) 3
    return (if direction.isEmpty then rendered
      else rendered ++ (ascii " " ++ Bytes.toUpper direction), parts ++ [⟨name, limit⟩])

/-- Reads the list of columns that opens at a place; without a closing parenthesis it runs to the
end. -/
def keyColumns (item : Bytes) (start : Int) (lits : LiteralTable) : Except Fault KeyColumns := do
  let closing ← matchParen item start
  let list ← slice item (start + 1) (if closing < 0 then item.length else closing)
  let (rendered, parts) ← mapItems (keyPart lits) [] list
  return ⟨parts, rendered⟩

/-- The places of a secondary key clause, if the item is one. -/
def keyClause (item : Bytes) : Except Fault (Option (List Int)) :=
  match keyClausePattern.locate? item with
  | none => return none
  | some places => do
    let kind ← Pattern.groupStart places 2
    if 0 ≤ kind then return some places
    else
      let word ← Pattern.groupStart places 3
      return if 0 ≤ word then some places else none

/-- The name that a clause gives its key, or else its constraint. -/
def writtenName (item : Bytes) (places : List Int) : Except Fault Bytes := do
  let low ← Pattern.groupStart places 4
  let high ← Pattern.groupEnd places 4
  if low < high then slice item low high else Pattern.groupIfAny item places 1

/-- The name of a key: the first column's if there is no other. -/
def firstNamed (written : Bytes) (parts : List KeyPart) : Except Fault Bytes :=
  if written.isEmpty ∧ 0 < parts.length then do
    let part ← elementAt parts 0
    return part.name
  else return written

/-- Reads a secondary key from the places of its clause, with the list of its columns. -/
def parseKeyClause (item : Bytes) (places : List Int) (lits : LiteralTable) :
    Except Fault (TableIndex × Bytes) := do
  let kind ← Pattern.groupIfAny item places 2
  let written ← writtenName item places
  let stop ← Pattern.groupEnd places 0
  let cols ← keyColumns item (stop - 1) lits
  let name ← firstNamed written cols.parts
  let name ← bareName name lits
  return (⟨name, KeyKind.ofKeyword (Bytes.toUpper kind), cols.parts⟩, cols.rendered)

/-- The statement that creates the index for a key. -/
def createIndex (key : TableIndex) (table bare cols : Bytes) : Except Fault Bytes := do
  let name ← quoteIdent (indexName bare key.name)
  return ascii "CREATE " ++ (if key.kind = .unique then ascii "UNIQUE " else []) ++
    ascii "INDEX IF NOT EXISTS " ++ name ++ ascii " ON " ++ table ++ ascii " (" ++
    Bytes.trimSpace cols ++ ascii ")"

theorem keyPart_ok (hlits : Delimited lits) (parts : List KeyPart) (col : Bytes) :
    keyPart lits parts col
      = .ok (KeyColumns.renderPart col, parts ++ (KeyColumns.part? lits col).toList) := by
  rw [keyPart, KeyColumns.renderPart, KeyColumns.part?]
  cases hm : keyPartPattern.find? col with
  | none => exact congrArg (fun l => Except.ok (col, l)) (List.append_nil parts).symm
  | some m =>
    have hname : elementAt (keyPartPattern.submatches m) 1 = .ok (m.group 1) :=
      Pattern.submatch_ok (n := 1) (by decide) (by decide) m
    have hlimit : elementAt (keyPartPattern.submatches m) 2 = .ok (m.group 2) :=
      Pattern.submatch_ok (n := 2) (by decide) (by decide) m
    have hdirection : elementAt (keyPartPattern.submatches m) 3 = .ok (m.group 3) :=
      Pattern.submatch_ok (n := 3) (by decide) (by decide) m
    dsimp only
    rw [hname, ok_bind, bareName_ok _ hlits, ok_bind, hlimit, ok_bind, normalizeName_ok, ok_bind,
      hdirection, ok_bind]
    rw [Match.group.eq_def m 3]
    cases hgroup : m.group? 3 with
    | none => exact congrArg (fun s => Except.ok (s, _)) (List.append_nil _).symm
    | some direction =>
      -- a direction is not empty
      obtain ⟨q, hq, c, c', hleads, htakes⟩ := Pattern.leads_of_group? hm hgroup
      obtain rfl : q = .keywords ["ASC", "DESC"] := List.mem_singleton.1 hq
      have hne : direction ≠ [] := by
        rintro rfl
        have hlt := Pattern.consumes_keywords (by decide) (by decide) _ _ hleads
        rw [htakes.taken] at hlt
        exact Nat.lt_irrefl _ hlt
      rw [Option.getD_some, if_neg (by simpa using hne)]
      rfl

theorem mapCores_keyPart (hlits : Delimited lits) (parts : List KeyPart) (ps : List Spaced) :
    mapCores (keyPart lits) parts ps
      = .ok (ps.map (Spaced.map KeyColumns.renderPart),
          parts ++ ps.filterMap fun p => KeyColumns.part? lits p.core) := by
  induction ps generalizing parts with
  | nil => exact congrArg (fun l => Except.ok ([], l)) (List.append_nil parts).symm
  | cons p ps ih =>
    rw [mapCores, keyPart_ok hlits, ok_bind, List.map_cons, List.filterMap_cons]
    dsimp only
    rw [ih, ok_bind, List.append_assoc]
    cases KeyColumns.part? lits p.core <;> rfl

theorem keyColumns_ok (hlits : Delimited lits) (a s : Bytes) :
    keyColumns (a ++ openParen :: s) a.length lits = .ok (KeyColumns.ofText s lits) := by
  have hread : ∀ list : Bytes, (do
      let (rendered, parts) ← mapItems (keyPart lits) [] list
      return ⟨parts, rendered⟩ : Except Fault KeyColumns)
      = .ok ⟨(items list).filterMap fun p => KeyColumns.part? lits p.core,
          SqlDialect.mapItems KeyColumns.renderPart list⟩ := by
    intro list
    rw [mapItems_eq, mapCores_keyPart hlits]
    rfl
  rw [keyColumns, matchParen_ok, ok_bind, KeyColumns.ofText]
  cases hclose : splitParen? s with
  | none =>
    have hlist : slice (a ++ openParen :: s) ((a.length : Int) + 1) (a ++ openParen :: s).length
        = .ok s :=
      slice_eq (a := a ++ [openParen]) (c := []) (by simp) (by simp) (by simp; omega)
    rw [Option.map_none, Option.getD_none, if_pos (by decide), hlist, ok_bind]
    exact hread s
  | some parts =>
    obtain ⟨list, rest⟩ := parts
    have hlist : slice (a ++ openParen :: s) ((a.length : Int) + 1)
        ((a.length + 1 + list.length : Nat) : Int) = .ok list :=
      slice_eq (a := a ++ [openParen]) (c := closeParen :: rest)
        (by rw [eq_append_of_splitParen? hclose]; simp) (by simp) (by simp)
    dsimp only [Option.map_some, Option.getD_some]
    rw [if_neg (Int.not_lt.2 (Int.natCast_nonneg _)), hlist, ok_bind]
    exact hread list

/-- The list behind the head of a key. -/
theorem keyColumns_of_find? (hlits : Delimited lits) {p : Pattern} (hp : p.OpensCall) {item : Bytes}
    {m : Match} (h : p.find? item = some m) :
    keyColumns item (((m.before.length + m.text.length : Nat) : Int) - 1) lits
      = .ok (KeyColumns.ofText m.after lits) := by
  obtain ⟨a, hitem, hstop⟩ := hp.cut h
  rw [hstop]
  conv_lhs => rw [hitem]
  exact keyColumns_ok hlits a m.after

theorem keyClause_none {item : Bytes} (h : keyClause? item = none) : keyClause item = .ok none := by
  rw [keyClause]
  cases hm : keyClausePattern.find? item with
  | none =>
    rw [Pattern.locate?_of_none hm]
    rfl
  | some m =>
    obtain ⟨places, hplaces, hlocated⟩ := Pattern.locate?_of_find? hm
    obtain ⟨kind, hkind, hkind'⟩ := hlocated.exists_groupStart (n := 2) (by decide) (by decide)
    obtain ⟨word, hword, hword'⟩ := hlocated.exists_groupStart (n := 3) (by decide) (by decide)
    have hneither : ¬ ((m.group? 2).isSome || (m.group? 3).isSome) = true := by
      intro hsome
      rw [keyClause?, hm, Option.filter_some, if_pos hsome] at h
      cases h
    rw [Bool.or_eq_true, not_or, ← hkind', ← hword'] at hneither
    rw [hplaces]
    dsimp only
    rw [hkind, ok_bind, if_neg hneither.1, hword, ok_bind, if_neg hneither.2]
    rfl

theorem keyClause_some {item : Bytes} {m : Match} (h : keyClause? item = some m) :
    ∃ places, keyClause item = .ok (some places) ∧ keyClausePattern.Located item m places := by
  obtain ⟨hm, hsome⟩ := Option.filter_eq_some_iff.1 h
  obtain ⟨places, hplaces, hlocated⟩ := Pattern.locate?_of_find? hm
  obtain ⟨kind, hkind, hkind'⟩ := hlocated.exists_groupStart (n := 2) (by decide) (by decide)
  obtain ⟨word, hword, hword'⟩ := hlocated.exists_groupStart (n := 3) (by decide) (by decide)
  refine ⟨places, ?_, hlocated⟩
  rw [Bool.or_eq_true, ← hkind', ← hword'] at hsome
  rw [keyClause, hplaces]
  dsimp only
  rw [hkind, ok_bind, hword, ok_bind]
  by_cases hpos : 0 ≤ kind
  · rw [if_pos hpos]
    rfl
  · rw [if_neg hpos, if_pos (hsome.resolve_left hpos)]
    rfl

theorem writtenName_ok {item : Bytes} {m : Match} (h : keyClausePattern.find? item = some m)
    {places : List Int} (hplaces : keyClausePattern.Located item m places) :
    writtenName item places = .ok (if (m.group 4).isEmpty then m.group 1 else m.group 4) := by
  obtain ⟨a, b, hname, hlow, hhigh⟩ := hplaces.present 4 (by decide) (by decide) _
    (Pattern.group?_of_records (by decide) h)
  rw [writtenName, hlow, ok_bind, hhigh, ok_bind]
  by_cases hempty : (m.group 4).isEmpty = true
  · rw [if_pos hempty, List.isEmpty_iff.1 hempty, if_neg (by simp)]
    exact hplaces.groupIfAny (n := 1) (by decide) (by decide)
  · have hpos := List.length_pos_iff.2 (mt List.isEmpty_iff.2 hempty)
    rw [if_neg hempty, if_pos (by omega)]
    exact slice_eq hname rfl (Int.natCast_add _ _)

theorem firstNamed_ok (written : Bytes) (parts : List KeyPart) :
    firstNamed written parts
      = .ok (if written.isEmpty then ((parts.head?).map KeyPart.name).getD [] else written) := by
  rw [firstNamed]
  by_cases hempty : written.isEmpty = true
  · rw [if_pos hempty]
    cases parts with
    | nil =>
      rw [if_neg (by simp), List.isEmpty_iff.1 hempty]
      rfl
    | cons part parts =>
      rw [if_pos ⟨hempty, List.length_pos_of_mem List.mem_cons_self⟩, elementAt_cons]
      rfl
  · rw [if_neg (fun h => hempty h.1), if_neg hempty]
    rfl

theorem parseKeyClause_ok (hlits : Delimited lits) {item : Bytes} {m : Match}
    (h : keyClausePattern.find? item = some m) {places : List Int}
    (hplaces : keyClausePattern.Located item m places) :
    parseKeyClause item places lits = .ok (TableIndex.ofClause m lits) := by
  rw [parseKeyClause, hplaces.groupIfAny (n := 2) (by decide) (by decide), ok_bind,
    writtenName_ok h hplaces, ok_bind, hplaces.matchEnd, ok_bind,
    keyColumns_of_find? hlits (Pattern.opensCall_of_endsCall (by decide)) h, ok_bind,
    firstNamed_ok, ok_bind, bareName_ok _ hlits]
  rfl

theorem createIndex_ok (key : TableIndex) (table bare cols : Bytes) :
    createIndex key table bare cols = .ok (key.create table bare cols) := by
  rw [createIndex, quoteIdent_ok]
  rfl

/-! ## Columns -/

/-- The collation that the attributes of a column or the options of a table name. -/
def collationIn (s : Bytes) : Except Fault Bytes :=
  match Column.collatePattern.find? s with
  | none => return []
  | some m => elementAt (Column.collatePattern.submatches m) 1

/-- The default that the attributes of a column name. -/
def defaultIn (s : Bytes) : Except Fault Bytes :=
  match Column.defaultPattern.locate? s with
  | none => return []
  | some places => do
    let low ← Pattern.groupStart places 1
    let high ← Pattern.groupEnd places 1
    slice s low high

/-- What a default says: the content of its literal if it is one. -/
def defaultValue (text : Bytes) : Option Literal → Except Fault Bytes
  | some l => body l
  | none => return text

/-- The default that stands in for one that PostgreSQL would reject, if it is such. -/
def targetDefault (col : Column) (type : Bytes) (lits : LiteralTable) :
    Except Fault (Option Bytes) :=
  if col.defaultValue.isEmpty then return none
  else do
    let literal ← lookup lits col.defaultValue
    let value ← defaultValue col.defaultValue literal
    if literal.isSome && isTemporalType col.dataType && isZeroDate value then
      return if col.dataType = ascii "date" then some (ascii "CURRENT_DATE")
        else some (ascii "now()")
    else if type = ascii "boolean" then
      return if value = ascii "0" then some (ascii "false")
        else if value = ascii "1" then some (ascii "true")
        else none
    else return none

/-- The attributes without those that PostgreSQL does not know. -/
def knownAttrs (signed : Bytes) : Bytes :=
  [Column.zerofillPattern, Column.charsetPattern, Column.collatePattern, Column.onUpdatePattern,
    Column.commentPattern].foldl (fun s p => p.erase s) (Column.signPattern.erase signed)

/-- The attributes that are left of them in front of the default. A column that numbers itself takes
no NULL anyway. -/
def leftAttrs (rest : Bytes) : Bytes :=
  let stripped := Column.autoIncrementPattern.erase rest
  if Column.autoIncrementPattern.occursIn rest then
    Column.leadingNullPattern.erase (Column.notNullPattern.erase stripped)
  else stripped

/-- The column with the default that stands in for its own, if any, and with its attributes. -/
def withDefault (col : Column) (replaced : Option Bytes) (rest : Bytes) (opts : TypeOptions) :
    Column :=
  let rest := match replaced with
    | some value => Column.defaultPattern.replace (ascii "DEFAULT " ++ value) rest
    | none => rest
  { col with
    defaultValue := replaced.getD col.defaultValue
    attrs := Bytes.oneLine (rest ++ col.enumConstraint opts) }

/-- Reads a column definition. -/
def readColumn (item : Bytes) (lits : LiteralTable) (opts : TypeOptions) (inPlace : Bool) :
    Except Fault (Option Column) :=
  match Column.definitionPattern.find? item with
  | none => return none
  | some m => do
    let name ← elementAt (Column.definitionPattern.submatches m) 1
    let name ← normalizeName name
    let dataType ← elementAt (Column.definitionPattern.submatches m) 2
    let args ← elementAt (Column.definitionPattern.submatches m) 3
    let signed ← elementAt (Column.definitionPattern.submatches m) 4
    let collation ← collationIn (Column.signPattern.erase signed)
    let rest := knownAttrs signed
    let defaultValue ← defaultIn (leftAttrs rest)
    let col : Column :=
      { name, args, defaultValue, collation
        dataType := canonicalType dataType
        unsigned := Column.signPattern.occursIn signed &&
          Bytes.containsText (Bytes.toUpper signed) (ascii "UNSIGNED")
        notNull := Column.notNullPattern.occursIn (Column.autoIncrementPattern.erase rest)
        autoIncrement := Column.autoIncrementPattern.occursIn rest }
    let replaced ← targetDefault col (col.typeFor opts inPlace) lits
    return some (withDefault col replaced (leftAttrs rest) opts)

theorem collationIn_ok (s : Bytes) :
    collationIn s = .ok (((Column.collatePattern.find? s).map (·.group 1)).getD []) := by
  rw [collationIn]
  cases Column.collatePattern.find? s with
  | none => rfl
  | some m => exact Pattern.submatch_ok (n := 1) (by decide) (by decide) m

theorem defaultIn_ok (s : Bytes) :
    defaultIn s = .ok (((Column.defaultPattern.find? s).map (·.group 1)).getD []) := by
  rw [defaultIn]
  cases hm : Column.defaultPattern.find? s with
  | none =>
    rw [Pattern.locate?_of_none hm]
    rfl
  | some m =>
    obtain ⟨places, hplaces, hlocated⟩ := Pattern.locate?_of_find? hm
    obtain ⟨low, high, hlow, hhigh, hvalue⟩ :=
      hlocated.group hm (n := 1) (by decide) (by decide) (by decide)
    rw [hplaces]
    dsimp only
    rw [hlow, ok_bind, hhigh, ok_bind, hvalue]
    rfl

theorem targetDefault_ok (hlits : Delimited lits) (col : Column) (type : Bytes) :
    targetDefault col type lits
      = .ok (if col.defaultValue.isEmpty then none else col.targetDefault? type lits) := by
  have hvalue : defaultValue col.defaultValue (lits.lookup? col.defaultValue)
      = .ok (((lits.lookup? col.defaultValue).map Literal.body).getD col.defaultValue) := by
    cases hl : lits.lookup? col.defaultValue with
    | none => rfl
    | some l => exact body_ok_of_lookup? hlits hl
  rw [targetDefault, lookup_ok, ok_bind, hvalue, ok_bind, Column.targetDefault?]
  split
  · rfl
  · split
    · rfl
    · split <;> rfl

theorem readColumn_ok (hlits : Delimited lits) (item : Bytes) (opts : TypeOptions)
    (inPlace : Bool) :
    readColumn item lits opts inPlace = .ok (Column.ofText? item lits opts inPlace) := by
  rw [readColumn]
  cases hm : Column.definitionPattern.find? item with
  | none =>
    rw [Column.ofText?, hm]
    rfl
  | some m =>
    have hname : elementAt (Column.definitionPattern.submatches m) 1 = .ok (m.group 1) :=
      Pattern.submatch_ok (n := 1) (by decide) (by decide) m
    have htype : elementAt (Column.definitionPattern.submatches m) 2 = .ok (m.group 2) :=
      Pattern.submatch_ok (n := 2) (by decide) (by decide) m
    have hargs : elementAt (Column.definitionPattern.submatches m) 3 = .ok (m.group 3) :=
      Pattern.submatch_ok (n := 3) (by decide) (by decide) m
    have hrest : elementAt (Column.definitionPattern.submatches m) 4 = .ok (m.group 4) :=
      Pattern.submatch_ok (n := 4) (by decide) (by decide) m
    dsimp only
    rw [hname, ok_bind, normalizeName_ok, ok_bind, htype, ok_bind, hargs, ok_bind, hrest, ok_bind,
      collationIn_ok, ok_bind, defaultIn_ok, ok_bind, targetDefault_ok hlits, ok_bind]
    rw [Column.ofText?, hm]
    rfl

/-! ## Creating a table -/

/-- Reads an item of a table definition. -/
def tableItem (lits : LiteralTable) (opts : TypeOptions) (item : Bytes) : Except Fault TableItem :=
  match primaryKeyPattern.span? item with
  | some (_, high) => do
    let cols ← keyColumns item ((high : Int) - 1) lits
    return .primaryKey cols.parts cols.rendered
  | none => do
    match ← keyClause item with
    | some places =>
      let (key, rendered) ← parseKeyClause item places lits
      return .index key rendered
    | none =>
      if constraintPattern.occursIn item then return .verbatim item
      else
        match ← readColumn item lits opts false with
        | some col => return .column col
        | none => return .verbatim item

/-- The items of a body that are not blank, each with the blanks in front of it. -/
def tableItems (lits : LiteralTable) (opts : TypeOptions) (body : Bytes) :
    Except Fault (List (Bytes × TableItem)) := do
  let parts ← splitTopLevel body
  let parts ← parts.mapM splitSpace
  (parts.filter fun p => !p.core.isEmpty).mapM fun p => do
    let item ← tableItem lits opts p.core
    return (p.lead, item)

/-- The index statements that an item turns into: one or none. -/
def indexStatements (table bare : Bytes) : TableItem → Except Fault (List Bytes)
  | .index key rendered =>
    if key.kind.isDropped then return []
    else do
      let index ← createIndex key table bare rendered
      return [index]
  | _ => return []

/-- Adds what an item says to what is known about the table. -/
def addTo (lits : LiteralTable) (d : TableDef) : TableItem → Except Fault TableDef
  | .column col =>
    let d := { d with columns := d.columns ++ [col] }
    if Column.primaryPattern.occursIn col.attrs then do
      let name ← bareName col.name lits
      return { d with primaryKey := [name] }
    else if Column.uniquePattern.occursIn col.attrs then do
      let name ← bareName col.name lits
      return { d with keys := d.keys ++ [⟨name, .unique, [⟨name, []⟩]⟩] }
    else return d
  | item => return item.addTo lits d

/-- Converts a CREATE TABLE statement. -/
def createTable (s : Bytes) (lits : LiteralTable) (opts : TypeOptions) :
    Except Fault (Option CreatedTable) :=
  match createTablePattern.locate? s with
  | none => return none
  | some places => do
    let stop ← Pattern.groupEnd places 0
    let closing ← matchParen s (stop - 1)
    if closing < 0 then return none
    else
      let low ← Pattern.groupStart places 1
      let high ← Pattern.groupEnd places 1
      let lead ← slice s low high
      let temporary ← Pattern.groupStart places 2
      let low ← Pattern.groupStart places 3
      let high ← Pattern.groupEnd places 3
      let name ← slice s low high
      let table ← normalizeName name
      let body ← slice s (stop - 1 + 1) closing
      let tail ← sliceFrom s (closing + 1)
      let bare ← lastSegment table
      let bare ← bareName bare lits
      let read ← tableItems lits opts body
      let kept := read.filterMap fun (lead, item) => (item.kept? opts).map (lead ++ ·)
      let indexes ← read.mapM fun (_, item) => indexStatements table bare item
      let definition ← (read.map Prod.snd).foldlM (addTo lits) { name := table }
      let trail ← sliceFrom body (Bytes.trimRight body).length
      let collation ← collationIn tail
      let (leftover, _) ← trimStatementEnd (tableOptionPattern.erase tail)
      return some
        { text :=
            lead ++ ascii "CREATE " ++ (if 0 ≤ temporary then ascii "TEMPORARY " else []) ++
              ascii "TABLE IF NOT EXISTS " ++ table ++ ascii " (" ++ Bytes.join [comma] kept ++
              trail ++ ascii ")" ++ leftover ++ ascii ";" ++
              indexes.flatten.flatMap fun index => ascii "\n" ++ index ++ ascii ";"
          definition := { definition with collation }
          log := read.filterMap fun (_, item) => item.logEntry? bare }

/-- The keys of a table that can identify a row. -/
def uniqueKeys (d : TableDef) : Except Fault (List TableKey) := do
  let keys ← (d.keys.filter (·.kind == .unique)).mapM fun k => do
    let columns ← writeEach [] (fun part => .ok part.name) k.columns
    return ⟨k.name, columns, false⟩
  return (if d.primaryKey.isEmpty then [] else [⟨ascii "PRIMARY", d.primaryKey, true⟩]) ++ keys

theorem tableItem_ok (hlits : Delimited lits) (opts : TypeOptions) (item : Bytes) :
    tableItem lits opts item = .ok (TableItem.ofText lits opts item) := by
  rw [tableItem, TableItem.ofText, Pattern.span?]
  cases hm : primaryKeyPattern.find? item with
  | some m =>
    dsimp only [Option.map_some]
    rw [keyColumns_of_find? hlits (Pattern.opensCall_of_endsCall (by decide)) hm]
    rfl
  | none =>
    dsimp only [Option.map_none]
    cases hclause : keyClause? item with
    | some m =>
      obtain ⟨places, hplaces, hlocated⟩ := keyClause_some hclause
      obtain ⟨hfind, -⟩ := Option.filter_eq_some_iff.1 hclause
      rw [hplaces, ok_bind]
      dsimp only
      rw [parseKeyClause_ok hlits hfind hlocated]
      rfl
    | none =>
      rw [keyClause_none hclause, ok_bind]
      dsimp only
      split
      · rfl
      · rw [readColumn_ok hlits, ok_bind]
        cases Column.ofText? item lits opts false <;> rfl

theorem tableItems_ok (hlits : Delimited lits) (opts : TypeOptions) (body : Bytes) :
    tableItems lits opts body
      = .ok (((items body).filter fun p => !p.core.isEmpty).map fun p =>
          (p.lead, TableItem.ofText lits opts p.core)) := by
  rw [tableItems, splitTopLevel_ok, ok_bind, mapM_ok fun part _ => splitSpace_ok part, ok_bind]
  exact mapM_ok fun p _ => by rw [tableItem_ok hlits]; rfl

theorem indexStatements_ok (table bare : Bytes) (item : TableItem) :
    indexStatements table bare item = .ok (item.indexStatement? table bare).toList := by
  cases item with
  | index key rendered =>
    rw [indexStatements, TableItem.indexStatement?, createIndex_ok]
    split <;> rfl
  | primaryKey | column | verbatim => rfl

theorem addTo_ok (hlits : Delimited lits) (d : TableDef) (item : TableItem) :
    addTo lits d item = .ok (item.addTo lits d) := by
  cases item with
  | column col =>
    rw [addTo, TableItem.addTo, bareName_ok _ hlits]
    dsimp only
    split
    · rfl
    · split <;> rfl
  | primaryKey | index | verbatim => rfl

theorem foldlM_addTo (hlits : Delimited lits) (items : List TableItem) (d : TableDef) :
    items.foldlM (addTo lits) d = .ok (items.foldl (TableItem.addTo lits) d) :=
  (foldlM_ok (P := fun _ => True) (fun d item _ _ => ⟨addTo_ok hlits d item, trivial⟩) trivial).1

theorem uniqueKeys_ok (d : TableDef) : uniqueKeys d = .ok d.uniqueKeys := by
  have hkeys : ((d.keys.filter (·.kind == .unique)).mapM fun k => do
      let columns ← writeEach [] (fun part : KeyPart => .ok part.name) k.columns
      return (⟨k.name, columns, false⟩ : TableKey))
      = .ok ((d.keys.filter (·.kind == .unique)).map fun k =>
          ⟨k.name, k.columns.map KeyPart.name, false⟩) := by
    refine mapM_ok fun k _ => ?_
    rw [writeEach_ok [] fun _ _ => rfl]
    rfl
  rw [uniqueKeys, hkeys]
  rfl

theorem createTable_ok (hlits : Delimited lits) (s : Bytes) (opts : TypeOptions) :
    createTable s lits opts = .ok (createTable? s lits opts) := by
  rw [createTable]
  cases hm : createTablePattern.find? s with
  | none =>
    rw [Pattern.locate?_of_none hm, createTable?, hm]
    rfl
  | some m =>
    obtain ⟨places, hplaces, hlocated⟩ := Pattern.locate?_of_find? hm
    obtain ⟨a, hs, hstop⟩ :=
      (Pattern.opensCall_of_endsCall (p := createTablePattern) (by decide)).cut hm
    have hclosing := matchParen_ok a m.after
    rw [← hs] at hclosing
    rw [hplaces]
    dsimp only
    rw [hlocated.matchEnd, ok_bind, hstop, hclosing, ok_bind]
    cases hclose : splitParen? m.after with
    | none =>
      rw [createTable?, hm, Option.bind_eq_bind, Option.bind_some, hclose]
      rfl
    | some parts =>
      obtain ⟨body, tail⟩ := parts
      have hafter := eq_append_of_splitParen? hclose
      obtain ⟨low₁, high₁, hlow₁, hhigh₁, hlead⟩ :=
        hlocated.group hm (n := 1) (by decide) (by decide) (by decide)
      obtain ⟨low₂, hlow₂, htemporary⟩ :=
        hlocated.exists_groupStart (n := 2) (by decide) (by decide)
      obtain ⟨low₃, high₃, hlow₃, hhigh₃, hname⟩ :=
        hlocated.group hm (n := 3) (by decide) (by decide) (by decide)
      have hbody : slice s ((a.length : Int) + 1) ((a.length + 1 + body.length : Nat) : Int)
          = .ok body :=
        slice_eq (a := a ++ [openParen]) (c := closeParen :: tail)
          (by rw [hs, hafter]; simp) (by simp) (by simp)
      have htail : sliceFrom s (((a.length + 1 + body.length : Nat) : Int) + 1) = .ok tail :=
        sliceFrom_eq (a := a ++ openParen :: body ++ [closeParen])
          (by rw [hs, hafter]; simp) (by simp; omega)
      have htrail : sliceFrom body (Bytes.trimRight body).length
          = .ok (body.drop (Bytes.trimRight body).length) :=
        sliceFrom_eq (Bytes.dropTailWhile_append_drop _ _).symm rfl
      dsimp only [Option.map_some, Option.getD_some]
      rw [if_neg (Int.not_lt.2 (Int.natCast_nonneg _)), hlow₁, ok_bind, hhigh₁, ok_bind, hlead,
        ok_bind, hlow₂, ok_bind, hlow₃, ok_bind, hhigh₃, ok_bind, hname, ok_bind,
        normalizeName_ok, ok_bind, hbody, ok_bind, htail, ok_bind, lastSegment_ok, ok_bind,
        bareName_ok _ hlits, ok_bind, tableItems_ok hlits, ok_bind,
        mapM_ok fun _ _ => indexStatements_ok _ _ _, ok_bind, foldlM_addTo hlits, ok_bind, htrail,
        ok_bind, collationIn_ok, ok_bind, trimStatementEnd_ok, ok_bind, if_congr htemporary rfl rfl,
        ← List.flatMap_def, ← List.filterMap_eq_flatMap_toList]
      rw [createTable?, hm, Option.bind_eq_bind, Option.bind_some, hclose]
      rfl

/-! ## Altering a table -/

/-- The opening words of an added column. -/
def addColumnPattern : Pattern :=
  .seqs [.textStart, .keyword "ADD", .blanks1, .opt (.seq (.keyword "COLUMN") .blanks1)]

/-- The actions that change a column to a definition; the specification as written if the definition
cannot be read. -/
def changeColumn (definition : Bytes) (lits : LiteralTable) (opts : TypeOptions) (spec : Bytes) :
    Except Fault AlterEffect := do
  match ← readColumn definition lits opts true with
  | some col => return { actions := col.alterActions opts }
  | none => return { actions := [spec] }

/-- The statement that renames a column, if its name changes. -/
def renameColumn (t : AlteredTable) (lits : LiteralTable) (old definition : Bytes)
    (opts : TypeOptions) : Except Fault AlterEffect := do
  match ← readColumn definition lits opts true with
  | some col =>
    let new ← bareName col.name lits
    let former ← bareName old lits
    if new = former then return ({} : AlterEffect)
    else return { before := [ascii "ALTER TABLE " ++ t.name ++ ascii " RENAME COLUMN " ++ old ++
      ascii " TO " ++ col.name] }
  | none => return ({} : AlterEffect)

/-- What a specification that does not add anything contributes. -/
def ofChange (t : AlteredTable) (lits : LiteralTable) (opts : TypeOptions) (spec : Bytes) :
    Except Fault AlterEffect :=
  match modifyPattern.find? spec with
  | some m => do
    let definition ← sliceFrom spec m.text.length
    changeColumn (positionPattern.erase definition) lits opts spec
  | none =>
    match changePattern.find? spec with
    | some m => do
      let old ← elementAt (changePattern.submatches m) 1
      let old ← normalizeName old
      let head ← elementAt (changePattern.submatches m) 0
      let definition ← sliceFrom spec head.length
      let definition := positionPattern.erase definition
      let renamed ← renameColumn t lits old definition opts
      let changed ← changeColumn definition lits opts spec
      return renamed.append changed
    | none =>
      match dropIndexPattern.find? spec with
      | some m => do
        let name ← elementAt (dropIndexPattern.submatches m) 1
        let name ← normalizeName name
        let name ← bareName name lits
        let index ← quoteIdent (indexName t.bare name)
        return { after := [ascii "DROP INDEX IF EXISTS " ++ index] }
      | none => return { actions := [spec] }

/-- What a column that is added contributes, from the specification without its opening words. -/
def addColumn (lits : LiteralTable) (opts : TypeOptions) (definition spec : Bytes) :
    Except Fault AlterEffect := do
  match ← readColumn (positionPattern.erase definition) lits opts false with
  | some col => return { actions := [ascii "ADD COLUMN " ++ col.render opts] }
  | none => return { actions := [spec] }

/-- What a key that is added contributes. -/
def addKey (t : AlteredTable) (lits : LiteralTable) (item : Bytes) (places : List Int) :
    Except Fault AlterEffect := do
  let (key, rendered) ← parseKeyClause item places lits
  if key.kind.isDropped then return ({} : AlterEffect)
  else
    let index ← createIndex key t.name t.bare rendered
    if key.kind = .unique then
      let columns ← writeEach [] (fun part => .ok part.name) key.columns
      return { after := [index], key := some ⟨key.name, columns, false⟩ }
    else return { after := [index] }

/-- What a specification contributes. -/
def ofSpec (t : AlteredTable) (lits : LiteralTable) (opts : TypeOptions) (spec : Bytes) :
    Except Fault AlterEffect :=
  match addPrimaryPattern.span? spec with
  | some (_, high) => do
    let cols ← keyColumns spec ((high : Int) - 1) lits
    let columns ← writeEach [] (fun part => .ok part.name) cols.parts
    return { actions := [ascii "ADD PRIMARY KEY (" ++ cols.rendered ++ ascii ")"],
             key := some ⟨ascii "PRIMARY", columns, true⟩ }
  | none =>
    match addPattern.find? spec with
    | none => ofChange t lits opts spec
    | some added => do
      let rest ← sliceFrom spec added.text.length
      match ← keyClause rest with
      | some places => addKey t lits rest places
      | none =>
        if constraintPattern.occursIn rest then return { actions := [spec] }
        else
          match addColumnPattern.find? spec with
          | some m =>
            let definition ← sliceFrom spec m.text.length
            addColumn lits opts definition spec
          | none => ofChange t lits opts spec

/-- Converts an ALTER TABLE statement and teaches the catalog the keys it adds. -/
def alterTable (s : Bytes) (lits : LiteralTable) (opts : TypeOptions) (catalog : KeyCatalog) :
    Except Fault (Bytes × KeyCatalog) :=
  match alterTablePattern.locate? s with
  | none => return (s, catalog)
  | some places => do
    let low ← Pattern.groupStart places 1
    let high ← Pattern.groupEnd places 1
    let lead ← slice s low high
    let low ← Pattern.groupStart places 2
    let high ← Pattern.groupEnd places 2
    let name ← slice s low high
    let name ← normalizeName name
    let bare ← lastSegment name
    let bare ← bareName bare lits
    let stop ← Pattern.groupEnd places 0
    let specs ← sliceFrom s stop
    let (specs, had) ← trimStatementEnd specs
    let parts ← splitTopLevel specs
    let parts ← parts.mapM splitSpace
    let cores := (parts.map Spaced.core).filter fun spec => !spec.isEmpty
    let effects ← cores.mapM (ofSpec ⟨name, bare⟩ lits opts)
    let learned ← (effects.filterMap AlterEffect.key).foldlM
      (fun c key => register c bare key) catalog
    let statements := alterStatements name effects
    if statements.isEmpty then return (s, learned)
    else return (lead ++ Bytes.join (ascii ";\n") statements ++ semicolonIf had, learned)

section

open Pattern

/-- The word COLUMN and blanks. -/
def columnWord : Pattern :=
  .seq (.keyword "COLUMN") .blanks1

/-- The word may be missing, so something is found everywhere. -/
theorem run_opt_columnWord (c : Cursor) :
    (seqs [.opt columnWord]).run c some = some ((columnWord.run c some).getD c) := by
  show (opt columnWord).run c some = _
  cases hrun : columnWord.run c some with
  | none => exact run_opt_of_none hrun
  | some e => exact run_opt_of_some hrun

/-- Where no word runs into a place, the word is looked for there as if the text started there. -/
theorem erase_columnWordPattern {d : Cursor} (hedge : d.prev.any Bytes.isWord = false)
    (hgroups : d.groups = []) :
    columnWordPattern.erase d.rest = ((columnWord.run d some).getD d).rest := by
  have hsame : Cursor.SameAhead d.taken { prev := none, rest := d.rest } d :=
    ⟨rfl, hedge, (Nat.zero_add _).symm, hgroups⟩
  have hrel := rel_run (p := columnWord) (R := fun c d : Cursor => d.rest = c.rest) (by decide)
    _ _ some some hsame fun _ _ h => .some h.rest
  have hfind : (columnWordPattern.find? d.rest).map Match.after
      = (columnWord.run { prev := none, rest := d.rest } some).map Cursor.rest := by
    have hhere : columnWordPattern.find? d.rest
        = (seqs [.textStart, .keyword "COLUMN", .blanks1]).matchHere? none d.rest :=
      find?_textStart _ _
    rw [hhere, matchHere?, Option.map_map]
    rfl
  have hconsumes : (seqs [textStart, .keyword "COLUMN", .blanks1]).Consumes :=
    consumes_of_mem (List.mem_cons_of_mem _ List.mem_cons_self)
      (consumes_keyword (s := "COLUMN") (by decide))
  refine (erase_textStart hconsumes d.rest).trans ?_
  show ((columnWordPattern.find? d.rest).map Match.after).getD d.rest = _
  rw [hfind]
  generalize columnWord.run { prev := none, rest := d.rest } some = o at hrel ⊢
  generalize columnWord.run d some = o' at hrel ⊢
  cases hrel with
  | none => rfl
  | some h => exact h.symm

/-- Behind ADD and blanks the word COLUMN is looked for as if the text started there. -/
theorem exists_find?_addColumn {spec : Bytes} {added : Match}
    (h : addPattern.find? spec = some added) :
    ∃ m, addColumnPattern.find? spec = some m ∧
      spec = m.text ++ columnWordPattern.erase added.after := by
  obtain ⟨r, hr, hafter, -⟩ := exists_run_of_textStart (q := seqs [.keyword "ADD", .blanks1]) h
  have hleads := leads_of_run hr
  obtain ⟨d, hd, hrun⟩ := exists_run_of_total (by decide) hr
    (k := fun c => (seqs [.opt columnWord]).run c some) fun c => by rw [run_opt_columnWord]; rfl
  rw [run_opt_columnWord] at hrun
  have hedge : d.prev.any Bytes.isWord = false := by
    obtain ⟨c₁, -, hrest⟩ := leads_seqs_cons.1 hleads
    obtain ⟨c₂, hblanks, hnil⟩ := leads_seqs_cons.1 hrest
    obtain rfl := leads_nothing.1 hnil
    obtain ⟨t, hne, ht, htakes⟩ := leads_blanks1 hblanks
    rw [hd.edge, htakes.prev, List.getLast?_eq_some_getLast hne]
    exact (ascii_of_blank (ht _ (List.getLast_mem hne))).2.2
  have hgroups : d.groups = [] := by
    rw [hd.groups, hleads.groups_eq (by decide)]
    rfl
  have hwhole : (seqs [.textStart, .keyword "ADD", .blanks1, .opt columnWord]).run
      { prev := none, rest := spec } some = some ((columnWord.run d some).getD d) := hrun
  have hfind : addColumnPattern.find? spec
      = (seqs [.textStart, .keyword "ADD", .blanks1, .opt columnWord]).matchHere? none spec :=
    find?_textStart _ _
  rw [matchHere?, hwhole] at hfind
  have hspec := text_of_find? hfind
  rw [before_eq_nil hfind] at hspec
  refine ⟨_, hfind, ?_⟩
  rw [hafter, ← hd.rest, erase_columnWordPattern hedge hgroups]
  exact hspec.symm

end

theorem changeColumn_ok (hlits : Delimited lits) (definition spec : Bytes) (opts : TypeOptions) :
    changeColumn definition lits opts spec
      = .ok (AlterEffect.changeColumn (Column.ofText? definition lits opts true) opts spec) := by
  rw [changeColumn, readColumn_ok hlits, ok_bind]
  cases Column.ofText? definition lits opts true <;> rfl

theorem renameColumn_ok (hlits : Delimited lits) (t : AlteredTable) (old definition : Bytes)
    (opts : TypeOptions) :
    renameColumn t lits old definition opts
      = .ok (AlterEffect.renameColumn t lits old (Column.ofText? definition lits opts true)) := by
  rw [renameColumn, readColumn_ok hlits, ok_bind]
  cases Column.ofText? definition lits opts true with
  | none => rfl
  | some col =>
    dsimp only
    rw [bareName_ok _ hlits, ok_bind, bareName_ok _ hlits]
    exact (apply_ite Except.ok _ _ _).symm

/-- What is left behind the opening words of a specification. -/
theorem sliceFrom_text {ps : List Pattern} {s : Bytes} {m : Match}
    (h : (Pattern.seqs (.textStart :: ps)).find? s = some m) :
    sliceFrom s m.text.length = .ok m.after := by
  have hs := Pattern.text_of_find? h
  rw [Pattern.before_eq_nil h] at hs
  exact sliceFrom_eq hs.symm rfl

theorem ofChange_ok (hlits : Delimited lits) (t : AlteredTable) (opts : TypeOptions)
    (spec : Bytes) : ofChange t lits opts spec = .ok (AlterEffect.ofChange t lits opts spec) := by
  rw [ofChange, AlterEffect.ofChange]
  cases hmodify : modifyPattern.find? spec with
  | some m =>
    dsimp only
    rw [sliceFrom_text hmodify, ok_bind, changeColumn_ok hlits]
  | none =>
    dsimp only
    cases hchange : changePattern.find? spec with
    | some m =>
      have hold : elementAt (changePattern.submatches m) 1 = .ok (m.group 1) :=
        Pattern.submatch_ok (n := 1) (by decide) (by decide) m
      dsimp only
      rw [hold, ok_bind, normalizeName_ok, ok_bind, Pattern.submatches, elementAt_cons, ok_bind,
        sliceFrom_text hchange, ok_bind, renameColumn_ok hlits, ok_bind, changeColumn_ok hlits]
      rfl
    | none =>
      dsimp only
      cases dropIndexPattern.find? spec with
      | some m =>
        have hname : elementAt (dropIndexPattern.submatches m) 1 = .ok (m.group 1) :=
          Pattern.submatch_ok (n := 1) (by decide) (by decide) m
        dsimp only
        rw [hname, ok_bind, normalizeName_ok, ok_bind, bareName_ok _ hlits, ok_bind, quoteIdent_ok]
        rfl
      | none => rfl

theorem addColumn_ok (hlits : Delimited lits) (opts : TypeOptions) (definition spec : Bytes) :
    addColumn lits opts definition spec
      = .ok (AlterEffect.addColumn lits opts definition spec) := by
  rw [addColumn, AlterEffect.addColumn, readColumn_ok hlits, ok_bind]
  cases Column.ofText? (positionPattern.erase definition) lits opts false <;> rfl

theorem addKey_ok (hlits : Delimited lits) (t : AlteredTable) {item : Bytes} {m : Match}
    (h : keyClausePattern.find? item = some m) {places : List Int}
    (hplaces : keyClausePattern.Located item m places) :
    addKey t lits item places = .ok (AlterEffect.addKey t lits m) := by
  rw [addKey, AlterEffect.addKey, parseKeyClause_ok hlits h hplaces, ok_bind]
  dsimp only
  rw [createIndex_ok, writeEach_ok [] fun _ _ => rfl]
  split
  · rfl
  · split <;> rfl

theorem ofSpec_ok (hlits : Delimited lits) (t : AlteredTable) (opts : TypeOptions) (spec : Bytes) :
    ofSpec t lits opts spec = .ok (AlterEffect.ofSpec t lits opts spec) := by
  rw [ofSpec, AlterEffect.ofSpec, Pattern.span?]
  cases hprimary : addPrimaryPattern.find? spec with
  | some m =>
    dsimp only [Option.map_some]
    rw [keyColumns_of_find? hlits (Pattern.opensCall_of_endsCall (by decide)) hprimary, ok_bind,
      writeEach_ok [] fun _ _ => rfl]
    rfl
  | none =>
    dsimp only [Option.map_none]
    cases hadd : addPattern.find? spec with
    | none => exact ofChange_ok hlits t opts spec
    | some added =>
      dsimp only
      rw [sliceFrom_text hadd, ok_bind]
      cases hclause : keyClause? added.after with
      | some m =>
        obtain ⟨places, hplaces, hlocated⟩ := keyClause_some hclause
        obtain ⟨hfind, -⟩ := Option.filter_eq_some_iff.1 hclause
        rw [hplaces, ok_bind]
        exact addKey_ok hlits t hfind hlocated
      | none =>
        obtain ⟨m, hm, hspec⟩ := exists_find?_addColumn hadd
        have hdefinition : sliceFrom spec m.text.length
            = .ok (columnWordPattern.erase added.after) := sliceFrom_eq hspec rfl
        rw [keyClause_none hclause, ok_bind, hm]
        dsimp only
        rw [hdefinition, ok_bind, addColumn_ok hlits]
        split <;> rfl

theorem foldlM_register (bare : Bytes) (keys : List TableKey) (catalog : KeyCatalog) :
    keys.foldlM (fun c key => register c bare key) catalog
      = .ok (keys.foldl (fun c key => c.register bare key) catalog) :=
  (foldlM_ok (P := fun _ => True) (fun c key _ _ => ⟨register_ok c bare key, trivial⟩) trivial).1

theorem alterTable_ok (hlits : Delimited lits) (s : Bytes) (opts : TypeOptions)
    (catalog : KeyCatalog) :
    alterTable s lits opts catalog = .ok (SqlDialect.alterTable s lits opts catalog) := by
  rw [alterTable]
  cases hm : alterTablePattern.find? s with
  | none =>
    rw [Pattern.locate?_of_none hm, SqlDialect.alterTable, hm]
    rfl
  | some m =>
    obtain ⟨places, hplaces, hlocated⟩ := Pattern.locate?_of_find? hm
    obtain ⟨low₁, high₁, hlow₁, hhigh₁, hlead⟩ :=
      hlocated.group hm (n := 1) (by decide) (by decide) (by decide)
    obtain ⟨low₂, high₂, hlow₂, hhigh₂, hname⟩ :=
      hlocated.group hm (n := 2) (by decide) (by decide) (by decide)
    have hspecs : sliceFrom s ((m.before.length + m.text.length : Nat) : Int) = .ok m.after :=
      sliceFrom_eq (Pattern.text_of_find? hm).symm (by rw [List.length_append])
    rw [hplaces]
    dsimp only
    rw [hlow₁, ok_bind, hhigh₁, ok_bind, hlead, ok_bind, hlow₂, ok_bind, hhigh₂, ok_bind, hname,
      ok_bind, normalizeName_ok, ok_bind, lastSegment_ok, ok_bind, bareName_ok _ hlits, ok_bind,
      hlocated.matchEnd, ok_bind, hspecs, ok_bind, trimStatementEnd_ok, ok_bind]
    rw [splitTopLevel_ok, ok_bind, mapM_ok fun part _ => splitSpace_ok part, ok_bind,
      mapM_ok fun spec _ => ofSpec_ok hlits _ opts spec, ok_bind, foldlM_register, ok_bind]
    rw [SqlDialect.alterTable, hm]
    exact (apply_ite Except.ok _ _ _).symm

end SqlDialect.Checked
