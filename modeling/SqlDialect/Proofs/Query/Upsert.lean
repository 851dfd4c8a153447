import SqlDialect.Proofs.Conversion.Keys
import SqlDialect.Proofs.Identifier.Bare
import SqlDialect.Proofs.Literal.Separate
import SqlDialect.Proofs.Statement.InsertRead

set_option autoImplicit false

/-! # Upserts name the right key

An upsert names the columns that identify the row it may collide with. Where the table has been
created before, these are the columns of the first of its keys that the inserted columns cover; the
primary key comes first. The key travels far: from the table definition into the catalog, where names
are unquoted and in lower case, through whatever other statements do there, to the insert, where the
columns are compared as they are rendered.

`upsertTarget` says which columns these are in terms of the table definition and the names in the
insert alone. The main statement is that the clause `ON CONFLICT (…)` of the final output lists
exactly them. -/

namespace SqlDialect

open Bytes

/-! ## The target -/

/-- The first key with at least one column whose columns are all among the names. -/
def coveredKey? (keys : List TableKey) (names : List Bytes) : Option TableKey :=
  keys.find? fun key => !key.columns.isEmpty &&
    (key.columns.map KeyCatalog.unquoteName).all (names.map Bytes.toLower).contains

/-- What an upsert lists: for each column of the covered key the first name that means it, else the
first name. An entry is missing where no name means the column. -/
def upsertTarget (keys : List TableKey) (names : List Bytes) : List (Option Bytes) :=
  match coveredKey? keys names with
  | some key => key.columns.map fun col =>
      (names.find? fun c => Bytes.toLower c == KeyCatalog.unquoteName col).map normalizeName
  | none => [names.head?.map normalizeName]

section

variable {names : List Bytes} (hnames : ∀ c ∈ names, PlainName c)

include hnames

/-- The catalog knows the rendered columns by their lower-case names. -/
theorem map_unquoteName_bareName (lits : LiteralTable) :
    ((names.map quoteIdent).map fun c => bareName c lits).map KeyCatalog.unquoteName
      = names.map Bytes.toLower := by
  rw [List.map_map, List.map_map, List.map_inj_left]
  intro c hc
  have hrenders := renders_quoteIdent (hnames c hc).isWord
  rw [Function.comp_apply, Function.comp_apply, KeyCatalog.unquoteName_of_isWord (hrenders.isWord_bareName (hnames c hc) lits),
    hrenders.bareName (hnames c hc), (hnames c hc).isWord.toLower]

/-- Among rendered columns a lower-case name is found as among the names. -/
theorem find?_equalFold (lits : LiteralTable) {t : Bytes} (ht : t ∈ names.map Bytes.toLower) :
    (names.map quoteIdent).find? (fun c => equalFold (bareName c lits) t)
      = (names.find? fun c => Bytes.toLower c == t).map normalizeName := by
  obtain ⟨n, hn, rfl⟩ := List.mem_map.1 ht
  have hnword := (hnames n hn).isWord
  have heq : ∀ c ∈ names, equalFold (bareName (quoteIdent c) lits) (Bytes.toLower n)
      = (Bytes.toLower c == Bytes.toLower n) := by
    intro c hc
    have hrenders := renders_quoteIdent (hnames c hc).isWord
    rw [hnword.toLower, equalFold_ascii (hrenders.isWord_bareName (hnames c hc) lits).ascii
      hnword.map_lowerByte.ascii, hrenders.bareName (hnames c hc), (hnames c hc).isWord.toLower,
      map_lowerByte_idem]
  clear ht hn
  induction names with
  | nil => rfl
  | cons c names ih =>
    obtain ⟨hc, hnames⟩ := List.forall_mem_cons.1 hnames
    obtain ⟨hceq, heq⟩ := List.forall_mem_cons.1 heq
    rw [List.map_cons, List.find?_cons, List.find?_cons, hceq]
    cases Bytes.toLower c == Bytes.toLower n with
    | true => rw [Option.map_some, hc.normalizeName]
    | false => exact ih hnames heq

/-- Each column of a covered key is found. -/
theorem filterMap_find? (lits : LiteralTable) {cols : List Bytes}
    (hcols : ∀ col ∈ cols, KeyCatalog.unquoteName col ∈ names.map Bytes.toLower) :
    ((cols.map KeyCatalog.unquoteName).filterMap fun t =>
        (names.map quoteIdent).find? fun c => equalFold (bareName c lits) t).map some
      = cols.map fun col =>
          (names.find? fun c => Bytes.toLower c == KeyCatalog.unquoteName col).map normalizeName := by
  induction cols with
  | nil => rfl
  | cons col cols ih =>
    obtain ⟨hcol, hcols⟩ := List.forall_mem_cons.1 hcols
    obtain ⟨n, hn, hlower⟩ := List.mem_map.1 hcol
    obtain ⟨c, hc⟩ : ∃ c, names.find? (fun c => Bytes.toLower c == KeyCatalog.unquoteName col)
        = some c := by
      rw [← Option.isSome_iff_exists, List.find?_isSome]
      exact ⟨n, hn, beq_iff_eq.2 hlower⟩
    rw [List.map_cons, List.map_cons, List.filterMap_cons, find?_equalFold hnames lits hcol, hc,
      Option.map_some, List.map_cons, ih hcols]

end

/-- Of the keys in the catalog the first covered one is found. -/
theorem find?_normalize (keys : List TableKey) (names : List Bytes) :
    ((keys.filter fun k => !k.columns.isEmpty).map KeyCatalog.normalize).find?
        (fun k => k.columns.all (names.map Bytes.toLower).contains)
      = (coveredKey? keys names).map KeyCatalog.normalize := by
  rw [List.find?_map, List.find?_filter, coveredKey?]
  congr 2
  funext key
  rw [Bool.eq_iff_iff, decide_eq_true_iff, Bool.and_eq_true]
  rfl

theorem InsertHead.plainName_of_mem (h : InsertHead) : ∀ c ∈ h.columnNames, PlainName c := by
  intro c hc
  obtain ⟨col, -, rfl⟩ := List.mem_map.1 hc
  exact col.name.plain

/-- An insert into a table with known keys collides on the target. -/
theorem InsertHead.conflictTarget (h : InsertHead) {catalog : KeyCatalog} {keys : List TableKey}
    (hkeys : catalog.entry (Bytes.toLower h.table.name)
      = (keys.filter fun k => !k.columns.isEmpty).map KeyCatalog.normalize)
    (lits : LiteralTable) (s : Bytes) :
    ((h.read s).conflictTarget catalog lits).map some = upsertTarget keys h.columnNames := by
  have hnames := h.plainName_of_mem
  have hsegment : lastSegment h.table.rendered = h.table.rendered :=
    lastSegment_of_notMem (h.table.renders.notMem h.table.plain.isWord rfl (by decide))
  have hentry : catalog.keys (bareName h.table.rendered lits)
      = (keys.filter fun k => !k.columns.isEmpty).map KeyCatalog.normalize := by
    rw [KeyCatalog.keys, KeyCatalog.tableName_of_isWord
      (h.table.renders.isWord_bareName h.table.plain lits), h.table.renders.bareName h.table.plain,
      ← h.table.plain.isWord.toLower, hkeys]
  have hempty : (h.columnNames.map quoteIdent).isEmpty = false := by
    simpa [columnNames] using h.columns_ne
  have htable : (h.read s).table = h.table.rendered := rfl
  have hcolumns : (h.read s).columns = h.columnNames.map quoteIdent := rfl
  rw [Insert.conflictTarget, htable, hsegment, hcolumns, hempty, if_neg Bool.false_ne_true,
    KeyCatalog.conflictTarget?, hentry]
  rw [map_unquoteName_bareName hnames, find?_normalize, upsertTarget]
  cases hkey : coveredKey? keys h.columnNames with
  | none =>
    cases hcols : h.columnNames with
    | nil => simp [hcols] at hempty
    | cons c cs =>
      have hc := hnames c (by rw [hcols]; exact List.mem_cons_self)
      simp [hc.normalizeName]
  | some key =>
    have hcovered : ∀ col ∈ key.columns,
        KeyCatalog.unquoteName col ∈ h.columnNames.map Bytes.toLower := by
      intro col hcol
      rw [coveredKey?] at hkey
      have hsome := List.find?_some hkey
      rw [Bool.and_eq_true] at hsome
      exact List.contains_iff_mem.1 (List.all_eq_true.1 hsome.2 _ (List.mem_map_of_mem hcol))
    exact filterMap_find? hnames lits hcovered

theorem upsertTarget_ne_nil (keys : List TableKey) (names : List Bytes) :
    upsertTarget keys names ≠ [] := by
  rw [upsertTarget]
  split
  · rename_i key hkey
    rw [coveredKey?] at hkey
    have hsome := List.find?_some hkey
    rw [Bool.and_eq_true] at hsome
    simpa using hsome.1
  · exact List.cons_ne_nil _ _

/-! ## The clause in the text -/

/-- The clause that names the columns which identify a row. -/
def onConflictClause (target : List Bytes) : Bytes :=
  ascii " ON CONFLICT (" ++ join (ascii ", ") target ++ ascii ")"

/-- The rule for upserts writes the clause in the place of the one that it converts. -/
theorem InsertHead.convertOnDuplicate?_rendered (h : InsertHead) {catalog : KeyCatalog}
    {keys : List TableKey}
    (hkeys : catalog.entry (Bytes.toLower h.table.name)
      = (keys.filter fun k => !k.columns.isEmpty).map KeyCatalog.normalize)
    (lits : LiteralTable) {s : Bytes} (hdup : hasOnDuplicate (h.rendered ++ s) = true) :
    ∃ m target sets tail, findTop? onDuplicatePattern (h.rendered ++ s) = some m ∧
      target.map some = upsertTarget keys h.columnNames ∧
      convertOnDuplicate? (h.rendered ++ s) lits catalog = some
        { text := trimRight m.before ++ onConflictClause target ++ ascii " DO UPDATE SET " ++ sets ++
            returningAll ++ tail } := by
  obtain ⟨m, hm⟩ := Option.isSome_iff_exists.1 hdup
  have htarget := h.conflictTarget hkeys lits s
  have hne : ((h.read s).conflictTarget catalog lits).isEmpty = false := by
    have hne := upsertTarget_ne_nil keys h.columnNames
    rw [← htarget] at hne
    simpa using hne
  have hm' : findTop? onDuplicatePattern (h.read s).withoutIgnore = some m := hm
  refine ⟨m, _, join (ascii ", ") ((splitTop (trimStatementEnd m.after).1).map
    (upsertAssignment lits)), semicolonIf (trimStatementEnd m.after).2, hm, htarget, ?_⟩
  have hclause : ascii ") DO UPDATE SET " = ascii ")" ++ ascii " DO UPDATE SET " := rfl
  simp only [convertOnDuplicate?, h.ofText?_rendered, hm', Option.bind_eq_bind, Option.bind_some,
    hne, Bool.false_eq_true, if_false, onConflictClause, hclause, List.append_assoc]

/-- The pattern occurs in a text that it matches behind an ASCII text. -/
theorem Pattern.occursIn_append {p : Pattern} (hp : p.leadRun? = none) {a b : Bytes} {x : UInt8}
    (hx : x < 128) (h : (p.matchHere? a.getLast? (x :: b)).isSome = true) :
    p.occursIn (a ++ x :: b) = true := by
  obtain ⟨m₀, hm₀⟩ := Option.isSome_iff_exists.1 h
  rw [← Option.or_none (o := a.getLast?)] at hm₀
  obtain ⟨m, hm, -⟩ := exists_findFrom?_le hp hx hm₀
  rw [occursIn, show p.find? (a ++ x :: b) = some m from hm]
  rfl

theorem occursIn_onConflict (a b : Bytes) :
    onConflictPattern.occursIn (a ++ ascii " ON CONFLICT " ++ b) = true := by
  have htext : a ++ ascii " ON CONFLICT " ++ b = (a ++ [32]) ++ 79 :: (ascii "N CONFLICT " ++ b) := by
    have hclause : ascii " ON CONFLICT " = [32] ++ (79 :: ascii "N CONFLICT ") := rfl
    simp only [hclause, List.append_assoc, List.cons_append]
  rw [htext]
  refine Pattern.occursIn_append rfl (by decide) ?_
  rw [List.getLast?_concat]
  rfl

theorem occursIn_onConflictClause (a : Bytes) (target : List Bytes) (b : Bytes) :
    onConflictPattern.occursIn (a ++ onConflictClause target ++ b) = true := by
  have htext : a ++ onConflictClause target ++ b
      = a ++ ascii " ON CONFLICT " ++ (ascii "(" ++ join (ascii ", ") target ++ ascii ")" ++ b) := by
    have hclause : ascii " ON CONFLICT (" = ascii " ON CONFLICT " ++ ascii "(" := rfl
    simp only [onConflictClause, hclause, List.append_assoc]
  rw [htext]
  exact occursIn_onConflict _ _

theorem hasReturning_returningAll (a b : Bytes) : hasReturning (a ++ returningAll ++ b) = true := by
  have htext : a ++ returningAll ++ b = (a ++ [32]) ++ 82 :: (ascii "ETURNING *" ++ b) := by
    have hclause : returningAll = [32] ++ (82 :: ascii "ETURNING *") := rfl
    simp only [hclause, List.append_assoc, List.cons_append]
  rw [hasReturning, htext]
  refine Pattern.occursIn_append rfl (by decide) ?_
  rw [List.getLast?_concat]
  rfl

/-! ## The clause in the output -/

/-- Each entry of the target is a rendered name. -/
theorem eq_quoteIdent_of_mem {keys : List TableKey} {names target : List Bytes}
    (hnames : ∀ c ∈ names, PlainName c) (h : target.map some = upsertTarget keys names) :
    ∀ e ∈ target, ∃ c, PlainName c ∧ e = quoteIdent c := by
  have hrendered : ∀ {o : Option Bytes} {e : Bytes}, (∀ c, o = some c → c ∈ names) →
      o.map normalizeName = some e → ∃ c, PlainName c ∧ e = quoteIdent c := by
    intro o e ho he
    obtain ⟨c, hc, rfl⟩ := Option.map_eq_some_iff.1 he
    exact ⟨c, hnames c (ho c hc), (hnames c (ho c hc)).normalizeName⟩
  intro e he
  have hmem : some e ∈ upsertTarget keys names := h ▸ List.mem_map_of_mem he
  rw [upsertTarget] at hmem
  split at hmem
  · obtain ⟨col, -, hcol⟩ := List.mem_map.1 hmem
    exact hrendered (fun c hc => List.mem_of_find?_eq_some hc) hcol
  · exact hrendered (fun c hc => List.mem_of_head? hc) (List.mem_singleton.1 hmem).symm

section

variable {target : List Bytes} (htarget : ∀ e ∈ target, ∃ c, PlainName c ∧ e = quoteIdent c)

include htarget

theorem quoteFrom_target (left b : Bytes) :
    quoteFrom left (join (ascii ", ") target ++ 41 :: b)
      = join (ascii ", ") target ++ quoteFrom (left ++ join (ascii ", ") target) (41 :: b) := by
  induction target generalizing left with
  | nil => simp [join]
  | cons e target ih =>
    obtain ⟨⟨c, hc, rfl⟩, hrest⟩ := List.forall_mem_cons.1 htarget
    cases target with
    | nil =>
      have hkeep := quoteFrom_quoteIdent hc.isWord (b := 41 :: b) rfl left
      simpa [join] using hkeep
    | cons next target =>
      have hkeep := quoteFrom_quoteIdent hc.isWord
        (b := ascii ", " ++ (join (ascii ", ") (next :: target) ++ 41 :: b)) rfl left
      rw [join_cons_cons, List.append_assoc, List.append_assoc, hkeep,
        quoteFrom_separators (by decide), ih hrest]
      simp only [List.append_assoc]

theorem restore_target (t : LiteralTable) (b : Bytes) :
    restore (join (ascii ", ") target ++ 41 :: b) t
      = join (ascii ", ") target ++ 41 :: restore b t := by
  induction target with
  | nil => exact restore_unmarked_append rfl t rfl b
  | cons e target ih =>
    obtain ⟨⟨c, hc, rfl⟩, hrest⟩ := List.forall_mem_cons.1 htarget
    cases target with
    | nil => simpa [join] using restore_quoteIdent (hc.isWord.notMem rfl) hc.unmarked t rfl b
    | cons next target =>
      have hcomma : ∀ s, ascii ", " ++ s = 44 :: ([] ++ 32 :: s) := fun _ => rfl
      rw [join_cons_cons, List.append_assoc, List.append_assoc, hcomma,
        restore_quoteIdent (hc.isWord.notMem rfl) hc.unmarked t rfl, restore_unmarked_append rfl t rfl, ih hrest, List.append_assoc,
        List.append_assoc, hcomma]

end

/-- The clause, word by word. -/
theorem append_onConflictClause (a : Bytes) (target : List Bytes) (b : Bytes) :
    a ++ onConflictClause target ++ b = a ++ 32 :: (ascii "ON" ++ 32 :: (ascii "CONFLICT" ++
      32 :: ([] ++ 40 :: (join (ascii ", ") target ++ 41 :: b)))) := by
  have hopen : ascii " ON CONFLICT ("
      = 32 :: (ascii "ON" ++ 32 :: (ascii "CONFLICT" ++ 32 :: ([] ++ [40]))) := rfl
  have hclose : ascii ")" = [41] := rfl
  simp only [onConflictClause, hopen, hclose, List.append_assoc, List.cons_append, List.nil_append]

theorem quoteBareIdentifiers_onConflictClause {target : List Bytes}
    (htarget : ∀ e ∈ target, ∃ c, PlainName c ∧ e = quoteIdent c) (a b : Bytes) :
    ∃ a' b', quoteBareIdentifiers (a ++ onConflictClause target ++ b)
      = a' ++ onConflictClause target ++ b' := by
  have hword : ∀ w, IsWord w → ¬ MayBeName w → ∀ left s,
      quoteFrom left (w ++ 32 :: s) = w ++ 32 :: quoteFrom (left ++ w ++ [32]) s := by
    intro w hw hother left s
    have hkeep : quoteFrom left (w ++ 32 :: s) = w ++ quoteFrom (left ++ w) (32 :: s) :=
      quoteFrom_word hw rfl fun _ h => absurd h hother
    rw [hkeep, quoteFrom_cons rfl]
  obtain ⟨a', ha'⟩ := quoteFrom_separator (x := 32) rfl [] a
    (ascii "ON" ++ 32 :: (ascii "CONFLICT" ++ 32 :: ([] ++ 40 :: (join (ascii ", ") target ++
      41 :: b))))
  rw [hword (ascii "ON") (by decide) (by decide), hword (ascii "CONFLICT") (by decide) (by decide),
    List.nil_append, quoteFrom_cons rfl, quoteFrom_target htarget, quoteFrom_cons rfl] at ha'
  rw [append_onConflictClause, quoteBareIdentifiers_eq, List.nil_append, ha']
  exact ⟨a', _, (append_onConflictClause _ _ _).symm⟩

/-- The clause comes through putting the literals back. -/
theorem restore_onConflictClause {target : List Bytes}
    (htarget : ∀ e ∈ target, ∃ c, PlainName c ∧ e = quoteIdent c) (a b : Bytes) (t : LiteralTable) :
    restore (a ++ onConflictClause target ++ b) t
      = restore a t ++ onConflictClause target ++ restore b t := by
  rw [append_onConflictClause, append_onConflictClause, restore_append_separator rfl,
    restore_unmarked_append rfl t rfl, restore_unmarked_append rfl t rfl,
    restore_unmarked_append rfl t rfl, restore_target htarget]

/-! ## The whole conversion -/

/-- The name of the rule for upserts. -/
def upsertRuleName : String := "on-duplicate-key"

/-- What an insert is when the rule for upserts is reached. -/
theorem runRules_before_upsert {d : Draft} (hk : d.kind = .insert) :
    ∃ lits, runRules (rulesBefore upsertRuleName) d
      = .ok { d with text := textAtUpsert d.text, literals := lits } := by
  obtain ⟨kind, text, literals, options, catalog, log⟩ := d
  obtain rfl : kind = .insert := hk
  exact ⟨_, rfl⟩

theorem Draft.kind_onDuplicate (d : Draft) : d.onDuplicate.kind = d.kind := by
  rw [onDuplicate]
  split
  · split <;> rfl
  · rfl

theorem Draft.kind_insertIgnore (d : Draft) : d.insertIgnore.kind = d.kind := by
  rw [Draft.insertIgnore]
  cases ignoringInsert? d.text <;> rfl

/-- What happens to an insert behind the rule for upserts. -/
theorem runRules_rulesAfter_upsert {d : Draft} (hk : d.kind = .insert) :
    runRules (rulesAfter upsertRuleName) d
      = .ok ((d.insertIgnore.mapText fun s => if hasReturning s then s else appendReturning s).mapText
          quoteBareIdentifiers) := by
  have hcut : rulesAfter upsertRuleName
      = .total "insert-ignore" [.insert] Draft.insertIgnore :: rulesAfter "insert-ignore" := rfl
  have hkind := d.kind_insertIgnore.trans hk
  rw [hcut, runRules_cons, Rule.run_total_one, if_pos hk]
  generalize d.insertIgnore = d at hkind
  obtain ⟨kind, text, literals, options, catalog, log⟩ := d
  obtain rfl : kind = .insert := hkind
  rfl

/-- An insert that says what to do on a conflict and what it returns is changed no more, but for bare
names. -/
theorem runRules_after_upsert {d : Draft} (hk : d.kind = .insert)
    (hconflict : onConflictPattern.occursIn d.text = true) (hreturning : hasReturning d.text = true) :
    runRules (rulesAfter upsertRuleName) d = .ok (d.mapText quoteBareIdentifiers) := by
  have hignore : ignoringInsert? d.text = none := by
    rw [ignoringInsert?]
    cases Insert.ofText? d.text with
    | none => rfl
    | some ins => simp [Option.filter, hconflict]
  have hinsert : d.insertIgnore = d := by rw [Draft.insertIgnore, hignore]
  rw [runRules_rulesAfter_upsert hk, hinsert]
  simp [Draft.mapText, hreturning]

variable {κ : Type}

/-- What the rules make of an insert into a table with known keys, if it says what to do on a
duplicate key. -/
theorem InsertHead.runRules_upsert (h : InsertHead) {keys : List TableKey} {c : Converter κ}
    (hkeys : c.catalog.entry (Bytes.toLower h.table.name)
      = (keys.filter fun k => !k.columns.isEmpty).map KeyCatalog.normalize)
    {rest : Bytes} {d : Draft}
    (hd : runRules (rulesBefore upsertRuleName) (c.draft (h.text ++ rest)) = .ok d)
    (hdup : hasOnDuplicate d.text = true) :
    ∃ m target sets before after, findTop? onDuplicatePattern d.text = some m ∧
      target.map some = upsertTarget keys h.columnNames ∧
      d.onDuplicate.text = trimRight m.before ++ onConflictClause target ++ sets ∧
      quoteBareIdentifiers d.onDuplicate.text = before ++ onConflictClause target ++ after ∧
      ∃ d', runRules conversionRules (c.draft (h.text ++ rest)) = .ok d' ∧
        d'.result = restore before d.literals ++ onConflictClause target
          ++ restore after d.literals := by
  have hkind : (c.draft (h.text ++ rest)).kind = .insert := h.ofStatement_text rest
  obtain ⟨lits, hbefore⟩ := runRules_before_upsert hkind
  obtain ⟨s, hs⟩ := h.converted (shield rest).1
  have htext : textAtUpsert (c.draft (h.text ++ rest)).text = h.rendered ++ s := by
    rw [← hs, ← show (shield (h.text ++ rest)).1 = h.text ++ (shield rest).1 by rw [h.shield_text]]
    rfl
  have hrules : conversionRules = rulesBefore upsertRuleName ++
      .total upsertRuleName [.insert] Draft.onDuplicate :: rulesAfter upsertRuleName := rfl
  obtain ⟨hkind', hcatalog, htext'⟩ : d.kind = .insert ∧ d.catalog = c.catalog ∧
      d.text = h.rendered ++ s := by
    obtain rfl := Except.ok.inj (hbefore.symm.trans hd)
    exact ⟨hkind, rfl, htext⟩
  rw [← hcatalog] at hkeys
  rw [htext'] at hdup
  obtain ⟨m, target, sets, tail, hm, htarget, hconvert⟩ :=
    h.convertOnDuplicate?_rendered hkeys d.literals hdup
  have hrendered := eq_quoteIdent_of_mem h.plainName_of_mem htarget
  rw [← htext'] at hdup hm hconvert
  -- the rule writes the clause, and the rules behind it leave the clause alone
  have hfired : d.onDuplicate.kind = .insert ∧ d.onDuplicate.literals = d.literals ∧
      d.onDuplicate.text = trimRight m.before ++ onConflictClause target
        ++ (ascii " DO UPDATE SET " ++ sets ++ returningAll ++ tail) := by
    rw [Draft.onDuplicate, if_pos hdup, hconvert]
    exact ⟨hkind', rfl, by simp only [List.append_assoc]⟩
  obtain ⟨hkind₁, hlits₁, htext₁⟩ := hfired
  have hafter : runRules (rulesAfter upsertRuleName) d.onDuplicate
      = .ok (d.onDuplicate.mapText quoteBareIdentifiers) := by
    refine runRules_after_upsert hkind₁ ?_ ?_
    · rw [htext₁]
      exact occursIn_onConflictClause _ _ _
    · rw [htext₁, ← List.append_assoc, ← List.append_assoc]
      exact hasReturning_returningAll _ _
  obtain ⟨before, after, hquoted⟩ :=
    quoteBareIdentifiers_onConflictClause hrendered (trimRight m.before)
      (ascii " DO UPDATE SET " ++ sets ++ returningAll ++ tail)
  rw [← htext₁] at hquoted
  refine ⟨m, target, _, before, after, hm, htarget, htext₁, hquoted,
    d.onDuplicate.mapText quoteBareIdentifiers, ?_, ?_⟩
  · rw [hrules, runRules_append, hd]
    show runRules (_ :: _) d = _
    rw [runRules_cons, Rule.run_total_one, if_pos hkind']
    exact hafter
  · show restore (quoteBareIdentifiers d.onDuplicate.text) d.onDuplicate.literals = _
    rw [hquoted, hlits₁, restore_onConflictClause hrendered]

variable [Cache κ]

/-- An upsert names the right key end to end. A session creates a table; other statements, resets and
catalog operations follow, none of which changes the keys of that table; then a session inserts into
it and the rule for upserts applies. The rule writes the clause `ON CONFLICT (…)` with exactly the
target in the place of the clause that it converts, and so it stands in the answer. -/
theorem SessionPool.upsert_names_key (p : SessionPool κ) (creator : Bytes) {create : Bytes}
    {t : CreatedTable} (hkind : Kind.ofStatement create = .createTable)
    (ht : createTable? (replaceBackticks (shield create).1) (shield create).2 p.converter.options
      = some t)
    (h : InsertHead)
    (htable : (bareName t.definition.name (shield create).2).map lowerByte
      = h.table.name.map lowerByte)
    {steps : List PoolStep}
    (hsteps : ∀ s ∈ steps,
      s.changedTable? p.converter.options ≠ some (Bytes.toLower h.table.name))
    {q : SessionPool κ} (hq : q = p.run (.convert creator create :: steps))
    (inserter rest : Bytes) {d : Draft}
    (hd : runRules (rulesBefore upsertRuleName) (q.converter.draft (h.text ++ rest)) = .ok d)
    (hdup : hasOnDuplicate d.text = true) :
    ∃ m target sets before after, findTop? onDuplicatePattern d.text = some m ∧
      target.map some = upsertTarget t.definition.uniqueKeys h.columnNames ∧
      d.onDuplicate.text = trimRight m.before ++ onConflictClause target ++ sets ∧
      quoteBareIdentifiers d.onDuplicate.text = before ++ onConflictClause target ++ after ∧
      q.answer (.convert inserter (h.text ++ rest)) = .converted .insert
        (restore before d.literals ++ onConflictClause target ++ restore after d.literals) := by
  have hword : IsWord (bareName t.definition.name (shield create).2) :=
    h.table.plain.isWord.of_map_lowerByte htable
  have hname : KeyCatalog.tableName (bareName t.definition.name (shield create).2)
      = Bytes.toLower h.table.name := by
    rw [KeyCatalog.tableName_of_isWord hword, htable, h.table.plain.isWord.toLower]
  -- the entry is that of the definition, as no later step changes the table
  have hkeys := p.entry_run_createTable creator hkind ht hname hsteps
  rw [← hq] at hkeys
  obtain ⟨m, target, sets, before, after, hm, htarget, htext, hquoted, d', hrun, hresult⟩ :=
    h.runRules_upsert hkeys hd hdup
  refine ⟨m, target, sets, before, after, hm, htarget, htext, hquoted, ?_⟩
  have hinsert := h.ofStatement_text rest
  have hlookup : ¬ Converter.IsLookup (h.text ++ rest) := by
    rintro ⟨hselect, -⟩
    rw [hinsert] at hselect
    cases hselect
  have hstored : q.converter.stored? (h.text ++ rest) = none := by
    apply Converter.stored?_eq_none
    rw [hinsert]
    decide
  have houtput := (q.converter.convert_of_unstored (q.session? inserter) hlookup hstored).1
  have hsettle : (q.converter.settle (h.text ++ rest) (Kind.ofStatement (h.text ++ rest))
      (shield (h.text ++ rest)).1 (shield (h.text ++ rest)).2).1 = d'.result := by
    rw [Converter.settle, Converter.convertFresh, show q.converter.runRules _ _ _ = .ok d' from hrun]
  rw [answer_convert, hinsert, houtput, hsettle, hresult]

/-- The head ``INSERT INTO orders (qty, `Desc`)``. -/
def ordersHead : InsertHead where
  lead := []
  insertWord := ascii "INSERT"
  gap := [32]
  intoWord := ascii "INTO"
  tableLead := [32]
  table := ⟨ascii "orders", false, ⟨by decide, by decide⟩⟩
  tableTrail := [32]
  columns :=
    [⟨[], ⟨ascii "qty", false, ⟨by decide, by decide⟩⟩, [], by decide, by decide⟩,
      ⟨[32], ⟨ascii "Desc", true, ⟨by decide, by decide⟩⟩, [], by decide, by decide⟩]
  insertWord_eq := by decide
  intoWord_eq := by decide
  lead_blank := by decide
  gap_blank := by decide
  gap_ne := by decide
  tableLead_blank := by decide
  tableLead_ne := by decide
  tableTrail_blank := by decide
  columns_ne := by decide
  table_readAsName := by decide
  columns_readAsName := by decide

/-- A table with a primary key and a unique key, the latter on a column named by a reserved word. -/
def ordersTable : Bytes :=
  ascii "CREATE TABLE `Orders` (ID int, `desc` text, UNIQUE KEY k (`desc`), PRIMARY KEY (ID))"

/-- The definition of the table. -/
def ordersCreated : CreatedTable :=
  (createTable? (replaceBackticks (shield ordersTable).1) (shield ordersTable).2 {}).get
    (by decide +kernel)

/-- The unique key is named although the primary key comes first, since only the former is covered;
what another session does in between does not matter. -/
theorem SessionPool.upsert_names_key_reserved :
    ∃ before after,
      (SessionPool.run {} [.convert (ascii "a") ordersTable,
        .convert (ascii "b") (ascii "CREATE TABLE t (a int, PRIMARY KEY (a))")]).answer
          (.convert (ascii "b") (ordersHead.text ++
            ascii " VALUES (1, 'x') ON DUPLICATE KEY UPDATE qty = 2"))
      = .converted .insert (before ++ ascii " ON CONFLICT (\"desc\")" ++ after) := by
  have hsteps : ∀ s ∈ [PoolStep.convert (ascii "b") (ascii "CREATE TABLE t (a int, PRIMARY KEY (a))")],
      s.changedTable? {} ≠ some (Bytes.toLower ordersHead.table.name) := by
    rw [ascii_ofList, ascii_ofList]
    decide +kernel
  have hchars : ordersTable = _ := ascii_ofList _
  have hkind : Kind.ofStatement ordersTable = .createTable := by
    rw [hchars]
    decide +kernel
  have hcreated : createTable? (replaceBackticks (shield ordersTable).1) (shield ordersTable).2 {}
      = some ordersCreated := (Option.some_get _).symm
  have hread : ∀ t ∈ createTable? (replaceBackticks (shield ordersTable).1) (shield ordersTable).2 {},
      (bareName t.definition.name (shield ordersTable).2).map lowerByte
          = ordersHead.table.name.map lowerByte ∧
        upsertTarget t.definition.uniqueKeys ordersHead.columnNames
          = [ascii "\"desc\""].map some := by
    rw [hchars]
    decide +kernel
  obtain ⟨hname, hkey⟩ := hread ordersCreated hcreated
  have hfires : hasOnDuplicate (textAtUpsert (shield (ordersHead.text ++
      ascii " VALUES (1, 'x') ON DUPLICATE KEY UPDATE qty = 2")).1) = true := by
    rw [ascii_ofList]
    decide +kernel
  obtain ⟨lits, hbefore⟩ := runRules_before_upsert (d := Converter.draft
    (SessionPool.run {} [.convert (ascii "a") ordersTable,
      .convert (ascii "b") (ascii "CREATE TABLE t (a int, PRIMARY KEY (a))")]).converter
    (ordersHead.text ++ ascii " VALUES (1, 'x') ON DUPLICATE KEY UPDATE qty = 2"))
    (ordersHead.ofStatement_text _)
  obtain ⟨m, target, sets, before, after, -, htarget, -, -, hanswer⟩ :=
    SessionPool.upsert_names_key {} (ascii "a") hkind hcreated ordersHead hname hsteps rfl
      (ascii "b") (ascii " VALUES (1, 'x') ON DUPLICATE KEY UPDATE qty = 2") hbefore hfires
  rw [hkey, List.map_inj_right (fun _ _ => Option.some.inj)] at htarget
  rw [htarget] at hanswer
  exact ⟨_, _, hanswer⟩

end SqlDialect
