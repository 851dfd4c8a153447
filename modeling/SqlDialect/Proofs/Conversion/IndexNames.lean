import SqlDialect.Proofs.Conversion.Keys
import SqlDialect.Proofs.Table.IndexNames

set_option autoImplicit false

/-! # The indexes of a script of table definitions

The conversion of CREATE TABLE looks at nothing but the statement: neither the session nor what the
converter has seen before changes it. So the indexes of a whole script are the ones of its
statements one after the other, and no index is named differently because its name is taken: two of
them have one name exactly if their keys clash. -/

namespace SqlDialect

open Bytes

/-- The keys that a statement turns into index statements. -/
def pulledKeysOf (opts : TypeOptions) (sql : Bytes) : List PulledKey :=
  pulledKeys (replaceBackticks (shield sql).1) (shield sql).2 opts

/-- The index statements that a statement is converted to, behind its definition. -/
def indexStatements (opts : TypeOptions) (sql : Bytes) : List Bytes :=
  (pulledKeysOf opts sql).map (PulledKey.output (shield sql).2)

/-- The definition that a statement is converted to, without the index statements: what the converted
definition holds in front of them, closed, with its literals. A statement that has no body in parentheses
only loses its backticks. -/
def definitionOf (opts : TypeOptions) (sql : Bytes) : Bytes :=
  match definitionAlone? (replaceBackticks (shield sql).1) (shield sql).2 opts with
  | none => restore (replaceBackticks (shield sql).1) (shield sql).2
  | some definition => restore definition (shield sql).2 ++ ascii ";"

/-- A definition with statements behind it, each on a line of its own. -/
def withStatements (definition : Bytes) (statements : List Bytes) : Bytes :=
  definition ++ statements.flatMap fun s => ascii "\n" ++ s ++ ascii ";"

/-! ## One statement -/

theorem Draft.text_createTable (d : Draft) :
    d.createTable.text
      = ((createTable? d.text d.literals d.options).map CreatedTable.text).getD d.text := by
  rw [createTable]
  cases createTable? d.text d.literals d.options <;> rfl

theorem Draft.literals_createTable (d : Draft) : d.createTable.literals = d.literals := by
  rw [createTable]
  split <;> rfl

namespace Converter

variable {κ : Type} [Cache κ]

variable {sql : Bytes}

/-- A statement that defines or alters a table loses its backticks, is converted, and gets its literals
back. -/
theorem output_define (c : Converter κ) (session : Option Session)
    (hk : Kind.ofStatement sql ∈ [Kind.createTable, .alterTable]) :
    (c.convert session sql).output = ((c.draft sql).mapText replaceBackticks).define.result := by
  have hkind : ((c.draft sql).mapText replaceBackticks).define.kind = Kind.ofStatement sql :=
    Draft.kind_define _
  have hnone : ∀ k ∈ [Kind.createTable, .alterTable],
      k ∉ plainKinds ∧ ∀ r ∈ rulesForRows, k ∉ r.kinds := by
    decide
  have hrun : SqlDialect.runRules conversionRules (c.draft sql)
      = .ok ((c.draft sql).mapText replaceBackticks).define := by
    rw [runRules_conversionRules]
    refine runRules_of_notMem ?_
    rw [hkind]
    exact (hnone _ hk).2
  exact (c.convert_of_runRules session (hnone _ hk).1 hrun).1

theorem output_createTable (c : Converter κ) (session : Option Session)
    (hk : Kind.ofStatement sql = .createTable) :
    (c.convert session sql).output
      = restore ((c.draft sql).mapText replaceBackticks).createTable.text (shield sql).2 := by
  have hkind : ((c.draft sql).mapText replaceBackticks).kind = .createTable := hk
  rw [c.output_define session (by rw [hk]; exact List.mem_cons_self), Draft.define, hkind]
  show ((c.draft sql).mapText replaceBackticks).createTable.result = _
  rw [Draft.result, Draft.literals_createTable]
  rfl

theorem output_alterTable (c : Converter κ) (session : Option Session)
    (hk : Kind.ofStatement sql = .alterTable) :
    (c.convert session sql).output = restore (alterTable (replaceBackticks (shield sql).1)
      (shield sql).2 c.options c.catalog).1 (shield sql).2 := by
  have hkind : ((c.draft sql).mapText replaceBackticks).kind = .alterTable := hk
  rw [c.output_define session (by rw [hk]; decide), Draft.define, hkind]
  rfl

/-- Behind the converted definition stand the index statements for its keys. -/
theorem output_withStatements (c : Converter κ) (session : Option Session)
    (hk : Kind.ofStatement sql = .createTable)
    (hintact : ∀ k ∈ pulledKeysOf c.options sql, k.Intact (shield sql).2) :
    (c.convert session sql).output
      = withStatements (definitionOf c.options sql) (indexStatements c.options sql) := by
  have htext : ((c.draft sql).mapText replaceBackticks).createTable.text
      = ((createTable? (replaceBackticks (shield sql).1) (shield sql).2 c.options).map
          CreatedTable.text).getD (replaceBackticks (shield sql).1) :=
    Draft.text_createTable _
  rw [c.output_createTable session hk, htext]
  cases ht : createTable? (replaceBackticks (shield sql).1) (shield sql).2 c.options with
  | none =>
    rw [indexStatements, pulledKeysOf, pulledKeys_of_eq_none ht, definitionOf,
      definitionAlone?_of_eq_none ht]
    exact (List.append_nil _).symm
  | some t =>
    obtain ⟨definition, halone, htext⟩ := text_of_createTable? ht
    rw [Option.map_some, Option.getD_some, htext, List.append_assoc, definitionOf, halone]
    show restore (definition ++ 59 :: (pulledKeysOf c.options sql).flatMap _) _ = _
    rw [restore_append_separator rfl, PulledKey.restore_statements hintact, withStatements,
      indexStatements, List.flatMap_map, List.append_assoc]
    rfl

end Converter

namespace SessionPool

variable {κ : Type} [Cache κ]

/-- What a script of table definitions is answered with. -/
theorem answers_withStatements (p : SessionPool κ) {script : List (Bytes × Bytes)}
    (hkind : ∀ s ∈ script, Kind.ofStatement s.2 = .createTable)
    (hintact : ∀ s ∈ script, ∀ k ∈ pulledKeysOf p.converter.options s.2, k.Intact (shield s.2).2) :
    p.answers (script.map fun s => .convert s.1 s.2)
      = script.map fun s => .converted .createTable (withStatements
          (definitionOf p.converter.options s.2) (indexStatements p.converter.options s.2)) := by
  induction script generalizing p with
  | nil => rfl
  | cons s script ih =>
    obtain ⟨hs, hscript⟩ := List.forall_mem_cons.1 hkind
    obtain ⟨hks, hkscript⟩ := List.forall_mem_cons.1 hintact
    have hopts := p.options_step (.convert s.1 s.2)
    have hrest := ih (p.step (.convert s.1 s.2)) hscript (by rwa [hopts])
    rw [hopts] at hrest
    rw [List.map_cons, answers, List.map_cons, hrest, answer_convert, hs,
      p.converter.output_withStatements (p.session? s.1) hs hks]

/-- The names of a script's indexes are the names that its keys get. -/
theorem map_createdIndex?_indexStatements (opts : TypeOptions) (sqls : List Bytes) :
    (sqls.flatMap (indexStatements opts)).map createdIndex?
      = (sqls.flatMap (pulledKeysOf opts)).map fun k => some (foldName k.indexName) := by
  rw [List.map_flatMap, List.map_flatMap]
  refine congrArg (sqls.flatMap ·) (funext fun sql => ?_)
  rw [indexStatements, List.map_map]
  exact List.map_congr_left fun k _ => PulledKey.createdIndex?_output _ k

/-- **Index names collide exactly where keys clash.** Each definition of a script is answered with the
converted definition and the index statements for its keys, whatever went before. The names of all
these indexes, as they are read, are pairwise distinct if and only if no two of the keys clash: if no
two have the same table and the same name, and the name of no key's table goes on in the name of
another key. -/
theorem index_names_nodup_iff (p : SessionPool κ) (script : List (Bytes × Bytes))
    (hkind : ∀ s ∈ script, Kind.ofStatement s.2 = .createTable)
    (hintact : ∀ s ∈ script, ∀ k ∈ pulledKeysOf p.converter.options s.2, k.Intact (shield s.2).2) :
    p.answers (script.map fun s => .convert s.1 s.2)
      = script.map (fun s => .converted .createTable (withStatements
          (definitionOf p.converter.options s.2) (indexStatements p.converter.options s.2))) ∧
    ((((script.map Prod.snd).flatMap (indexStatements p.converter.options)).map
        createdIndex?).Nodup
      ↔ ((script.map Prod.snd).flatMap (pulledKeysOf p.converter.options)).Pairwise
        fun k l => ¬ k.Clashes l) := by
  refine ⟨p.answers_withStatements hkind hintact, ?_⟩
  rw [map_createdIndex?_indexStatements, List.Nodup, List.pairwise_map]
  refine List.Pairwise.iff fun k l => ?_
  rw [ne_eq, Option.some.injEq, PulledKey.foldName_indexName_eq_iff]

theorem index_names_nodup_apart :
    let script := [(ascii "s", ascii "CREATE TABLE a (x int, KEY c (x))"),
      (ascii "s", ascii "CREATE TABLE a_b (x int, UNIQUE KEY `C` (x), KEY (x))")]
    (∀ s ∈ script, Kind.ofStatement s.2 = .createTable) ∧
    (∀ s ∈ script, ∀ k ∈ pulledKeysOf {} s.2, k.Intact (shield s.2).2) ∧
    (((script.map Prod.snd).flatMap (indexStatements {})).map createdIndex?).Nodup := by
  intro script
  obtain ⟨hkind, hintact, hapart⟩ : (∀ s ∈ script, Kind.ofStatement s.2 = .createTable) ∧
      (∀ s ∈ script, ∀ k ∈ pulledKeysOf {} s.2, k.Intact (shield s.2).2) ∧
      ((script.map Prod.snd).flatMap (pulledKeysOf {})).Pairwise fun k l => ¬ k.Clashes l := by
    simp only [script]
    repeat rw [ascii_ofList]
    decide +kernel
  exact ⟨hkind, hintact, (index_names_nodup_iff {} script hkind hintact).2.2 hapart⟩

/-- The key `b_c` of the table `a` and the key `c` of the table `a_b` get one name, and so does a key
without a name, which is called after its first column, with a key that has this name. -/
theorem index_names_shared :
    let tables := [ascii "CREATE TABLE a (x int, KEY b_c (x))",
      ascii "CREATE TABLE a_b (x int, KEY c (x))"]
    let unnamed := [ascii "CREATE TABLE t (x int, y int, KEY x (y), KEY (x))"]
    ({} : SessionPool).answers (tables.map (.convert (ascii "s")))
      = [.converted .createTable (ascii "CREATE TABLE IF NOT EXISTS a (x int);" ++
          ascii "\nCREATE INDEX IF NOT EXISTS a_b_c ON a (x);"),
        .converted .createTable (ascii "CREATE TABLE IF NOT EXISTS a_b (x int);" ++
          ascii "\nCREATE INDEX IF NOT EXISTS a_b_c ON a_b (x);")] ∧
    ¬ ((tables.flatMap (indexStatements {})).map createdIndex?).Nodup ∧
    ¬ ((unnamed.flatMap (indexStatements {})).map createdIndex?).Nodup := by
  repeat rw [ascii_ofList]
  decide +kernel

end SessionPool

end SqlDialect
