import SqlDialect.Proofs.Conversion.Memo
import SqlDialect.Proofs.Query.Count

set_option autoImplicit false

/-! # The query that is remembered

A session remembers the last query that reads from a table, to answer a question for its row count.
What is remembered can be counted, as long as the modifiers that are dropped keep words apart. A query
behind blanks is remembered and counted as it would be alone. Behind a comment it is of the same
kind, but the pattern that looks for its FROM knows no comments, so it is not remembered and the
question is answered for an earlier query. -/

namespace SqlDialect

open Bytes

namespace Converter

variable {κ : Type} [Cache κ]

/-- A conversion of the statement stores it in the session, whatever the session holds. -/
def Remembers (c : Converter κ) (sql : Bytes) : Prop :=
  ∀ session : Session, (c.convert (some session) sql).session = some ⟨sql⟩

/-- The conditions on which a statement is stored. -/
def IsMainQuery (sql : Bytes) : Prop :=
  Kind.ofStatement sql = .select ∧ isFoundRowsLookup (shield sql).1 = false ∧
    readsTable (shield sql).1 = true

instance (sql : Bytes) : Decidable (IsMainQuery sql) :=
  inferInstanceAs (Decidable (_ ∧ _))

variable {c : Converter κ} {sql : Bytes}

theorem convert_session_of_isMainQuery (c : Converter κ) (session : Option Session)
    (h : IsMainQuery sql) : (c.convert session sql).session = session.map fun _ => ⟨sql⟩ := by
  rw [convert_session, remember, h.2.1, if_pos ⟨h.1, rfl, h.2.2⟩]

theorem convert_session_of_not_isMainQuery (c : Converter κ) (session : Option Session)
    (h : ¬ IsMainQuery sql) : (c.convert session sql).session = session := by
  rw [convert_session, remember, if_neg]
  rintro ⟨hkind, hlookup, hreads⟩
  exact h ⟨hkind, by simpa using hlookup, hreads⟩

theorem remembers_iff : c.Remembers sql ↔ IsMainQuery sql := by
  constructor
  · intro h
    by_contra hmain
    have hstored := h ⟨sql ++ [0]⟩
    rw [convert_session_of_not_isMainQuery c _ hmain] at hstored
    simp at hstored
  · exact fun h session => convert_session_of_isMainQuery c (some session) h

/-! ## Counting what is remembered -/

/-- **Every remembered query is counted**, if no word follows a modifier that is dropped at once, and a
blank or the end follows each one directly behind SELECT. Without modifiers and end its text has a FROM outside parentheses, and from the first of
them on it is counted, up to its ordering, limit or lock; as a subquery if it is SELECT DISTINCT or
has a GROUP BY or HAVING clause. -/
theorem count_of_remembers (h : c.Remembers sql) (hspaced : ModifiersSpaced (shield sql).1) :
    let s := (trimStatementEnd (stripCalcFoundRows (shield sql).1)).1
    (foundRowsQuery sql).1 ≠ ascii "SELECT 0" ∧
    ∃ f, findTop? Clause.fromPattern s = some f ∧
      let source := trimRight
        (splitAtClause (Clause.orderByPattern :: Clause.afterOrder) (f.text ++ f.after)).1
      let query := f.before ++ source
      foundRowsQuery sql =
        (if selectDistinctPattern.occursIn query || (findTop? Clause.groupByPattern source).isSome ||
            (findTop? Clause.havingPattern source).isSome then
          ascii "SELECT COUNT(*) FROM (" ++ trimSpace query ++ ascii ") AS found_rows"
        else ascii "SELECT COUNT(*) " ++ source, (shield sql).2) := by
  intro s
  obtain ⟨-, -, hreads⟩ := remembers_iff.1 h
  obtain ⟨f, hf, hcount⟩ := foundRowsQuery_of_readsTable hreads hspaced
  have hne := countText_ne_nothing (f.before ++ countedSource (f.text ++ f.after))
    (countedSource (f.text ++ f.after))
  refine ⟨?_, f, hf, hcount⟩
  rw [hcount]
  exact hne

theorem count_of_remembers_page :
    ∃ (c : Converter) (sql : Bytes),
      sql = ascii "SELECT DISTINCT SQL_CALC_FOUND_ROWS(a) FROM t ORDER BY a LIMIT 5;" ∧
      c.Remembers sql ∧ ModifiersSpaced (shield sql).1 ∧ (foundRowsQuery sql).1 ≠ ascii "SELECT 0" := by
  let sql := ascii "SELECT DISTINCT SQL_CALC_FOUND_ROWS(a) FROM t ORDER BY a LIMIT 5;"
  have hmain : IsMainQuery sql := by decide +kernel
  have hremembers : ({} : Converter).Remembers sql := remembers_iff.2 hmain
  have hspaced : ModifiersSpaced (shield sql).1 := by decide +kernel
  exact ⟨{}, sql, rfl, hremembers, hspaced, (count_of_remembers hremembers hspaced).1⟩

/-- Where a star follows the modifier at once, SELECT loses the blank behind it and the query is not
counted. -/
theorem not_counted_star :
    ∃ (c : Converter) (sql : Bytes), sql = ascii "SELECT SQL_CALC_FOUND_ROWS*FROM t" ∧
      c.Remembers sql ∧ foundRowsQuery sql = (ascii "SELECT 0", []) := by
  let sql := ascii "SELECT SQL_CALC_FOUND_ROWS*FROM t"
  have hmain : IsMainQuery sql := by decide +kernel
  exact ⟨{}, sql, rfl, remembers_iff.2 hmain, by decide +kernel⟩

/-! ## Queries behind blanks and comments -/

theorem allBlank_leadText {ps : List LeadPiece} (hps : ∀ p ∈ ps, p.isComment = false) :
    AllBlank (leadText ps) := by
  intro b hb
  obtain ⟨p, hp, hb⟩ := List.mem_flatMap.1 hb
  cases p with
  | blank x h =>
    obtain rfl := List.mem_singleton.1 hb
    exact blank_of_isBlank h
  | comment c => cases hps _ hp

/-- A comment ends the blanks in front of it, also when literals have been taken out. -/
theorem shieldFrom_comment {ps : List LeadPiece} (hps : ∃ p ∈ ps, p.isComment = true) (s : Bytes) :
    ∃ bl b rest, AllBlank bl ∧ b ∈ [35, 45, 47] ∧
      shieldFrom 0 (leadText ps ++ s) = bl ++ b :: rest := by
  induction ps with
  | nil => simp at hps
  | cons p ps ih =>
    rw [leadText_cons_append]
    cases p with
    | comment c =>
      have hunquoted : ∀ b ∈ [35, 45, 47], ¬ (b = singleQuote ∨ b = doubleQuote) ∧ b ≠ backtick := by
        decide
      obtain ⟨b, u, htext, hb⟩ : ∃ b u, c.text = b :: u ∧ b ∈ [35, 45, 47] := by
        cases c with
        | block | dashes | hash => exact ⟨_, _, rfl, by decide⟩
      obtain ⟨hquote, htick⟩ := hunquoted b hb
      refine ⟨[], b, shieldFrom 0 (u ++ (leadText ps ++ s)), Pattern.allBlank_nil, hb, ?_⟩
      rw [LeadPiece.text, htext, List.cons_append, shieldFrom_plain hquote htick]
      rfl
    | blank x h =>
      have hcomment : ∃ p ∈ ps, p.isComment = true := by simpa [LeadPiece.isComment] using hps
      obtain ⟨bl, b, rest, hbl, hb, hshield⟩ := ih hcomment
      have hx := blank_of_isBlank h
      obtain ⟨hquote, htick⟩ := unquoted_of_blank hx
      refine ⟨x :: bl, b, rest, List.forall_mem_cons.2 ⟨hx, hbl⟩, hb, ?_⟩
      rw [LeadPiece.text, List.singleton_append, shieldFrom_plain hquote htick, hshield]
      rfl

/-- A query behind a comment is not found to read from a table. -/
theorem not_readsTable_comment {ps : List LeadPiece} (hps : ∃ p ∈ ps, p.isComment = true)
    (s : Bytes) : readsTable (shield (leadText ps ++ s)).1 = false := by
  obtain ⟨bl, b, rest, hbl, hb, hshield⟩ := shieldFrom_comment hps s
  rw [Bool.eq_false_iff]
  intro hreads
  obtain ⟨⟨bl', sel, x, rest', hbl', hsel, -, hselect⟩, -⟩ := readsTable_iff.1 hreads
  rw [shield_fst, hshield] at hselect
  have hopen : ∀ b ∈ [35, 45, 47], CharSet.blank.contains b.toNat = false ∧ b < 128 ∧
      isWord b = false := by
    decide
  obtain ⟨hblank, hascii, hword⟩ := hopen b hb
  have hhead : Pattern.UnblankHead (b :: rest) :=
    Pattern.unblankHead_of_unblank (t := [b]) (List.forall_mem_singleton.2 hblank)
      (List.cons_ne_nil _ _) rest
  have hsame := congrArg (List.takeWhile fun b => CharSet.blank.contains b.toNat) hselect
  rw [Pattern.takeWhile_blank hbl hhead, Pattern.takeWhile_blank hbl' (hsel.unblankHead _)] at hsame
  subst hsame
  obtain ⟨y, sel', hy⟩ := List.exists_cons_of_ne_nil hsel.ne_nil
  rw [List.append_cancel_left_eq, hy, List.cons_append, List.cons.injEq] at hselect
  have hmem : b ∈ sel := by rw [hy, hselect.1]; exact List.mem_cons_self
  exact Bool.noConfusion (hword.symm.trans (hsel.spells.isWord_of_mem (by decide) hmem hascii))

theorem isMainQuery_leadText {ps : List LeadPiece} (hps : ∀ p ∈ ps, p.isComment = false)
    (h : IsMainQuery sql) : IsMainQuery (leadText ps ++ sql) := by
  obtain ⟨hkind, hlookup, hreads⟩ := h
  have hblank := allBlank_leadText hps
  obtain ⟨hreads', hlookup', -⟩ := foundRowsQuery_blank_append hblank hreads
  refine ⟨?_, hlookup'.trans hlookup, hreads'⟩
  rw [Kind.ofStatement, shield_blank_append hblank, Kind.ofShielded_leadText_append]
  exact hkind

/-- A question for the row count is answered by the last query and the options alone. -/
theorem output_lookup_congr {c₁ c₂ : Converter κ} (hopts : c₁.options = c₂.options)
    {s₁ s₂ : Option Session} (hcount : foundRowsQuery (lastQuery s₁) = foundRowsQuery (lastQuery s₂))
    {lookup : Bytes} (hlookup : IsLookup lookup) :
    (c₁.convert s₁ lookup).output = (c₂.convert s₂ lookup).output := by
  rw [(c₁.convert_of_isLookup s₁ hlookup).1, (c₂.convert_of_isLookup s₂ hlookup).1, hcount]
  exact settle_fst hopts (by decide) lookup _ _

/-- **A comment hides a query from the session.** Behind blanks a query is remembered as well, and a
question for the row count that follows is answered as it is behind the query alone. Behind a
comment the query is not remembered, and the question is answered as if the query had not come. -/
theorem lookup_behind_leadText (h : c.Remembers sql) (ps : List LeadPiece) (session : Session)
    {lookup : Bytes} (hlookup : IsLookup lookup) :
    let behind := c.convert (some session) (leadText ps ++ sql)
    let alone := c.convert (some session) sql
    ((∀ p ∈ ps, p.isComment = false) → c.Remembers (leadText ps ++ sql) ∧
      (behind.converter.convert behind.session lookup).output
        = (alone.converter.convert alone.session lookup).output) ∧
    ((∃ p ∈ ps, p.isComment = true) → behind.session = some session ∧
      (behind.converter.convert behind.session lookup).output
        = (c.convert (some session) lookup).output) := by
  intro behind alone
  have hmain := remembers_iff.1 h
  have hopts : behind.converter.options = c.options := c.convert_options _ _
  have hopts' : alone.converter.options = c.options := c.convert_options _ _
  constructor
  · intro hps
    have hremembers : c.Remembers (leadText ps ++ sql) :=
      remembers_iff.2 (isMainQuery_leadText hps hmain)
    refine ⟨hremembers, output_lookup_congr (hopts.trans hopts'.symm) ?_ hlookup⟩
    rw [hremembers session, h session]
    exact (foundRowsQuery_blank_append (allBlank_leadText hps) hmain.2.2).2.2
  · intro hps
    have hsession : behind.session = some session := by
      refine c.convert_session_of_not_isMainQuery _ fun hmain' => ?_
      exact Bool.noConfusion ((not_readsTable_comment hps sql).symm.trans hmain'.2.2)
    refine ⟨hsession, output_lookup_congr hopts ?_ hlookup⟩
    rw [hsession]

theorem lookup_behind_leadText_page :
    ∃ (c : Converter) (sql lookup : Bytes) (page : LeadPiece) (session : Session),
      page.text = ascii "/* page */" ∧ lookup = ascii "SELECT FOUND_ROWS()" ∧
      c.Remembers sql ∧ c.Remembers (leadText [.blank 10 (by decide)] ++ sql) ∧
      (c.convert (some session) (leadText [page] ++ sql)).session = some session := by
  let sql := ascii "SELECT a FROM t"
  let lookup := ascii "SELECT FOUND_ROWS()"
  let page : LeadPiece := .comment (.block (ascii " page ") (by decide +kernel))
  have hmain : IsMainQuery sql := by decide +kernel
  have hremembers : ({} : Converter).Remembers sql := remembers_iff.2 hmain
  have hlookup : IsLookup lookup := by decide +kernel
  exact ⟨{}, sql, lookup, page, ⟨[]⟩, by decide +kernel, rfl, hremembers,
    ((lookup_behind_leadText hremembers [.blank 10 (by decide)] ⟨[]⟩ hlookup).1 (by decide)).1,
    ((lookup_behind_leadText hremembers [page] ⟨[]⟩ hlookup).2 (by decide)).1⟩

/-- A question behind a query with a comment in front counts the query before that. -/
theorem counts_stale_query :
    ∃ (c : Converter) (page : LeadPiece) (sql lookup : Bytes) (session : Session),
      let behind := c.convert (some session) (leadText [page] ++ sql)
      let alone := c.convert (some session) sql
      page.text = ascii "/* page */" ∧ sql = ascii " SELECT a FROM t" ∧
      lookup = ascii "SELECT FOUND_ROWS()" ∧ session = ⟨ascii "SELECT a FROM old"⟩ ∧
      c.Remembers sql ∧ behind.session = some session ∧
      (behind.converter.convert behind.session lookup).output = ascii "SELECT COUNT(*) FROM old" ∧
      (alone.converter.convert alone.session lookup).output = ascii "SELECT COUNT(*) FROM t" := by
  let sql := ascii " SELECT a FROM t"
  let page : LeadPiece := .comment (.block (ascii " page ") (by decide +kernel))
  have hmain : IsMainQuery sql := by decide +kernel
  exact ⟨{}, page, sql, ascii "SELECT FOUND_ROWS()", ⟨ascii "SELECT a FROM old"⟩, by decide +kernel,
    rfl, rfl, rfl, remembers_iff.2 hmain, by decide +kernel, by decide +kernel, by decide +kernel⟩

end Converter

end SqlDialect
