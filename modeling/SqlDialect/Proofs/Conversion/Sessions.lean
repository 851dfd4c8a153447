import SqlDialect.Proofs.Conversion.Memo

set_option autoImplicit false

/-! # Sessions do not interfere

Many sessions use one converter, and with it one catalog and one store of conversions. Whatever the
order of their steps, each session gets for its statements what it would get alone on a new
converter, INSERT excepted: only inserts may show the catalog.

The proof runs the whole pool and the session's own pool side by side. They stay in agreement about
that session (`Agree`): a step of the session keeps them so and is answered alike, and a step of
another session or of the catalog does not touch what they agree about. -/

namespace SqlDialect

/-- Whether the step is one of the given session. -/
def PoolStep.isOf (name : Bytes) : PoolStep → Bool
  | .convert session _ => session == name
  | .reset session => session == name
  | .catalog _ => false

/-- The answer without the output of an INSERT. -/
def PoolAnswer.hideInsert : PoolAnswer → PoolAnswer
  | .converted .insert _ => .converted .insert []
  | a => a

theorem PoolAnswer.hideInsert_insert (output : Bytes) :
    (PoolAnswer.converted .insert output).hideInsert = .converted .insert [] := rfl

namespace SessionPool

variable {κ : Type}

/-! ## Sessions by name -/

theorem session?_setSession_ne (p : SessionPool κ) {name other : Bytes} (h : name ≠ other)
    (s : Option Session) : (p.setSession other s).session? name = p.session? name := by
  cases s with
  | none => rfl
  | some s =>
    have hne : (name == other) = false := beq_eq_false_iff_ne.2 h
    simp only [setSession, session?, List.lookup_cons, hne, lookup_filter_ne p.sessions h]

theorem session?_setSession_self (p : SessionPool κ) (name : Bytes) (s : Session) :
    (p.setSession name (some s)).session? name = if name.isEmpty then none else some s := by
  simp [setSession, session?]

/-- What is kept under a name is the same in pools that had the same under it. -/
theorem session?_setSession_congr {p q : SessionPool κ} {name : Bytes}
    (h : p.session? name = q.session? name) (s : Option Session) :
    (p.setSession name s).session? name = (q.setSession name s).session? name := by
  cases s with
  | none => exact h
  | some s => rw [session?_setSession_self, session?_setSession_self]

/-- Keeping a session as it is changes no session. -/
theorem session?_setSession_session? (p : SessionPool κ) (name other : Bytes) :
    (p.setSession name (p.session? name)).session? other = p.session? other := by
  by_cases h : other = name
  · subst h
    cases hs : p.session? other with
    | none => exact hs
    | some s =>
      rw [session?_setSession_self]
      split
      · rename_i hempty
        rw [session?, if_pos hempty] at hs
        exact hs
      · rfl
  · exact session?_setSession_ne p h _

/-! ## Running side by side -/

variable [Cache κ]

/-- The answers to the steps of one session, in order and without the outputs of its inserts. -/
def answersTo (p : SessionPool κ) (name : Bytes) (steps : List PoolStep) : List PoolAnswer :=
  ((steps.zip (p.answers steps)).filter (·.1.isOf name)).map (·.2.hideInsert)

theorem answersTo_cons (p : SessionPool κ) (name : Bytes) (s : PoolStep) (steps : List PoolStep) :
    p.answersTo name (s :: steps)
      = if s.isOf name then (p.answer s).hideInsert :: (p.step s).answersTo name steps
        else (p.step s).answersTo name steps := by
  rw [answersTo, answers, List.zip_cons_cons, List.filter_cons]
  split
  · rw [List.map_cons]
    rfl
  · rfl

/-- The pools agree about a session: they have the same last query for it, convert with the same
options, and their stores are sound. -/
structure Agree (name : Bytes) (p q : SessionPool κ) : Prop where
  session : p.session? name = q.session? name
  options : p.converter.options = q.converter.options
  left : p.converter.MemoSound
  right : q.converter.MemoSound

theorem options_run (p : SessionPool κ) (steps : List PoolStep) :
    (p.run steps).converter.options = p.converter.options :=
  converter_run (P := fun c => c.options = p.converter.options)
    (fun c hc session sql => by rw [c.convert_options session sql, hc]) (fun _ hc _ => hc) rfl steps

theorem options_step (p : SessionPool κ) (s : PoolStep) :
    (p.step s).converter.options = p.converter.options :=
  options_run p [s]

theorem answer_convert (p : SessionPool κ) (name sql : Bytes) :
    p.answer (.convert name sql)
      = .converted (Kind.ofStatement sql) (p.converter.convert (p.session? name) sql).output := by
  rw [← Converter.convert_kind p.converter (p.session? name)]
  rfl

theorem step_convert (p : SessionPool κ) (name sql : Bytes) :
    p.step (.convert name sql)
      = SessionPool.setSession
          ⟨(p.converter.convert (p.session? name) sql).converter, p.sessions⟩ name
          (Converter.remember (p.session? name) sql (Kind.ofStatement sql) (shield sql).1) := by
  rw [← Converter.convert_session p.converter]
  rfl

/-- The session of a name after one of its own steps depends on that session alone. -/
theorem session?_step_congr {name : Bytes} {p q : SessionPool κ}
    (h : p.session? name = q.session? name) {s : PoolStep} (hs : s.isOf name = true) :
    (p.step s).session? name = (q.step s).session? name := by
  cases s with
  | convert session sql =>
    obtain rfl : session = name := beq_iff_eq.1 hs
    rw [step_convert, step_convert, h]
    -- only the converters differ from `p` and `q`, and `session?` does not look at them
    have hsession : session? ⟨(p.converter.convert (q.session? session) sql).converter, p.sessions⟩
        session = session? ⟨(q.converter.convert (q.session? session) sql).converter, q.sessions⟩
        session := h
    exact session?_setSession_congr hsession _
  | reset session =>
    obtain rfl : session = name := beq_iff_eq.1 hs
    show (p.setSession session _).session? session = (q.setSession session _).session? session
    rw [h]
    exact session?_setSession_congr h _
  | catalog s => cases hs

/-- Steps that are not of a session leave it alone. -/
theorem session?_step_of_other (p : SessionPool κ) {name : Bytes} {s : PoolStep}
    (hs : s.isOf name = false) : (p.step s).session? name = p.session? name := by
  cases s with
  | convert session sql =>
    have hne : name ≠ session := fun h => beq_eq_false_iff_ne.1 hs h.symm
    rw [step_convert, session?_setSession_ne _ hne]
    rfl
  | reset session =>
    have hne : name ≠ session := fun h => beq_eq_false_iff_ne.1 hs h.symm
    exact session?_setSession_ne p hne _
  | catalog s => rfl

/-- One step of the session: both pools answer alike and stay in agreement. -/
theorem Agree.step_own [LawfulCache κ] {name : Bytes} {p q : SessionPool κ} (h : Agree name p q) {s : PoolStep}
    (hs : s.isOf name = true) :
    (p.answer s).hideInsert = (q.answer s).hideInsert ∧ Agree name (p.step s) (q.step s) := by
  constructor
  · cases s with
    | convert session sql =>
      obtain rfl : session = name := beq_iff_eq.1 hs
      rw [answer_convert, answer_convert, h.session]
      by_cases hk : Kind.ofStatement sql = .insert
      · rw [hk, PoolAnswer.hideInsert_insert, PoolAnswer.hideInsert_insert]
      · rw [h.left.output_eq h.right h.options (q.session? session) hk]
    | reset session => rfl
    | catalog s => cases hs
  · exact
      { session := session?_step_congr h.session hs
        options := by rw [options_step, options_step, h.options]
        left := memoSound_step h.left s
        right := memoSound_step h.right s }

/-- One step of anybody else: the session's own pool need not move. -/
theorem Agree.step_other [LawfulCache κ] {name : Bytes} {p q : SessionPool κ} (h : Agree name p q) {s : PoolStep}
    (hs : s.isOf name = false) : Agree name (p.step s) q :=
  { session := by rw [session?_step_of_other p hs, h.session]
    options := by rw [options_step, h.options]
    left := memoSound_step h.left s
    right := h.right }

/-- A run: the session is answered as by its own steps alone, and the pools agree at the end. -/
theorem Agree.run [LawfulCache κ] {name : Bytes} {p q : SessionPool κ} (h : Agree name p q)
    (steps : List PoolStep) :
    p.answersTo name steps = q.answersTo name (steps.filter (·.isOf name)) ∧
      Agree name (p.run steps) (q.run (steps.filter (·.isOf name))) := by
  -- the own pool stands still on the steps of others, so it moves with the list of own steps
  induction steps generalizing p q with
  | nil => exact ⟨rfl, h⟩
  | cons s steps ih =>
    rw [List.filter_cons, answersTo_cons]
    cases hs : s.isOf name with
    | true =>
      obtain ⟨hanswer, hstep⟩ := h.step_own hs
      obtain ⟨hanswers, hrun⟩ := ih hstep
      rw [if_pos rfl, if_pos rfl, answersTo_cons, if_pos hs, hanswer, hanswers]
      exact ⟨rfl, hrun⟩
    | false =>
      obtain ⟨hanswers, hrun⟩ := ih (h.step_other hs)
      rw [if_neg Bool.false_ne_true, if_neg Bool.false_ne_true]
      exact ⟨hanswers, hrun⟩

/-! ## Questions for the row count -/

/-- A question for the row count changes no last query. -/
theorem lastQuery_step_of_isLookup (p : SessionPool κ) (name : Bytes) {sql : Bytes}
    (h : Converter.IsLookup sql) (other : Bytes) :
    (p.step (.convert name sql)).lastQuery other = p.lastQuery other := by
  rw [step_convert, Converter.remember_of_isLookup _ h, lastQuery, lastQuery]
  have hkeep := session?_setSession_session?
    ⟨(p.converter.convert (p.session? name) sql).converter, p.sessions⟩ name other
  exact congrArg (fun s => (s.map Session.lastQuery).getD []) hkeep

/-- **Sessions do not interfere.** Whatever converter the sessions share, with a store of any size
that finds what was last added and keeps to its size, and however their steps, those without a
session and those on the catalog are interleaved: the last query of a session at the end and the
answers to its steps, but for the outputs of inserts, are those of its own steps alone on a new
converter without a store. A question for the row count changes no last query, and of all that
happened before its answer depends on the last query of its session alone. -/
theorem answersTo_interleaved [LawfulCache κ] (c : Converter κ) (size : Int) (sessions : List (Bytes × Session))
    (steps : List PoolStep) (name : Bytes) :
    let p : SessionPool κ := ⟨c.withMemo size, sessions⟩
    let q : SessionPool κ := ⟨{ options := c.options }, sessions⟩
    let own := steps.filter (·.isOf name)
    (p.run steps).lastQuery name = (q.run own).lastQuery name ∧
      p.answersTo name steps = q.answersTo name own ∧
      ∀ sql, Converter.IsLookup sql →
        (∀ other, ((p.run steps).step (.convert name sql)).lastQuery other
          = (p.run steps).lastQuery other) ∧
        let count := foundRowsQuery ((p.run steps).lastQuery name)
        (p.run steps).answer (.convert name sql)
          = .converted .select (q.converter.settle sql .select count.1 count.2).1 := by
  intro p q own
  have hagree : Agree name p q :=
    { session := rfl
      options := rfl
      left := c.memoSound_withMemo size
      right := Converter.memoSound_of_memo_eq_none rfl }
  obtain ⟨hanswers, hrun⟩ := hagree.run steps
  refine ⟨?_, hanswers, ?_⟩
  · rw [lastQuery, lastQuery, hrun.session]
  · intro sql hl
    refine ⟨lastQuery_step_of_isLookup _ name hl, ?_⟩
    intro count
    rw [answer_convert, hl.1, (Converter.convert_of_isLookup _ _ hl).1]
    have hopts : (p.run steps).converter.options = q.converter.options := options_run p steps
    exact congrArg _ (Converter.settle_fst hopts (by decide) sql count.1 count.2)

/-- Two sessions that share a store for one conversion, with a step without a session and a change
to the catalog in between: the query of the first is answered from the store, then dropped from it,
and its row count is that of its own last query. -/
theorem answersTo_interleaved_two :
    Converter.IsLookup (ascii "SELECT FOUND_ROWS()") ∧
      let p : SessionPool := ⟨({} : Converter).withMemo 1, []⟩
      let q : SessionPool := ⟨{}, []⟩
      let query := ascii "SELECT a FROM t LIMIT 1, 2"
      let before : List PoolStep := [.convert [] query, .catalog (.setTable (ascii "t") []),
        .convert (ascii "a") query]
      let steps := before ++ [.convert (ascii "b") (ascii "SELECT a FROM u")]
      (p.run before).converter.stored? query = some (ascii "SELECT a FROM t LIMIT 2 OFFSET 1") ∧
        (p.run steps).converter.stored? query = none ∧
        p.answersTo (ascii "a") steps = q.answersTo (ascii "a") [.convert (ascii "a") query] ∧
        (p.run steps).lastQuery (ascii "a") = query ∧
        ∀ other, ((p.run steps).step
          (.convert (ascii "a") (ascii "SELECT FOUND_ROWS()"))).lastQuery other
            = (p.run steps).lastQuery other := by
  have hl : Converter.IsLookup (ascii "SELECT FOUND_ROWS()") := by decide +kernel
  refine ⟨hl, ?_⟩
  intro p q query before steps
  have h := answersTo_interleaved ({} : Converter) 1 [] steps (ascii "a")
  have hown : steps.filter (·.isOf (ascii "a")) = [.convert (ascii "a") query] := rfl
  rw [hown] at h
  refine ⟨?_, ?_, h.2.1, ?_, (h.2.2 _ hl).1⟩
  · simp only [p, query, before]
    repeat rw [ascii_ofList]
    decide +kernel
  · simp only [p, query, before, steps]
    repeat rw [ascii_ofList]
    decide +kernel
  · rw [h.1]
    decide +kernel

end SessionPool

end SqlDialect
