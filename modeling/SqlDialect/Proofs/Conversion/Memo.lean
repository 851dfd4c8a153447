import Mathlib.Data.List.Induction
import SqlDialect.Conversion.SessionPool
import SqlDialect.Proofs.Catalog.Entry
import SqlDialect.Proofs.Conversion.Catalog

set_option autoImplicit false

/-! # The store of conversions is invisible

A converter with a store of earlier conversions answers as one without, whatever the store decides
to keep. What carries the argument is the invariant that the store has only been given what the
rules would make of the statement now (`Converter.MemoSound`), so that by the laws of stores nothing
else can be found in it. The invariant holds because a statement is stored only if it is of a kind
whose conversion neither shows nor changes the catalog, so nothing that happens later makes a stored
conversion wrong; being dropped from a full store only costs time. -/

namespace SqlDialect

/-! ## Calls to a store -/

namespace CacheCall

@[simp] theorem lastAdded?_nil (key : Bytes) : lastAdded? key [] = none := rfl

theorem lastAdded?_concat_get (key : Bytes) (l : List CacheCall) (key' : Bytes) :
    lastAdded? key (l ++ [.get key']) = lastAdded? key l := by
  simp [lastAdded?]

theorem lastAdded?_concat_add (key : Bytes) (l : List CacheCall) (key' value : Bytes) :
    lastAdded? key (l ++ [.add key' value])
      = if key' = key then some value else lastAdded? key l := by
  by_cases h : key' = key
  · simp [lastAdded?, h]
  · simp [lastAdded?, h]

/-- What was last added was added. -/
theorem mem_of_lastAdded? {key value : Bytes} {l : List CacheCall}
    (h : lastAdded? key l = some value) : .add key value ∈ l := by
  obtain ⟨call, hmem, hcall⟩ := List.exists_of_findSome?_eq_some h
  cases call with
  | get key' => cases hcall
  | add key' value' =>
    obtain ⟨rfl, rfl⟩ : key' = key ∧ value' = value := by simpa using hcall
    exact List.mem_reverse.1 hmem

end CacheCall

namespace Cache

variable {κ : Type} [Cache κ]

theorem calls_append (m : κ) (l l' : List CacheCall) : calls m (l ++ l') = calls (calls m l) l' :=
  List.foldl_append

theorem calls_concat (m : κ) (l : List CacheCall) (c : CacheCall) :
    calls m (l ++ [c]) = call (calls m l) c :=
  calls_append m l [c]

end Cache

/-! ## The store that drops what was not used for longest -/

theorem lookup_take {α : Type} {l : List (Bytes × α)} {n : Nat} {k : Bytes} {v : α}
    (h : (l.take n).lookup k = some v) : l.lookup k = some v := by
  rw [← List.take_append_drop n l, List.lookup_append, h]
  rfl

namespace Memo

/-- A look-up gives nothing or what was put in last. -/
theorem get?_insert {m : Memo} {sql out sql' out' : Bytes}
    (h : (m.insert sql out).get? sql' = some out') :
    sql' = sql ∧ out' = out ∨ sql' ≠ sql ∧ m.get? sql' = some out' := by
  have hcons := lookup_take h
  rw [List.lookup_cons] at hcons
  by_cases hsql : sql' = sql
  · left
    rw [beq_iff_eq.2 hsql] at hcons
    exact ⟨hsql, (Option.some.inj hcons).symm⟩
  · right
    rw [beq_eq_false_iff_ne.2 hsql] at hcons
    exact ⟨hsql, by rwa [get?, ← lookup_filter_ne m.entries hsql]⟩

theorem get_fst (m : Memo) (sql : Bytes) : (Cache.get m sql).1 = m.get? sql := by
  simp only [Cache.get]
  split
  · rename_i h
    exact h.symm
  · rename_i h
    exact h.symm

/-- Being asked changes no answer, except that a full store may drop something. -/
theorem get?_get {m : Memo} {sql sql' out' : Bytes}
    (h : (Cache.get m sql).2.get? sql' = some out') : m.get? sql' = some out' := by
  simp only [Cache.get] at h
  split at h
  · rename_i out hout
    rcases get?_insert h with ⟨rfl, rfl⟩ | ⟨-, hget⟩
    · exact hout
    · exact hget
  · exact h

theorem capacity_call (m : Memo) (c : CacheCall) : (Cache.call m c).capacity = m.capacity := by
  cases c with
  | get key =>
    simp only [Cache.call, Cache.get]
    split
    · rfl
    · rfl
  | add key value => rfl

theorem length_call {m : Memo} (h : m.entries.length ≤ m.capacity) (c : CacheCall) :
    (Cache.call m c).entries.length ≤ m.capacity := by
  have hinsert : ∀ sql out, (m.insert sql out).entries.length ≤ m.capacity := by
    intro sql out
    rw [insert, List.length_take]
    exact Nat.min_le_left _ _
  cases c with
  | get key =>
    simp only [Cache.call, Cache.get]
    split
    · exact hinsert _ _
    · exact h
  | add key value => exact hinsert _ _

/-- After calls to a new store: what is found was added last, and there is room for all of it. -/
theorem calls_new (size : Nat) (l : List CacheCall) :
    (∀ key value, (Cache.calls (Cache.new size : Memo) l).get? key = some value →
      CacheCall.lastAdded? key l = some value) ∧
    (Cache.calls (Cache.new size : Memo) l).capacity = size ∧
    (Cache.calls (Cache.new size : Memo) l).entries.length ≤ size := by
  -- the last call is the one that changed the store, so the induction is on the list's end
  induction l using List.reverseRecOn with
  | nil =>
    refine ⟨fun key value h => ?_, rfl, Nat.zero_le _⟩
    cases h
  | append_singleton l c ih =>
    obtain ⟨hget, hcapacity, hlength⟩ := ih
    rw [Cache.calls_concat]
    refine ⟨fun key value h => ?_, by rw [capacity_call, hcapacity], ?_⟩
    · cases c with
      | get key' =>
        rw [CacheCall.lastAdded?_concat_get]
        exact hget key value (get?_get h)
      | add key' value' =>
        rw [CacheCall.lastAdded?_concat_add]
        rcases get?_insert h with ⟨rfl, rfl⟩ | ⟨hne, h⟩
        · exact if_pos rfl
        · rw [if_neg (Ne.symm hne)]
          exact hget key value h
    · have h := length_call (m := Cache.calls (Cache.new size : Memo) l) (by rwa [hcapacity]) c
      rwa [hcapacity] at h

instance : LawfulCache Memo where
  get_calls _ l key value h := by
    rw [get_fst] at h
    exact (calls_new _ l).1 key value h
  size_calls _ l := (calls_new _ l).2.2

end Memo

namespace Converter

variable {κ : Type}

/-! ## What one conversion does -/

/-- The statement asks for the row count of the last query. -/
def IsLookup (sql : Bytes) : Prop :=
  Kind.ofStatement sql = .select ∧ isFoundRowsLookup (shield sql).1 = true

instance (sql : Bytes) : Decidable (IsLookup sql) :=
  inferInstanceAs (Decidable (_ ∧ _))

/-- A question for the row count is not remembered. -/
theorem remember_of_isLookup (session : Option Session) {sql : Bytes} (h : IsLookup sql) :
    remember session sql (Kind.ofStatement sql) (shield sql).1 = session := by
  rw [remember, h.2]
  simp

/-- The last query of a session; empty without a session. -/
def lastQuery (session : Option Session) : Bytes :=
  (session.map Session.lastQuery).getD []

/-- The converter after calls to its store. -/
def afterCalls [Cache κ] (c : Converter κ) (l : List CacheCall) : Converter κ :=
  { c with memo := c.memo.map (Cache.calls · l) }

/-- What a statement becomes by the rules alone, whatever the catalog and the store hold. -/
def plainOutput (opts : TypeOptions) (sql : Bytes) : Bytes :=
  (settle ({ options := opts } : Converter) sql (Kind.ofStatement sql) (shield sql).1 (shield sql).2).1

theorem settle_eq_plainOutput (c : Converter κ) {sql : Bytes}
    (h : Kind.ofStatement sql ≠ .insert) :
    (c.settle sql (Kind.ofStatement sql) (shield sql).1 (shield sql).2).1
      = plainOutput c.options sql := by
  unfold plainOutput
  refine settle_fst ?_ h sql _ _
  rfl

section Cached

variable [Cache κ]

@[simp] theorem afterCalls_nil (c : Converter κ) : c.afterCalls [] = c := by
  rcases c with ⟨options, catalog, _ | memo⟩
  · rfl
  · rfl

@[simp] theorem afterCalls_append (c : Converter κ) (l l' : List CacheCall) :
    c.afterCalls (l ++ l') = (c.afterCalls l).afterCalls l' := by
  rcases c with ⟨options, catalog, _ | memo⟩
  · rfl
  · simp only [afterCalls, Option.map_some, Cache.calls_append]

/-- The stored conversion of a statement, if its kind is stored at all. -/
def stored? (c : Converter κ) (sql : Bytes) : Option Bytes :=
  (c.lookUp (Kind.ofStatement sql) sql).1

/-- The calls that looking a statement up makes. -/
def lookUpCalls (sql : Bytes) : List CacheCall :=
  if (Kind.ofStatement sql).isMemoizable then [.get sql] else []

theorem lookUp_eq (c : Converter κ) (sql : Bytes) :
    c.lookUp (Kind.ofStatement sql) sql = (c.stored? sql, c.afterCalls (lookUpCalls sql)) := by
  rcases c with ⟨options, catalog, _ | memo⟩
  · rfl
  · rw [stored?, lookUpCalls]
    simp only [lookUp]
    split
    · rfl
    · rw [afterCalls_nil]

theorem isMemoizable_of_stored {c : Converter κ} {sql out : Bytes} (h : c.stored? sql = some out) :
    (Kind.ofStatement sql).isMemoizable = true := by
  rw [stored?, lookUp] at h
  split at h
  · split at h
    · assumption
    · cases h
  · cases h

/-- Nothing is stored of the other kinds. -/
theorem stored?_eq_none (c : Converter κ) {sql : Bytes}
    (h : (Kind.ofStatement sql).isMemoizable ≠ true) : c.stored? sql = none := by
  rw [Option.eq_none_iff_forall_ne_some]
  exact fun out hout => h (isMemoizable_of_stored hout)

theorem store_eq (c : Converter κ) {kind : Kind} (h : kind.isMemoizable = true)
    (sql output : Bytes) : c.store kind sql output = c.afterCalls [.add sql output] :=
  if_pos h

theorem convert_kind (c : Converter κ) (session : Option Session) (sql : Bytes) :
    (c.convert session sql).kind = Kind.ofStatement sql := by
  simp only [convert]
  repeat' split
  all_goals rfl

theorem convert_session (c : Converter κ) (session : Option Session) (sql : Bytes) :
    (c.convert session sql).session
      = remember session sql (Kind.ofStatement sql) (shield sql).1 := by
  simp only [convert]
  repeat' split
  all_goals rfl

/-- A question for the row count converts the query that counts the last one, and leaves the store
alone. -/
theorem convert_of_isLookup (c : Converter κ) (session : Option Session) {sql : Bytes}
    (h : IsLookup sql) :
    let q := foundRowsQuery (lastQuery session)
    (c.convert session sql).output = (c.settle sql .select q.1 q.2).1 ∧
      (c.convert session sql).converter
        = { c with catalog := (c.settle sql .select q.1 q.2).2 } := by
  obtain ⟨hkind, hlookup⟩ := h
  rw [Kind.ofStatement] at hkind
  simp only [convert, settle, lastQuery, hkind, hlookup, and_self, if_true]
  generalize c.convertFresh sql .select _ _ = e
  rcases e with log | ⟨output, catalog, log⟩
  · exact ⟨rfl, rfl⟩
  · exact ⟨rfl, rfl⟩

/-- A stored conversion is handed out. -/
theorem convert_of_stored (c : Converter κ) (session : Option Session) {sql out : Bytes}
    (h : ¬ IsLookup sql) (hout : c.stored? sql = some out) :
    (c.convert session sql).output = out ∧
      (c.convert session sql).converter = c.afterCalls (lookUpCalls sql) := by
  have hlook := c.lookUp_eq sql
  rw [hout, Kind.ofStatement] at hlook
  rw [IsLookup, Kind.ofStatement] at h
  simp only [convert, h, hlook, if_false, and_self]

/-- The calls that keeping a conversion makes. -/
def storeCalls (sql out : Bytes) : List CacheCall :=
  if (Kind.ofStatement sql).isMemoizable then [.add sql out] else []

/-- Any other statement is converted by the rules. Where no rule fails, the conversion is stored if
it is of a kind that is stored. -/
theorem convert_of_unstored (c : Converter κ) (session : Option Session) {sql : Bytes}
    (h : ¬ IsLookup sql) (hout : c.stored? sql = none) :
    let r := c.settle sql (Kind.ofStatement sql) (shield sql).1 (shield sql).2
    (c.convert session sql).output = r.1 ∧
      ∃ l, (l = [] ∨ l = storeCalls sql r.1) ∧
        (c.convert session sql).converter
          = { c with catalog := r.2 }.afterCalls (lookUpCalls sql ++ l) := by
  have hlook := c.lookUp_eq sql
  -- the rules do not see the store, so it does not matter that it was asked before
  have hfresh : (c.afterCalls (lookUpCalls sql)).convertFresh sql = c.convertFresh sql := rfl
  rw [hout, Kind.ofStatement] at hlook
  rw [IsLookup, Kind.ofStatement] at h
  simp only [convert, settle, Kind.ofStatement, h, hlook, hfresh, if_false]
  generalize c.convertFresh sql _ _ _ = e
  rcases e with log | ⟨output, catalog, log⟩
  · exact ⟨rfl, [], Or.inl rfl, by rw [List.append_nil]⟩
  · refine ⟨rfl, storeCalls sql output, Or.inr rfl, ?_⟩
    rw [afterCalls_append, storeCalls, Kind.ofStatement]
    by_cases hm : (Kind.ofShielded (shield sql).1).isMemoizable = true
    · rw [if_pos hm]
      exact store_eq _ hm sql output
    · rw [if_neg hm, afterCalls_nil]
      exact if_neg hm

/-- A conversion keeps the options. -/
theorem convert_options (c : Converter κ) (session : Option Session) (sql : Bytes) :
    (c.convert session sql).converter.options = c.options := by
  by_cases hl : IsLookup sql
  · rw [(c.convert_of_isLookup session hl).2]
  · cases hs : c.stored? sql with
    | some out =>
      rw [(c.convert_of_stored session hl hs).2]
      rfl
    | none =>
      obtain ⟨-, l, -, h⟩ := c.convert_of_unstored session hl hs
      rw [h]
      rfl

/-- All that a conversion adds to the store is its output under its statement, and only for kinds
that are stored. -/
theorem convert_memo (c : Converter κ) (session : Option Session) (sql : Bytes) :
    ∃ l : List CacheCall,
      (c.convert session sql).converter.memo = c.memo.map (Cache.calls · l) ∧
      ∀ key value, .add key value ∈ l →
        ¬ IsLookup sql ∧ (Kind.ofStatement sql).isMemoizable = true ∧ key = sql ∧
          value = (c.convert session sql).output := by
  have hget : ∀ key value, .add key value ∉ lookUpCalls sql := by
    intro key value
    rw [lookUpCalls]
    split
    · simp
    · simp
  by_cases hl : IsLookup sql
  · refine ⟨[], ?_, fun _ _ h => absurd h List.not_mem_nil⟩
    rw [(c.convert_of_isLookup session hl).2]
    exact congrArg memo c.afterCalls_nil.symm
  · cases hs : c.stored? sql with
    | some out =>
      refine ⟨lookUpCalls sql, ?_, fun key value h => absurd h (hget key value)⟩
      rw [(c.convert_of_stored session hl hs).2]
      rfl
    | none =>
      obtain ⟨houtput, l, hcalls, h⟩ := c.convert_of_unstored session hl hs
      refine ⟨lookUpCalls sql ++ l, by rw [h]; rfl, fun key value hmem => ?_⟩
      have hmem := (List.mem_append.1 hmem).resolve_left (hget key value)
      rcases hcalls with rfl | rfl
      · cases hmem
      · rw [storeCalls] at hmem
        split at hmem
        · rename_i hk
          rw [houtput]
          obtain ⟨rfl, rfl⟩ := CacheCall.add.inj (List.mem_singleton.1 hmem)
          exact ⟨hl, hk, rfl, rfl⟩
        · cases hmem

/-! ## The store is sound -/

/-- The store was new once, and all that it was ever given is what the rules would make of the
statement now. -/
def MemoSound (c : Converter κ) : Prop :=
  ∀ m, c.memo = some m → ∃ size l, 0 < size ∧ m = Cache.calls (Cache.new size) l ∧
    ∀ sql out, .add sql out ∈ l → out = plainOutput c.options sql

theorem memoSound_of_memo_eq_none {c : Converter κ} (h : c.memo = none) : c.MemoSound := by
  intro m hm
  rw [h] at hm
  cases hm

/-- A store begins new, with room for a statement. -/
theorem eq_of_memo_withMemo (c : Converter κ) {size : Int} {m : κ}
    (h : (c.withMemo size).memo = some m) : 0 < size.toNat ∧ m = Cache.new size.toNat := by
  rw [withMemo] at h
  split at h
  · cases h
  · exact ⟨by omega, (Option.some.inj h).symm⟩

theorem memoSound_withMemo (c : Converter κ) (size : Int) : (c.withMemo size).MemoSound := by
  intro m hm
  obtain ⟨hpos, rfl⟩ := c.eq_of_memo_withMemo hm
  exact ⟨size.toNat, [], hpos, rfl, fun _ _ h => absurd h List.not_mem_nil⟩

/-- The kinds that are stored are plain. -/
theorem mem_plainKinds_of_isMemoizable {k : Kind} (h : k.isMemoizable = true) :
    k ∈ plainKinds := by
  revert h
  cases k <;> decide

theorem ne_insert_of_isMemoizable {k : Kind} (h : k.isMemoizable = true) : k ≠ .insert := by
  rintro rfl
  exact absurd h (by decide)

/-- The store is one that a new store for `n` conversions became. -/
def MemoWithin (n : Nat) (c : Converter κ) : Prop :=
  ∀ m, c.memo = some m → 0 < n ∧ ∃ l, m = Cache.calls (Cache.new n) l

/-- A conversion keeps what became of a new store. -/
theorem MemoWithin.convert {n : Nat} {c : Converter κ} (hc : c.MemoWithin n)
    (session : Option Session) (sql : Bytes) :
    (c.convert session sql).converter.MemoWithin n := by
  intro m hm
  obtain ⟨l', h, -⟩ := c.convert_memo session sql
  rw [h] at hm
  obtain ⟨m₀, hm₀, rfl⟩ := Option.map_eq_some_iff.1 hm
  obtain ⟨hn, l, rfl⟩ := hc m₀ hm₀
  exact ⟨hn, l ++ l', (Cache.calls_append _ _ _).symm⟩

/-- The converter without its store. -/
def withoutMemo (c : Converter κ) : Converter κ :=
  { c with memo := none }

theorem stored?_withoutMemo (c : Converter κ) (sql : Bytes) : c.withoutMemo.stored? sql = none :=
  rfl

section Lawful

variable [LawfulCache κ]

/-- No more is stored than there is room for. -/
theorem MemoWithin.memoSize_le {n : Nat} {c : Converter κ} (hc : c.MemoWithin n) :
    c.memoSize ≤ n := by
  rw [memoSize]
  cases hm : c.memo with
  | none => exact Nat.zero_le n
  | some m =>
    obtain ⟨hn, l, rfl⟩ := hc m hm
    exact LawfulCache.size_calls hn l

/-- What is found in a sound store is what the rules would make of the statement. -/
theorem MemoSound.eq_plainOutput_of_stored {c : Converter κ} (hc : c.MemoSound) {sql out : Bytes}
    (h : c.stored? sql = some out) : out = plainOutput c.options sql := by
  have hk := isMemoizable_of_stored h
  rw [stored?, lookUp] at h
  split at h
  · rename_i m hm
    obtain ⟨size, l, hsize, rfl, hadds⟩ := hc m hm
    rw [if_pos hk] at h
    exact hadds sql out (CacheCall.mem_of_lastAdded? (LawfulCache.get_calls hsize l sql out h))
  · cases h

/-- With a sound store a statement that is no INSERT becomes what the rules alone make of it. -/
theorem MemoSound.output_eq_plainOutput {c : Converter κ} (hc : c.MemoSound)
    (session : Option Session) {sql : Bytes} (hl : ¬ IsLookup sql)
    (hk : Kind.ofStatement sql ≠ .insert) :
    (c.convert session sql).output = plainOutput c.options sql := by
  cases hs : c.stored? sql with
  | some out =>
    rw [(c.convert_of_stored session hl hs).1]
    exact hc.eq_plainOutput_of_stored hs
  | none =>
    rw [(c.convert_of_unstored session hl hs).1]
    exact c.settle_eq_plainOutput hk

/-- Converters with the same options and sound stores agree on every statement that is no INSERT. -/
theorem MemoSound.output_eq {c₁ c₂ : Converter κ} (h₁ : c₁.MemoSound) (h₂ : c₂.MemoSound)
    (hopts : c₁.options = c₂.options) (session : Option Session) {sql : Bytes}
    (hk : Kind.ofStatement sql ≠ .insert) :
    (c₁.convert session sql).output = (c₂.convert session sql).output := by
  by_cases hl : IsLookup sql
  · rw [(c₁.convert_of_isLookup session hl).1, (c₂.convert_of_isLookup session hl).1]
    exact settle_fst hopts (by decide) sql _ _
  · rw [h₁.output_eq_plainOutput session hl hk, h₂.output_eq_plainOutput session hl hk, hopts]

/-- A conversion keeps the store sound. -/
theorem MemoSound.convert {c : Converter κ} (hc : c.MemoSound) (session : Option Session)
    (sql : Bytes) : (c.convert session sql).converter.MemoSound := by
  intro m hm
  rw [convert_options]
  obtain ⟨l', h, hadded⟩ := c.convert_memo session sql
  rw [h] at hm
  obtain ⟨m₀, hm₀, rfl⟩ := Option.map_eq_some_iff.1 hm
  obtain ⟨size, l, hsize, rfl, hadds⟩ := hc m₀ hm₀
  refine ⟨size, l ++ l', hsize, (Cache.calls_append _ _ _).symm, fun sql' out' hmem => ?_⟩
  -- what is added now is what the rules make of it; the rest was so before
  rcases List.mem_append.1 hmem with hmem | hmem
  · exact hadds sql' out' hmem
  · obtain ⟨hl, hk, rfl, rfl⟩ := hadded sql' out' hmem
    exact hc.output_eq_plainOutput session hl (ne_insert_of_isMemoizable hk)

/-- With a sound store a conversion gives the same output, and leaves the same converter but for the
store. -/
theorem MemoSound.convert_withoutMemo {c : Converter κ} (hc : c.MemoSound)
    (session : Option Session) (sql : Bytes) :
    (c.withoutMemo.convert session sql).output = (c.convert session sql).output ∧
      (c.withoutMemo.convert session sql).converter
        = (c.convert session sql).converter.withoutMemo := by
  by_cases hl : IsLookup sql
  · have h := c.convert_of_isLookup session hl
    have h' := c.withoutMemo.convert_of_isLookup session hl
    rw [h.1, h.2, h'.1, h'.2]
    exact ⟨rfl, rfl⟩
  · obtain ⟨houtput', l', -, hconverter'⟩ :=
      c.withoutMemo.convert_of_unstored session hl (c.stored?_withoutMemo sql)
    rw [houtput', hconverter']
    cases hs : c.stored? sql with
    | some out =>
      have hk := isMemoizable_of_stored hs
      have h := c.convert_of_stored session hl hs
      have hcatalog := settle_snd c (mem_plainKinds_of_isMemoizable hk) sql (shield sql).1
        (shield sql).2
      rw [h.1, h.2]
      constructor
      · rw [hc.eq_plainOutput_of_stored hs]
        exact c.withoutMemo.settle_eq_plainOutput (ne_insert_of_isMemoizable hk)
      · -- the rules that were not run would have left the catalog as it is
        show ({ c with memo := none, catalog := (c.settle sql _ _ _).2 } : Converter κ) = _
        rw [hcatalog]
        rfl
    | none =>
      obtain ⟨houtput, l, -, hconverter⟩ := c.convert_of_unstored session hl hs
      rw [houtput, hconverter]
      exact ⟨rfl, rfl⟩

end Lawful

end Cached

end Converter

namespace SessionPool

variable {κ : Type}

/-! ## Runs of many sessions -/

/-- The pool with a converter without a store. -/
def withoutMemo (p : SessionPool κ) : SessionPool κ :=
  { p with converter := p.converter.withoutMemo }

theorem withoutMemo_setSession (p : SessionPool κ) (name : Bytes) (s : Option Session) :
    (p.setSession name s).withoutMemo = p.withoutMemo.setSession name s := by
  cases s <;> rfl

theorem converter_setSession (p : SessionPool κ) (name : Bytes) (s : Option Session) :
    (p.setSession name s).converter = p.converter := by
  cases s <;> rfl

variable [Cache κ]

section Invariant

variable {P : Converter κ → Prop}
  (hconvert : ∀ c, P c → ∀ session sql, P (c.convert session sql).converter)
  (hcatalog : ∀ c, P c → ∀ catalog, P { c with catalog })

include hconvert hcatalog

/-- What conversions and operations on the catalog keep of a converter holds after a step. -/
theorem converter_step {p : SessionPool κ} (hp : P p.converter) (s : PoolStep) :
    P (p.step s).converter := by
  cases s with
  | convert name sql =>
    show P (SessionPool.setSession _ name _).converter
    rw [converter_setSession]
    exact hconvert _ hp _ sql
  | reset name =>
    show P (p.setSession name _).converter
    rwa [converter_setSession]
  | catalog s => exact hcatalog _ hp _

theorem converter_run {p : SessionPool κ} (hp : P p.converter) (steps : List PoolStep) :
    P (p.run steps).converter := by
  induction steps generalizing p with
  | nil => exact hp
  | cons s steps ih => exact ih (converter_step hconvert hcatalog hp s)

end Invariant

/-- A store stays one that a new store for `n` conversions became. -/
theorem memoWithin_run {n : Nat} {p : SessionPool κ} (hp : p.converter.MemoWithin n)
    (steps : List PoolStep) : (p.run steps).converter.MemoWithin n :=
  converter_run (fun _ hc session sql => hc.convert session sql) (fun _ hc _ => hc) hp steps

section Lawful

variable [LawfulCache κ]

/-- One step: the pool without a store gives the same answer and stays the same but for the
store. -/
theorem step_withoutMemo {p : SessionPool κ} (hp : p.converter.MemoSound) (s : PoolStep) :
    p.withoutMemo.answer s = p.answer s ∧ p.withoutMemo.step s = (p.step s).withoutMemo := by
  cases s with
  | convert name sql =>
    obtain ⟨houtput, hconverter⟩ := hp.convert_withoutMemo (p.session? name) sql
    have hsession : (p.converter.withoutMemo.convert (p.session? name) sql).session
        = (p.converter.convert (p.session? name) sql).session := by
      rw [Converter.convert_session, Converter.convert_session]
    constructor
    · show PoolAnswer.converted (p.converter.withoutMemo.convert (p.session? name) sql).kind
          (p.converter.withoutMemo.convert (p.session? name) sql).output
        = PoolAnswer.converted (p.converter.convert (p.session? name) sql).kind
          (p.converter.convert (p.session? name) sql).output
      rw [houtput, Converter.convert_kind, Converter.convert_kind]
    · show SessionPool.setSession
          ⟨(p.converter.withoutMemo.convert (p.session? name) sql).converter, p.sessions⟩ name
          (p.converter.withoutMemo.convert (p.session? name) sql).session
        = (SessionPool.setSession
          ⟨(p.converter.convert (p.session? name) sql).converter, p.sessions⟩ name
          (p.converter.convert (p.session? name) sql).session).withoutMemo
      rw [hsession, hconverter, withoutMemo_setSession]
      rfl
  | reset name =>
    refine ⟨rfl, ?_⟩
    show p.withoutMemo.setSession name _ = (p.setSession name _).withoutMemo
    rw [withoutMemo_setSession]
    rfl
  | catalog s => exact ⟨rfl, rfl⟩

theorem memoSound_step {p : SessionPool κ} (hp : p.converter.MemoSound) (s : PoolStep) :
    (p.step s).converter.MemoSound :=
  converter_step (fun _ hc session sql => hc.convert session sql) (fun _ hc _ => hc) hp s

/-- A run: the same answers, and the same pool but for the store. -/
theorem run_withoutMemo {p : SessionPool κ} (hp : p.converter.MemoSound) (steps : List PoolStep) :
    p.withoutMemo.answers steps = p.answers steps ∧
      p.withoutMemo.run steps = (p.run steps).withoutMemo := by
  induction steps generalizing p with
  | nil => exact ⟨rfl, rfl⟩
  | cons s steps ih =>
    obtain ⟨hanswer, hstep⟩ := step_withoutMemo hp s
    obtain ⟨hanswers, hrun⟩ := ih (memoSound_step hp s)
    constructor
    · rw [answers, answers, hanswer, hstep, hanswers]
    · show (p.withoutMemo.step s).run steps = ((p.step s).run steps).withoutMemo
      rw [hstep, hrun]

/-- **The store is invisible.** Whatever kind of store is used, if what it finds is what was last
added and it keeps to its size: for every size, whatever the options, the catalog and the sessions
are and whatever the steps, the answers, the last query of each session and the catalog are those of
a converter without a store, and the store never holds more than its size. -/
theorem answers_withMemo (c : Converter κ) (size : Int) (sessions : List (Bytes × Session))
    (steps : List PoolStep) :
    let p : SessionPool κ := ⟨c.withMemo size, sessions⟩
    let q : SessionPool κ := ⟨{ c with memo := none }, sessions⟩
    p.answers steps = q.answers steps ∧
      (∀ name, (p.run steps).lastQuery name = (q.run steps).lastQuery name) ∧
      (p.run steps).converter.catalog = (q.run steps).converter.catalog ∧
      ((p.run steps).converter.memoSize : Int) ≤ max size 0 := by
  intro p q
  have hsound : p.converter.MemoSound := c.memoSound_withMemo size
  have hwithin : p.converter.MemoWithin size.toNat := by
    intro m hm
    obtain ⟨hpos, rfl⟩ := c.eq_of_memo_withMemo hm
    exact ⟨hpos, [], rfl⟩
  obtain ⟨hanswers, hrun⟩ := run_withoutMemo hsound steps
  have hq : q = p.withoutMemo := rfl
  rw [hq, hanswers, hrun]
  refine ⟨rfl, fun name => rfl, rfl, ?_⟩
  have hbound := (memoWithin_run hwithin steps).memoSize_le
  omega

end Lawful

/-- A store for one conversion: the second step is answered from it, the third one makes the first
conversion go, and the answers are those without a store. -/
theorem answers_withMemo_evicts :
    let p : SessionPool := ⟨({} : Converter).withMemo 1, []⟩
    let q : SessionPool := ⟨{}, []⟩
    let query := ascii "SELECT a FROM t LIMIT 1, 2"
    let update := ascii "UPDATE t SET a = 1"
    let hit : List PoolStep := [.convert (ascii "s") query, .convert [] query]
    let evict : List PoolStep := [.convert (ascii "s") update, .convert (ascii "s") query]
    p.answers (hit ++ evict) = q.answers (hit ++ evict) ∧
      (p.run hit).converter.stored? query = some (ascii "SELECT a FROM t LIMIT 2 OFFSET 1") ∧
      (p.run (hit ++ [.convert (ascii "s") update])).converter.stored? query = none := by
  intro p q query update hit evict
  refine ⟨(answers_withMemo {} 1 [] (hit ++ evict)).1, ?_⟩
  simp only [p, query, update, hit]
  repeat rw [ascii_ofList]
  decide +kernel

end SessionPool

end SqlDialect
