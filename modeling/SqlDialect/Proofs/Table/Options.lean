import SqlDialect.Proofs.Literal.Separate
import SqlDialect.Proofs.Pattern.Phrase
import SqlDialect.Proofs.Table.Items
import SqlDialect.Proofs.Text.OneLine

set_option autoImplicit false

/-! # What the options change in a table definition

Whether a column is a key is read off its attributes as they are written for the target, and there
the options have a say: a constraint that lists the values of an enumeration is added, and the
default of a truth value is replaced. Neither brings in a key or takes one away if the constraint
names none and the column has no second default that the replacement would swallow
(`Column.KeysKept`). All else that makes a key does not depend on the options, so the keys of the
table do not either. -/

namespace SqlDialect

open Bytes

namespace Column

/-! ## Key words -/

/-- Whether the attributes make the column the primary key, and whether a unique key. -/
def keyWords (attrs : Bytes) : Bool × Bool :=
  (primaryPattern.occursIn attrs, uniquePattern.occursIn attrs)

/-- A unique key is one with or without the word KEY. -/
theorem uniquePattern_occursIn (s : Bytes) :
    uniquePattern.occursIn s = (Pattern.edged (.keyword "UNIQUE")).occursIn s := by
  have hstarts : ∀ ps : List Pattern,
      (Pattern.seqs (.wordEdge :: .keyword "UNIQUE" :: ps)).StartsAscii := by
    intro ps c c' h
    obtain ⟨c₁, hedge, h₁⟩ := Pattern.leads_seqs_cons.1 h
    obtain ⟨rfl, -⟩ := Pattern.leads_wordEdge.1 hedge
    obtain ⟨c₂, hkey, -⟩ := Pattern.leads_seqs_cons.1 h₁
    exact Pattern.leads_keyword_head (by decide) hkey
  -- what may follow the word changes neither where it starts nor that it ends at an edge
  rw [Bool.eq_iff_iff, uniquePattern, Pattern.edged, Pattern.occursIn_iff (hstarts _),
    Pattern.occursIn_iff (hstarts _)]
  refine exists_congr fun a => exists_congr fun b => and_congr_right fun _ => ⟨?_, ?_⟩
  · rintro ⟨c', h⟩
    obtain ⟨c₁, hedge, h₁⟩ := Pattern.leads_seqs_cons.1 h
    obtain ⟨c₂, hkey, h₂⟩ := Pattern.leads_seqs_cons.1 h₁
    obtain ⟨c₃, hopt, h₃⟩ := Pattern.leads_seqs_cons.1 h₂
    have hend : c₂.atWordEdge = true := by
      rcases Pattern.leads_alt.1 hopt with hkeyword | hnone
      · -- a blank follows the word
        obtain ⟨c₄, hblanks, -⟩ := Pattern.leads_seq.1 hkeyword
        obtain ⟨bl, hne, hbl, hbltakes⟩ := Pattern.leads_blanks1 hblanks
        obtain ⟨t, htakes, hword, -⟩ := Pattern.leads_keyword_text (by decide) (by decide) hkey
        obtain ⟨x, bl, rfl⟩ := List.exists_cons_of_ne_nil hne
        have hlast := List.getLast?_eq_some_getLast hword.1
        rw [Pattern.Cursor.atWordEdge, htakes.prev, hlast, Option.some_or, Option.any_some,
          hword.2 _ (List.mem_of_getLast? hlast), hbltakes.rest, List.cons_append,
          List.head?_cons, Option.any_some, (ascii_of_blank (hbl x List.mem_cons_self)).2.2]
        rfl
      · obtain rfl := Pattern.leads_nothing.1 hnone
        obtain ⟨c₄, hedge', -⟩ := Pattern.leads_seqs_cons.1 h₃
        exact (Pattern.leads_wordEdge.1 hedge').2
    exact ⟨c₂, Pattern.leads_seqs_cons.2 ⟨c₁, hedge, Pattern.leads_seqs_cons.2 ⟨c₂, hkey,
      Pattern.leads_seqs_cons.2 ⟨c₂, .wordEdge hend, .nothing c₂⟩⟩⟩⟩
  · rintro ⟨c', h⟩
    obtain ⟨c₁, hedge, h₁⟩ := Pattern.leads_seqs_cons.1 h
    obtain ⟨c₂, hkey, h₂⟩ := Pattern.leads_seqs_cons.1 h₁
    exact ⟨c', Pattern.leads_seqs_cons.2 ⟨c₁, hedge, Pattern.leads_seqs_cons.2 ⟨c₂, hkey,
      Pattern.leads_seqs_cons.2 ⟨c₂, .altRight (.nothing c₂), h₂⟩⟩⟩⟩

theorem isPhrase_unique : (Pattern.keyword "UNIQUE").IsPhrase 117 [] :=
  Pattern.isPhrase_keyword (by decide) (by decide) (by decide)

/-- The first letters of the words that make a key. -/
def keyLetters : Bytes := [117, 112, 107, 101]

/-- Words that make no key can be exchanged for other such words. -/
theorem keyWords_exchange {u w w' z : Bytes} (hu : u.getLast?.any isWord = false)
    (hw : Pattern.Inert keyLetters w) (hw' : Pattern.Inert keyLetters w') :
    keyWords (u ++ (w ++ z)) = keyWords (u ++ (w' ++ z)) := by
  have hiff : ∀ {q : Pattern} {first : UInt8} {inner : Bytes}, q.IsPhrase first inner →
      first :: inner ⊆ keyLetters → (Pattern.edged q).occursIn (u ++ (w ++ z))
        = (Pattern.edged q).occursIn (u ++ (w' ++ z)) := by
    intro q first inner hq hsub
    rw [Bool.eq_iff_iff]
    exact ⟨Pattern.occursIn_exchange hq hu (hw.mono hsub) w',
      Pattern.occursIn_exchange hq hu (hw'.mono hsub) w⟩
  rw [keyWords, keyWords, uniquePattern_occursIn, uniquePattern_occursIn]
  exact Prod.ext (hiff Pattern.isPhrase_primaryKey (by decide)) (hiff isPhrase_unique (by decide))

/-- Nothing changes behind a blank if no key is named there. -/
theorem keyWords_blank_append {u w z : Bytes} (hw : Pattern.Inert keyLetters w)
    (hz : keyWords (w ++ z) = (false, false)) :
    keyWords (u ++ 32 :: (w ++ z)) = keyWords u := by
  rw [keyWords, uniquePattern_occursIn, Prod.mk.injEq] at hz
  rw [keyWords, keyWords, uniquePattern_occursIn, uniquePattern_occursIn]
  exact Prod.ext
    (Pattern.occursIn_blank_append Pattern.isPhrase_primaryKey (hw.mono (by decide)) hz.1)
    (Pattern.occursIn_blank_append isPhrase_unique (hw.mono (by decide)) hz.2)

/-! ## Defaults -/

/-- What a match of a default consists of. -/
theorem default_parts {s : Bytes} {m : Match} (hm : defaultPattern.find? s = some m) :
    ∃ d bl, m.text = d ++ bl ++ m.group 1 ∧ IsWord d ∧ (∀ x ∈ d.head?, lowerByte x = 100) ∧
      bl ≠ [] ∧ AllBlank bl ∧ m.before.getLast?.any isWord = false := by
  obtain ⟨c', hplaces, hgroups⟩ := Pattern.places_of_findFrom? hm
  have hedge := Pattern.startsOutside_keyword (s := "DEFAULT") (by decide) (by decide) _ _ _
    hplaces.leads
  rw [Option.or_none] at hedge
  obtain ⟨c₁, hstart, h₁⟩ := Pattern.leads_seqs_cons.1 hplaces.leads
  obtain ⟨rfl, -⟩ := Pattern.leads_wordEdge.1 hstart
  obtain ⟨c₂, hkey, h₂⟩ := Pattern.leads_seqs_cons.1 h₁
  obtain ⟨c₃, hblanks, h₃⟩ := Pattern.leads_seqs_cons.1 h₂
  obtain ⟨c₄, hgroup, hnil⟩ := Pattern.leads_seqs_cons.1 h₃
  obtain rfl := Pattern.leads_nothing.1 hnil
  obtain ⟨c₅, hvalue, rfl⟩ := Pattern.leads_group.1 hgroup
  obtain ⟨d, hd, hdword, hdlower, -⟩ := Pattern.leads_keyword_text (by decide) (by decide) hkey
  obtain ⟨bl, hne, hbl, hbltakes⟩ := Pattern.leads_blanks1 hblanks
  obtain ⟨v, hv⟩ := hvalue.takes
  have htext : m.text = d ++ bl ++ v :=
    hplaces.takes.unique (((hd.trans hbltakes).trans hv).record 1 c₃)
  have hrecorded := Pattern.text_recorded rfl (hd.trans hbltakes) hv 1
  have hnone : c₅.groups = [] := by
    rw [hvalue.groups_eq (by decide), hblanks.groups_eq (by decide), hkey.groups_eq (by decide)]
  have hgroup : m.group 1 = v := by
    rw [Match.group, Match.group?, hgroups, Pattern.Cursor.record, hnone, List.map_cons, hrecorded]
    rfl
  refine ⟨d, bl, by rw [htext, hgroup], hdword, ?_, hne, hbl, hedge⟩
  intro x hx
  obtain ⟨d', rfl⟩ := List.head?_eq_some_iff.1 hx
  exact (List.cons.inj hdlower).1

/-- A token that stands for a literal is one solid text whose words make no key. -/
theorem inert_of_lookup? {lits : LiteralTable} {token : Bytes} {l : Literal}
    (h : lits.lookup? token = some l) : Pattern.Inert keyLetters token ∧ Solid token := by
  obtain ⟨n, hn, -⟩ := Option.bind_eq_some_iff.1 h
  obtain ⟨digits, rfl, hdigits⟩ := eq_append_of_placeholderIndex? hn
  have hplain : ∀ b ∈ digits ++ markerEnd, lowerByte b ∉ keyLetters ∧ b < 128 ∧
      isSpace b.toNat = false := by
    have hall : ∀ b : UInt8, (isDigit b = true ∨ b = 43 ∨ b = 45) ∨ b = 95 →
        lowerByte b ∉ keyLetters ∧ b < 128 ∧ isSpace b.toNat = false :=
      forall_byte (by decide +kernel)
    intro b hb
    rcases List.mem_append.1 hb with hb | hb
    · exact hall b (Or.inl (hdigits b hb))
    · have hunderscore : ∀ b ∈ markerEnd, b = 95 := by decide
      exact hall b (Or.inr (hunderscore b hb))
  have hmarker : IsWord marker := by decide
  refine ⟨⟨⟨95, marker.tail ++ (digits ++ markerEnd), rfl, by decide, by decide⟩, ⟨95, ?_, by decide⟩,
    List.isChain_append.2 ⟨?_, ?_, ?_⟩⟩, ?_, ?_⟩
  · rw [List.getLast?_append, List.getLast?_append]
    rfl
  · exact Pattern.isChain_of_forall fun y hy x _ hno =>
      Bool.noConfusion (hno.symm.trans (hmarker.2 y hy))
  · exact Pattern.isChain_of_forall fun y _ x hx _ _ => (hplain x hx).1
  · exact fun y hy x _ hno =>
      Bool.noConfusion (hno.symm.trans (hmarker.2 y (List.mem_of_getLast? hy)))
  · exact List.append_ne_nil_of_left_ne_nil hmarker.1 _
  · intro b hb
    rcases List.mem_append.1 hb with hb | hb
    · exact hmarker.solid.2 b hb
    · exact (hplain b hb).2

/-- The truth values that a default is replaced by. -/
def truthValues : List Bytes := [ascii "false", ascii "true"]

/-- Where the only default is a number or a literal, a truth value in its place makes no key and
takes none away. -/
theorem keyWords_replaceDefault {s : Bytes} {m : Match} (hm : defaultPattern.find? s = some m)
    (hone : (defaultPattern.all s).length ≤ 1)
    (hvalue : Pattern.Inert keyLetters (m.group 1) ∧ Solid (m.group 1)) {value : Bytes}
    (hmem : value ∈ truthValues) :
    keyWords (oneLine (defaultPattern.replace (ascii "DEFAULT " ++ value) s))
      = keyWords (oneLine s) := by
  obtain ⟨d, bl, htext, hd, hdhead, hne, hbl, hbefore⟩ := default_parts hm
  have hs := Pattern.text_of_find? hm
  have hreplace : defaultPattern.replace (ascii "DEFAULT " ++ value) s
      = m.before ++ (ascii "DEFAULT " ++ value) ++ m.after := by
    have hshorter : m.after.length < s.length := by
      have hlength := congrArg List.length hs
      have hpos := List.length_pos_iff.2 hd.1
      rw [htext] at hlength
      simp only [List.length_append] at hlength
      omega
    have hall : defaultPattern.all s = m :: defaultPattern.allFrom m.text.getLast? m.after := by
      rw [Pattern.all, Pattern.allFrom,
        show defaultPattern.findFrom? 0 none s = some m from hm]
      exact if_pos hshorter
    have hnil : defaultPattern.allFrom m.text.getLast? m.after = [] := by
      rw [hall, List.length_cons] at hone
      exact List.length_eq_zero_iff.1 (by omega)
    rw [Pattern.replace, Pattern.replaceWith, hall, hnil]
    simp
  have hinert : Pattern.Inert keyLetters value ∧ Solid value := by
    rcases List.mem_pair.1 hmem with rfl | rfl
    · exact ⟨Pattern.inert_of_isWord (by decide) (by decide), by decide⟩
    · exact ⟨Pattern.inert_of_isWord (by decide) (by decide), by decide⟩
  -- on one line the default is two words, and each is exchanged in turn
  obtain ⟨head, tail, hhead, hline⟩ := oneLine_blanks_between hbefore m.after
  have hold := hline d bl (m.group 1) hd.solid hne
    (fun b hb => ⟨(ascii_of_blank (hbl b hb)).1, (ascii_of_blank (hbl b hb)).2.1⟩) hvalue.2
  have hnew := hline (ascii "DEFAULT") [32] value (by decide) (by decide) (by decide) hinert.2
  have hword : Pattern.Inert keyLetters d :=
    Pattern.inert_of_isWord hd fun x hx => by rw [hdhead x hx]; decide
  have hdefault : Pattern.Inert keyLetters (ascii "DEFAULT") :=
    Pattern.inert_of_isWord (by decide) (by decide)
  have hblank : (head ++ ascii "DEFAULT" ++ [32]).getLast?.any isWord = false := by
    rw [List.getLast?_concat]
    decide
  calc keyWords (oneLine (defaultPattern.replace (ascii "DEFAULT " ++ value) s))
      = keyWords (oneLine (m.before ++ ascii "DEFAULT" ++ [32] ++ value ++ m.after)) := by
        rw [hreplace, show ascii "DEFAULT " = ascii "DEFAULT" ++ [32] by decide]
        simp only [List.append_assoc]
    _ = keyWords (head ++ ascii "DEFAULT" ++ [32] ++ (value ++ tail)) := by
        rw [hnew]
        simp only [List.append_assoc, List.singleton_append]
    _ = keyWords (head ++ ascii "DEFAULT" ++ [32] ++ (m.group 1 ++ tail)) :=
        keyWords_exchange hblank hinert.1 hvalue.1
    _ = keyWords (head ++ (ascii "DEFAULT" ++ (32 :: (m.group 1 ++ tail)))) := by
        simp only [List.append_assoc, List.singleton_append]
    _ = keyWords (head ++ (d ++ (32 :: (m.group 1 ++ tail)))) :=
        keyWords_exchange hhead hdefault hword
    _ = keyWords (oneLine s) := by
        rw [← hold, ← hs, htext]
        simp only [List.append_assoc]

/-! ## Reading a column -/

/-- The attributes that are left of a definition, before a default is replaced. -/
def leftAttrs (m : Match) : Bytes :=
  let rest := [signPattern, zerofillPattern, charsetPattern, collatePattern, onUpdatePattern,
    commentPattern].foldl (fun s p => p.erase s) (m.group 4)
  let stripped := autoIncrementPattern.erase rest
  if autoIncrementPattern.occursIn rest then
    leadingNullPattern.erase (notNullPattern.erase stripped)
  else stripped

/-- What a definition says, whatever the options. -/
def ofMatch (m : Match) : Column :=
  let signed := m.group 4
  let unsigned := signPattern.erase signed
  let rest := [zerofillPattern, charsetPattern, collatePattern, onUpdatePattern,
    commentPattern].foldl (fun s p => p.erase s) unsigned
  { name := normalizeName (m.group 1)
    dataType := canonicalType (m.group 2)
    args := m.group 3
    unsigned := signPattern.occursIn signed &&
      Bytes.containsText (Bytes.toUpper signed) (ascii "UNSIGNED")
    notNull := notNullPattern.occursIn (autoIncrementPattern.erase rest)
    defaultValue := ((defaultPattern.find? (leftAttrs m)).map (·.group 1)).getD []
    autoIncrement := autoIncrementPattern.occursIn rest
    collation := ((collatePattern.find? unsigned).map (·.group 1)).getD [] }

/-- The default that stands in for the one of the definition. -/
def newDefault? (m : Match) (lits : LiteralTable) (opts : TypeOptions) : Option Bytes :=
  let col := ofMatch m
  if col.defaultValue.isEmpty then none
  else col.targetDefault? (col.targetType opts) lits

/-- The attributes with the default that stands there for the target. -/
def defaultedAttrs (m : Match) (lits : LiteralTable) (opts : TypeOptions) : Bytes :=
  match newDefault? m lits opts with
  | some value => defaultPattern.replace (ascii "DEFAULT " ++ value) (leftAttrs m)
  | none => leftAttrs m

/-- The options decide on the default and on the constraint for an enumeration alone. -/
theorem ofText?_eq (item : Bytes) (lits : LiteralTable) (opts : TypeOptions) :
    ofText? item lits opts false = (definitionPattern.find? item).map fun m =>
      { ofMatch m with
        defaultValue := (newDefault? m lits opts).getD (ofMatch m).defaultValue
        attrs := oneLine (defaultedAttrs m lits opts ++ (ofMatch m).enumConstraint opts) } := by
  rw [ofText?]
  refine congrArg (fun f => Option.map f _) (funext fun m => ?_)
  simp only [newDefault?, ofMatch, leftAttrs, defaultedAttrs, Bool.not_false, Bool.and_true,
    List.foldl_cons, List.foldl_nil]
  rfl

/-- The options make a truth value of a small integer, and the one JSON type of the other. -/
theorem targetType_cases (col : Column) (opts : TypeOptions) :
    col.targetType opts = col.targetType {} ∨
      (col.targetType {} = ascii "smallint" ∧ col.targetType opts = ascii "boolean") ∨
      (col.targetType {} = ascii "json" ∧ col.targetType opts = ascii "jsonb") := by
  simp only [targetType]
  generalize canonicalType col.dataType = name
  by_cases hauto : col.autoIncrement = true
  · simp only [if_pos hauto, true_or]
  simp only [if_neg hauto]
  by_cases htiny : name = ascii "tinyint"
  · simp only [if_pos htiny]
    split <;> simp
  simp only [if_neg htiny]
  by_cases hjson : name = ascii "json"
  · subst hjson
    cases opts.jsonAsJsonb
    · exact Or.inl rfl
    · exact Or.inr (Or.inr ⟨rfl, rfl⟩)
  · simp only [if_neg hjson, true_or]

theorem newDefault?_cases (m : Match) (lits : LiteralTable) (opts : TypeOptions) :
    newDefault? m lits opts = newDefault? m lits {} ∨
      newDefault? m lits {} = none ∧ ∃ value ∈ truthValues, newDefault? m lits opts = some value ∧
        Pattern.Inert keyLetters (ofMatch m).defaultValue ∧ Solid (ofMatch m).defaultValue := by
  rw [newDefault?, newDefault?]
  generalize ofMatch m = col
  split
  · exact Or.inl rfl
  simp only [targetDefault?]
  split
  · exact Or.inl rfl
  rcases col.targetType_cases opts with heq | ⟨hsmall, hboolean⟩ | ⟨hjson, hjsonb⟩
  · exact Or.inl (by rw [heq])
  · rw [hsmall, hboolean, if_pos (rfl : ascii "boolean" = ascii "boolean"),
      if_neg (show ascii "smallint" ≠ ascii "boolean" by decide)]
    generalize hvalue : (Option.map Literal.body (lits.lookup? col.defaultValue)).getD
      col.defaultValue = value
    -- a literal is read through its token, any other value as it stands
    have hinert : value = ascii "0" ∨ value = ascii "1" →
        Pattern.Inert keyLetters col.defaultValue ∧ Solid col.defaultValue := by
      intro hbit
      cases hliteral : lits.lookup? col.defaultValue with
      | some l => exact inert_of_lookup? hliteral
      | none =>
        rw [hliteral] at hvalue
        rw [show col.defaultValue = value from hvalue]
        rcases hbit with rfl | rfl
        · exact ⟨Pattern.inert_of_isWord (by decide) (by decide), by decide⟩
        · exact ⟨Pattern.inert_of_isWord (by decide) (by decide), by decide⟩
    split
    · rename_i hzero
      exact Or.inr ⟨rfl, _, by decide, rfl, hinert (Or.inl hzero)⟩
    split
    · rename_i hone
      exact Or.inr ⟨rfl, _, by decide, rfl, hinert (Or.inr hone)⟩
    · exact Or.inl rfl
  · rw [hjson, hjsonb]
    exact Or.inl rfl

/-- A default that is replaced because of the options is the only one. -/
def DefaultKept (m : Match) (lits : LiteralTable) (opts : TypeOptions) : Prop :=
  newDefault? m lits opts = newDefault? m lits {} ∨ (defaultPattern.all (leftAttrs m)).length ≤ 1

instance (m : Match) (lits : LiteralTable) (opts : TypeOptions) :
    Decidable (DefaultKept m lits opts) :=
  inferInstanceAs (Decidable (_ ∨ _))

theorem keyWords_defaultedAttrs {m : Match} {lits : LiteralTable} {opts : TypeOptions}
    (h : DefaultKept m lits opts) :
    keyWords (oneLine (defaultedAttrs m lits opts)) = keyWords (oneLine (defaultedAttrs m lits {})) := by
  rw [defaultedAttrs, defaultedAttrs]
  rcases newDefault?_cases m lits opts with heq | ⟨hnone, value, hmem, hsome, hold⟩
  · rw [heq]
  · rw [DefaultKept, hnone, hsome] at h
    rw [hnone, hsome]
    cases hm : defaultPattern.find? (leftAttrs m) with
    | none =>
      have hempty : (ofMatch m).defaultValue = [] := by
        rw [ofMatch, hm]
        rfl
      exact absurd hempty hold.2.1
    | some d =>
      have hdefault : (ofMatch m).defaultValue = d.group 1 := by
        rw [ofMatch, hm]
        rfl
      rw [hdefault] at hold
      exact keyWords_replaceDefault hm (h.resolve_left (by simp)) hold hmem

theorem enumConstraint_unasked (col : Column) : col.enumConstraint {} = [] := by
  simp [enumConstraint]

/-- A constraint that names no key makes none. -/
theorem keyWords_enumConstraint {col : Column} {opts : TypeOptions}
    (h : keyWords (oneLine (col.enumConstraint opts)) = (false, false)) (rest : Bytes) :
    keyWords (oneLine (rest ++ col.enumConstraint opts)) = keyWords (oneLine rest) := by
  rw [enumConstraint] at h ⊢
  split at h
  · rename_i hadded
    rw [if_pos hadded]
    generalize htext : ascii " (" ++ col.name ++ ascii " IN (" ++ col.args ++ ascii "))" = text
    have hcheck : ascii " CHECK (" ++ col.name ++ ascii " IN (" ++ col.args ++ ascii "))"
        = 32 :: (ascii "CHECK" ++ text) := by
      rw [← htext]
      simp only [List.append_assoc]
      rfl
    have hcheckword : IsWord (ascii "CHECK") := by decide
    obtain ⟨tail, htail⟩ := oneLine_solid_append text
    have hline := htail _ hcheckword.solid
    have hwords : words (ascii "CHECK" ++ text) ≠ [] :=
      words_ne_nil (by rw [hline]; exact List.append_ne_nil_of_left_ne_nil hcheckword.1 _)
    have hblank : (32 : UInt8) < 128 ∧ isSpace (32 : UInt8).toNat = true := by decide
    have hnone : oneLine (32 :: (ascii "CHECK" ++ text)) = ascii "CHECK" ++ tail := by
      rw [← hline, oneLine, words_cons_space hblank, ← oneLine]
    rw [hcheck, hnone] at h
    rw [hcheck]
    by_cases hrest : words rest = []
    · rw [oneLine, words_append_blank hblank, hrest, List.nil_append, ← oneLine, hline, h, oneLine,
        hrest]
      decide
    · rw [oneLine_append_blank hblank hrest hwords, hline]
      exact keyWords_blank_append (Pattern.inert_of_isWord hcheckword (by decide)) h
  · rename_i hnone
    rw [if_neg hnone, List.append_nil]

end Column

/-! ## Items -/

/-- The definitions have the same name and the same keys. -/
structure TableDef.SameKeys (d d' : TableDef) : Prop where
  name : d.name = d'.name
  primaryKey : d.primaryKey = d'.primaryKey
  keys : d.keys = d'.keys

theorem TableDef.SameKeys.uniqueKeys {d d' : TableDef} (h : d.SameKeys d') :
    d.uniqueKeys = d'.uniqueKeys := by
  rw [TableDef.uniqueKeys, TableDef.uniqueKeys, h.primaryKey, h.keys]

namespace TableItem

/-- The column definition that an item is, if it is read as one. -/
def columnMatch? (item : Bytes) : Option Match :=
  if (primaryKeyPattern.find? item).isSome || (keyClause? item).isSome ||
      constraintPattern.occursIn item then none
  else Column.definitionPattern.find? item

/-- The options bring no key into the item: the constraint for an enumeration names none, and a
default that is replaced because of the options is the only one of its column. -/
def KeysKept (opts : TypeOptions) (lits : LiteralTable) (item : Bytes) : Prop :=
  ∀ m ∈ columnMatch? item,
    Column.keyWords (oneLine ((Column.ofMatch m).enumConstraint opts)) = (false, false) ∧
      Column.DefaultKept m lits opts

instance (opts : TypeOptions) (lits : LiteralTable) (item : Bytes) :
    Decidable (KeysKept opts lits item) :=
  inferInstanceAs (Decidable (∀ m ∈ columnMatch? item, _ ∧ _))

/-- Only in a column the options have a say. -/
theorem ofText_cases (lits : LiteralTable) (opts : TypeOptions) (item : Bytes) :
    ofText lits opts item = ofText lits {} item ∨ ∃ m ∈ columnMatch? item,
      ofText lits opts item = column
        { Column.ofMatch m with
          defaultValue := (Column.newDefault? m lits opts).getD (Column.ofMatch m).defaultValue
          attrs := oneLine
            (Column.defaultedAttrs m lits opts ++ (Column.ofMatch m).enumConstraint opts) } ∧
      ofText lits {} item = column
        { Column.ofMatch m with
          defaultValue := (Column.newDefault? m lits {}).getD (Column.ofMatch m).defaultValue
          attrs := oneLine (Column.defaultedAttrs m lits {}) } := by
  simp only [columnMatch?, ofText]
  cases primaryKeyPattern.find? item with
  | some m => exact Or.inl rfl
  | none =>
    cases keyClause? item with
    | some m => exact Or.inl rfl
    | none =>
      cases constraintPattern.occursIn item with
      | true => exact Or.inl (by rw [if_pos rfl, if_pos rfl])
      | false =>
        simp only [Column.ofText?_eq]
        cases Column.definitionPattern.find? item with
        | none => exact Or.inl rfl
        | some m =>
          refine Or.inr ⟨m, rfl, rfl, ?_⟩
          rw [Option.map_some, Column.enumConstraint_unasked, List.append_nil]
          rfl

/-- What a column adds to the keys of a table is a matter of its name and its key words. -/
theorem sameKeys_addTo_column {lits : LiteralTable} {d d' : TableDef} (hd : d.SameKeys d')
    {col col' : Column} (hname : col.name = col'.name)
    (hattrs : Column.keyWords col.attrs = Column.keyWords col'.attrs) :
    ((column col).addTo lits d).SameKeys ((column col').addTo lits d') := by
  obtain ⟨hprimary, hunique⟩ := Prod.mk.inj hattrs
  simp only [addTo, hprimary, hunique, hname]
  split
  · exact ⟨hd.name, rfl, hd.keys⟩
  split
  · exact ⟨hd.name, hd.primaryKey, congrArg (· ++ _) hd.keys⟩
  · exact ⟨hd.name, hd.primaryKey, hd.keys⟩

theorem sameKeys_addTo {lits : LiteralTable} {d d' : TableDef} (hd : d.SameKeys d')
    (item : TableItem) : (item.addTo lits d).SameKeys (item.addTo lits d') := by
  cases item with
  | primaryKey parts rendered =>
    exact ⟨hd.name, congrArg (· ++ _) hd.primaryKey, hd.keys⟩
  | index key rendered =>
    simp only [addTo]
    split
    · exact ⟨hd.name, hd.primaryKey, hd.keys⟩
    · exact ⟨hd.name, hd.primaryKey, congrArg (· ++ _) hd.keys⟩
  | column col => exact sameKeys_addTo_column hd rfl rfl
  | verbatim text => exact hd

/-- An item adds the same keys whatever the options. -/
theorem sameKeys_addTo_ofText {lits : LiteralTable} {opts : TypeOptions} {item : Bytes}
    (h : KeysKept opts lits item) {d d' : TableDef} (hd : d.SameKeys d') :
    ((ofText lits opts item).addTo lits d).SameKeys ((ofText lits {} item).addTo lits d') := by
  rcases ofText_cases lits opts item with heq | ⟨m, hm, heq, heq'⟩
  · rw [heq]
    exact sameKeys_addTo hd _
  · obtain ⟨henum, hdefault⟩ := h m hm
    rw [heq, heq']
    exact sameKeys_addTo_column hd rfl
      ((Column.keyWords_enumConstraint henum _).trans (Column.keyWords_defaultedAttrs hdefault))

theorem sameKeys_foldl {lits : LiteralTable} {opts : TypeOptions} {items : List Bytes}
    (h : ∀ item ∈ items, KeysKept opts lits item) {d d' : TableDef} (hd : d.SameKeys d') :
    ((items.map (ofText lits opts)).foldl (addTo lits) d).SameKeys
      ((items.map (ofText lits {})).foldl (addTo lits) d') := by
  induction items generalizing d d' with
  | nil => exact hd
  | cons item items ih =>
    obtain ⟨hitem, hitems⟩ := List.forall_mem_cons.1 h
    exact ih hitems (sameKeys_addTo_ofText hitem hd)

end TableItem

/-! ## Tables -/

/-- Whether a statement is taken as a table definition is not a matter of the options. -/
theorem isSome_createTable? (s : Bytes) (lits : LiteralTable) (opts : TypeOptions) :
    (createTable? s lits opts).isSome = (createTable? s lits {}).isSome := by
  have hiff : ∀ opts : TypeOptions, (createTable? s lits opts).isSome
      = ((createTablePattern.find? s).bind fun m => splitParen? m.after).isSome := by
    intro opts
    rw [← Option.isSome_map (f := CreatedTable.definition), definition_createTable?]
    cases createTablePattern.find? s with
    | none => rfl
    | some m => exact Option.isSome_map
  rw [hiff, hiff]

/-- The table has the same name and the same keys whatever the options. -/
theorem sameKeys_createTable? {s : Bytes} {lits : LiteralTable} {opts : TypeOptions}
    (h : ∀ item ∈ tableItems s, TableItem.KeysKept opts lits item) {t t' : CreatedTable}
    (ht : createTable? s lits opts = some t) (ht' : createTable? s lits {} = some t') :
    t.definition.SameKeys t'.definition := by
  have hdef := definition_createTable? s lits opts
  have hdef' := definition_createTable? s lits {}
  rw [ht, Option.map_some] at hdef
  rw [ht', Option.map_some] at hdef'
  rw [tableItems] at h
  cases hm : createTablePattern.find? s with
  | none =>
    rw [hm] at hdef
    cases hdef
  | some m =>
    rw [hm, Option.bind_some] at h hdef hdef'
    cases hsplit : splitParen? m.after with
    | none =>
      rw [hsplit] at hdef
      cases hdef
    | some parts =>
      rw [hsplit, Option.map_some] at h hdef hdef'
      rw [Option.some.inj hdef, Option.some.inj hdef']
      have hsame := TableItem.sameKeys_foldl h
        (d := { name := normalizeName (m.group 3) }) ⟨rfl, rfl, rfl⟩
      exact ⟨hsame.name, hsame.primaryKey, hsame.keys⟩

end SqlDialect
