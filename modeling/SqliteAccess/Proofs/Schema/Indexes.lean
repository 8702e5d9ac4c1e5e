import SqliteAccess.Proofs.Schema.Calling
import SqliteAccess.Proofs.Schema.Creation

/-!
Statements about indexes read back. Their tables and columns are written in quotes and the names of the
indexes are not, so whether a statement reads back is up to the name of its index alone: it does exactly
when the name is a word.
-/

namespace SqliteAccess.Schema

open Sql (Lexeme Flavour Writer Scans lexemes? isQuote unquoted)
open Sql.Identifier (Parts doubled)
open Sql.Lexeme (bares after? readName Ends scan)

/-- What the text of a statement about an index tells. -/
inductive IndexStatement where
  | create (unique : Bool) (name : List Char) (table : Parts) (columns : List Parts)
  | drop (name : List Char)
deriving DecidableEq, Repr

namespace IndexStatement

def name : IndexStatement → List Char
  | create _ name _ _ => name
  | drop name => name

/-- What a command asks for. -/
def of? (parts : String → Parts) (b : Blueprint) : Command → Option IndexStatement
  | .unique i columns => some (create true i.toList (parts b.table) (columns.map parts))
  | .index i columns => some (create false i.toList (parts b.table) (columns.map parts))
  | .dropUnique i => some (drop i.toList)
  | .dropIndex i => some (drop i.toList)
  | _ => none

end IndexStatement

def isWordStart (c : Char) : Bool := c.isAlpha || c = '_' || 128 ≤ c.toNat

def isWordSign (c : Char) : Bool := isWordStart c || c.isDigit || c = '$'

/-- Outside of quotes an identifier is a word that is not reserved. -/
def isIdentifier (reserved : List Char → Bool) (s : List Char) : Bool :=
  s.head?.any isWordStart && s.all isWordSign && !reserved s

def readWord : List Lexeme → List Char × List Lexeme
  | .bare c :: ts =>
    if isWordSign c then
      let (w, r) := readWord ts
      (c :: w, r)
    else ([], .bare c :: ts)
  | ts => ([], ts)

section Reading

variable (reserved : List Char → Bool)

def readIdentifier : List Lexeme → Option (List Char × List Lexeme)
  | .name s :: ts => some (s, ts)
  | ts =>
    let (w, r) := readWord ts
    if isIdentifier reserved w then some (w, r) else none

def readCreated (unique : Bool) (ts : List Lexeme) : Option IndexStatement := do
  let (i, r) ← readIdentifier reserved ts
  let (table, r) ← readName (← after? " on " r)
  let (columns, r) ← readKey (← after? " (" r)
  if r = [] then some (.create unique i table columns) else none

def readDropped (ts : List Lexeme) : Option IndexStatement := do
  let (i, r) ← readIdentifier reserved ts
  if r = [] then some (.drop i) else none

/-- One identifier stands between the keywords, the table and the columns, and nothing follows. -/
def readIndex (s : String) : Option IndexStatement := do
  let ts ← lexemes? s
  match after? "create unique index " ts, after? "create index " ts, after? "drop index " ts with
  | some r, _, _ => readCreated reserved true r
  | none, some r, _ => readCreated reserved false r
  | none, none, some r => readDropped reserved r
  | none, none, none => none

end Reading

variable {reserved : List Char → Bool}

def Breaks (s : List Char) : Prop := ∀ c ∈ s.head?, isWordSign c = false ∧ isQuote c = false

theorem readWord_append {w : List Char} (hw : w.all isWordSign = true) {ts : List Lexeme}
    (hts : ∀ c r, ts = .bare c :: r → isWordSign c = false) : readWord (w.map .bare ++ ts) = (w, ts) := by
  induction w with
  | nil =>
    cases ts with
    | nil => rfl
    | cons t ts =>
      cases t with
      | bare c => simp [readWord, hts c ts rfl]
      | name _ => rfl
      | literal _ => rfl
  | cons c w ih =>
    rw [List.all_cons, Bool.and_eq_true] at hw
    simp [readWord, hw.1, ih hw.2]

theorem readIdentifier_append {i : List Char} (h : isIdentifier reserved i = true) {ts : List Lexeme}
    (hts : ∀ c r, ts = .bare c :: r → isWordSign c = false) :
    readIdentifier reserved (i.map .bare ++ ts) = some (i, ts) := by
  have hword := h
  simp only [isIdentifier, Bool.and_eq_true] at hword
  have hread := readWord_append hword.1.2 hts
  cases i with
  | nil => simp at hword
  | cons c i =>
    rw [List.map_cons, List.cons_append] at hread ⊢
    simp only [readIdentifier, hread, h, if_true]

theorem readIdentifier_cases {ts r : List Lexeme} {i : List Char}
    (h : readIdentifier reserved ts = some (i, r)) :
    ts = .name i :: r ∨ isIdentifier reserved i = true := by
  unfold readIdentifier at h
  split at h
  next => cases h; exact .inl rfl
  next =>
    dsimp only at h
    split at h
    next hi => cases h; exact .inr hi
    next => cases h

def leadingQuotes (s : List Char) : Nat := (s.takeWhile (· = '"')).length

theorem leadingQuotes_append {s tail : List Char} (h : tail.head? ≠ some '"') :
    leadingQuotes (s ++ tail) = leadingQuotes s := by
  induction s with
  | nil =>
    cases tail with
    | nil => rfl
    | cons c tail =>
      have hc : c ≠ '"' := by simpa using h
      simp [leadingQuotes, hc]
  | cons c s ih =>
    by_cases hc : c = '"'
    · simpa [leadingQuotes, hc] using ih
    · simp [leadingQuotes, hc]

theorem leadingQuotes_doubled_ge (s rest : List Char) :
    2 * leadingQuotes s ≤ leadingQuotes (doubled '"' s ++ rest) := by
  induction s with
  | nil => exact Nat.zero_le _
  | cons c s ih =>
    by_cases hc : c = '"'
    · simp only [leadingQuotes, doubled, hc, if_true, List.cons_append, List.takeWhile_cons, decide_true,
        List.length_cons] at ih ⊢
      omega
    · simp [leadingQuotes, hc]

theorem scan_ne_name {i tail : List Char} (ht : Breaks tail) (r : List Lexeme) :
    scan .outside (i ++ tail) ≠ some (.name i :: r) := by
  intro h
  cases i with
  | nil =>
    cases tail with
    | nil => cases h
    | cons c tail =>
      have hc := (ht c rfl).2
      simp [scan, hc] at h
  | cons c i =>
    rw [List.cons_append, scan] at h
    split at h
    next hq =>
      obtain ⟨t, rest, ts, htext, -, hts⟩ := Lexeme.scan_inside_eq_some [] _ h
      rw [List.nil_append, Lexeme.quoted] at hts
      split at hts
      next hc =>
        cases hts
        subst hc
        have htail : tail.head? ≠ some '"' := by
          intro he
          have hb := (ht '"' he).2
          simp [isQuote] at hb
        have hlead := congrArg (fun s => leadingQuotes ('"' :: s)) htext
        have hge := leadingQuotes_doubled_ge ('"' :: i) ('"' :: rest)
        have heq := leadingQuotes_append (s := '"' :: i) htail
        simp only [leadingQuotes, List.cons_append, List.takeWhile_cons, decide_true, if_true,
          List.length_cons] at hlead hge heq
        omega
      next => cases hts
    next =>
      obtain ⟨ts, -, hts⟩ := Option.map_eq_some_iff.mp h
      cases hts

theorem readIdentifier_scan {i tail : List Char} (ht : Breaks tail) {ts r : List Lexeme}
    (hts : scan .outside (i ++ tail) = some ts) (h : readIdentifier reserved ts = some (i, r)) :
    isIdentifier reserved i = true := by
  rcases readIdentifier_cases h with rfl | hi
  · exact absurd hts (scan_ne_name ht r)
  · exact hi

def createWords (unique : Bool) : String :=
  if unique then "create unique index " else "create index "

def indexTail (w : Writer) (table : String) (columns : List String) : List Char :=
  " on ".toList ++ ((w.wrap table).toList ++ (" (".toList ++ ((w.columnize columns).toList ++ [')'])))

theorem indexOn_toList (w : Writer) (b : Blueprint) (unique : Bool) (i : String) (columns : List String) :
    (indexOn w b (createWords unique) i columns).toList =
      (createWords unique).toList ++ (i.toList ++ indexTail w b.table columns) := by
  simp only [indexOn, indexTail, String.toList_append, List.append_assoc]
  rfl

theorem breaks_indexTail (w : Writer) (table : String) (columns : List String) :
    Breaks (indexTail w table columns) := by
  rintro c ⟨⟩
  decide

theorem scans_indexTail (w : Writer) (table : String) (columns : List String) :
    Scans (indexTail w table columns) (bares " on " ++ ((partsOf table).lexemes w.flavour ++
      (bares " (" ++ (nameLexemes w.flavour (columns.map partsOf) ++ [.bare ')'])))) := by
  have hclose : Scans [')'] [.bare ')'] := Scans.bare (by decide)
  have hcolumns := (Sql.scans_columnize w.flavour columns).append hclose (Sql.apart_cons rfl _)
  have hopen := Scans.bare_append (b := " (".toList) (by decide) hcolumns
  have htable := (scans_name w table).append hopen (Sql.apart_cons rfl _)
  have h := Scans.bare_append (b := " on ".toList) (by decide) htable
  simpa [indexTail, nameLexemes, partsOf, Function.comp_def, bares, Writer.columnize] using h

theorem lexemes?_append {words : String} (hwords : unquoted words.toList = true) {text : String}
    {rest : List Char} (htext : text.toList = words.toList ++ rest) :
    lexemes? text = (scan .outside rest).map (bares words ++ ·) := by
  rw [lexemes?, htext, Lexeme.scan_bare hwords]
  rfl

theorem unquoted_of_isIdentifier {i : List Char} (h : isIdentifier reserved i = true) : unquoted i = true := by
  simp only [isIdentifier, Bool.and_eq_true] at h
  refine List.all_eq_true.mpr fun c hc => ?_
  have hsign := List.all_eq_true.mp h.1.2 c hc
  have hdouble : c ≠ '"' := by
    rintro rfl
    exact absurd hsign (by decide)
  have hsingle : c ≠ '\'' := by
    rintro rfl
    exact absurd hsign (by decide)
  simp [isQuote, hdouble, hsingle]

theorem readIndex_created (unique : Bool) {text : String} {rest : List Char}
    (htext : text.toList = (createWords unique).toList ++ rest) :
    readIndex reserved text = (scan .outside rest).bind (readCreated reserved unique) := by
  have hwords : unquoted (createWords unique).toList = true := by cases unique <;> decide
  rw [readIndex, lexemes?_append hwords htext]
  cases scan .outside rest with
  | none => rfl
  | some ts =>
    cases unique with
    | true =>
      have h : after? "create unique index " (bares (createWords true) ++ ts) = some ts :=
        Lexeme.after?_bares "create unique index " ts
      simp [h]
    | false =>
      have h : after? "create index " (bares (createWords false) ++ ts) = some ts :=
        Lexeme.after?_bares "create index " ts
      have hno : after? "create unique index " (bares (createWords false) ++ ts) = none := rfl
      simp [h, hno]

theorem readIndex_dropped {text : String} {rest : List Char}
    (htext : text.toList = "drop index ".toList ++ rest) :
    readIndex reserved text = (scan .outside rest).bind (readDropped reserved) := by
  rw [readIndex, lexemes?_append (by decide) htext]
  cases scan .outside rest with
  | none => rfl
  | some ts =>
    have h := Lexeme.after?_bares "drop index " ts
    have hno : after? "create unique index " (bares "drop index " ++ ts) = none := rfl
    have hnot : after? "create index " (bares "drop index " ++ ts) = none := rfl
    simp [h, hno, hnot]

theorem readCreated_cases {unique : Bool} {ts : List Lexeme} {i : List Char} {table : Parts}
    {columns : List Parts} (h : readCreated reserved unique ts = some (.create unique i table columns)) :
    ∃ r, readIdentifier reserved ts = some (i, r) := by
  simp only [readCreated, Option.bind_eq_bind, Option.bind_eq_some_iff] at h
  obtain ⟨⟨i', r⟩, hi, r₁, -, ⟨table', r₂⟩, -, r₃, -, ⟨columns', r₄⟩, -, h⟩ := h
  split at h
  next =>
    cases h
    exact ⟨r, hi⟩
  next => cases h

theorem readDropped_cases {ts : List Lexeme} {i : List Char} (h : readDropped reserved ts = some (.drop i)) :
    ∃ r, readIdentifier reserved ts = some (i, r) := by
  simp only [readDropped, Option.bind_eq_bind, Option.bind_eq_some_iff] at h
  obtain ⟨⟨i', r⟩, hi, h⟩ := h
  split at h
  next =>
    cases h
    exact ⟨r, hi⟩
  next => cases h

theorem readCreated_eq (unique : Bool) {i : List Char} (hi : isIdentifier reserved i = true) (f : Flavour)
    (table : String) (columns : List String) :
    readCreated reserved unique (i.map .bare ++ (bares " on " ++ ((partsOf table).lexemes f ++
        (bares " (" ++ (nameLexemes f (columns.map partsOf) ++ [.bare ')']))))) =
      some (.create unique i (partsOf table) (columns.map partsOf)) := by
  have hbreak : ∀ ts c r, bares " on " ++ ts = .bare c :: r → isWordSign c = false := by
    rintro ts c r h
    cases h
    decide
  have hends : ∀ ts, Ends (bares " (" ++ ts) := fun ts =>
    ⟨by simp [bares], by simp [after?, bares, Lexeme.strip]⟩
  rw [readCreated, readIdentifier_append hi (hbreak _)]
  simp only [Option.bind_eq_bind, Option.bind_some, Lexeme.after?_bares]
  rw [partsOf, Lexeme.readName_append f _ (hends _)]
  simp only [Option.bind_some, Lexeme.after?_bares, readKey_append, if_true]

theorem readIndex_indexOn_iff (w : Writer) (b : Blueprint) (unique : Bool) (i : String)
    (columns : List String) :
    readIndex reserved (indexOn w b (createWords unique) i columns) =
        some (.create unique i.toList (partsOf b.table) (columns.map partsOf)) ↔
      isIdentifier reserved i.toList = true := by
  rw [readIndex_created unique (indexOn_toList w b unique i columns)]
  refine ⟨fun h => ?_, fun hi => ?_⟩
  · obtain ⟨ts, hts, h⟩ := Option.bind_eq_some_iff.mp h
    obtain ⟨r, hr⟩ := readCreated_cases h
    exact readIdentifier_scan (breaks_indexTail w b.table columns) hts hr
  · rw [Lexeme.scan_bare (unquoted_of_isIdentifier hi), (scans_indexTail w b.table columns).scan_eq]
    exact readCreated_eq unique hi w.flavour b.table columns

theorem readIndex_drop_iff (i : String) : readIndex reserved ("drop index " ++ i) = some (.drop i.toList) ↔
    isIdentifier reserved i.toList = true := by
  have htext : ("drop index " ++ i).toList = "drop index ".toList ++ (i.toList ++ []) := by
    rw [String.toList_append, List.append_nil]
  rw [readIndex_dropped htext]
  refine ⟨fun h => ?_, fun hi => ?_⟩
  · obtain ⟨ts, hts, h⟩ := Option.bind_eq_some_iff.mp h
    obtain ⟨r, hr⟩ := readDropped_cases h
    have hend : Breaks [] := nofun
    exact readIdentifier_scan hend hts hr
  · have hread : readIdentifier reserved (i.toList.map .bare ++ []) = some (i.toList, []) :=
      readIdentifier_append hi nofun
    rw [List.append_nil] at hread
    rw [Lexeme.scan_bare (unquoted_of_isIdentifier hi)]
    simp [scan, readDropped, hread]

theorem lowercase_ascii {s before : List Char} (h : ∀ c ∈ s, c.toNat < 128) :
    Text.Lowercase.chars before s = s.map Char.toLower := by
  induction s generalizing before with
  | nil => rfl
  | cons c s ih =>
    rw [List.forall_mem_cons] at h
    have hsigma : c.toNat ≠ 0x3a3 := by omega
    simp [Text.Lowercase.chars, Text.Lowercase.char, hsigma, h.1, ih h.2]

/-- A sign that a made-up name keeps, or has an underscore for. -/
def isPlainSign (c : Char) : Bool := c.isAlphanum || c = '_' || c = '-' || c = '.'

theorem toNat_lt_of_isPlainSign {c : Char} (h : isPlainSign c = true) : c.toNat < 128 := by
  have hnat : ∀ d : Char, c.val ≤ d.val → c.toNat ≤ d.toNat := fun d hd => UInt32.le_iff_toNat_le.mp hd
  delta isPlainSign Char.isAlphanum Char.isAlpha Char.isUpper Char.isLower Char.isDigit at h
  simp only [Bool.or_eq_true, Bool.and_eq_true, decide_eq_true_eq] at h
  rcases h with ((((⟨-, h⟩ | ⟨-, h⟩) | ⟨-, h⟩) | rfl) | rfl) | rfl
  · exact Nat.lt_of_le_of_lt (hnat 'Z' h) (by decide)
  · exact Nat.lt_of_le_of_lt (hnat 'z' h) (by decide)
  · exact Nat.lt_of_le_of_lt (hnat '9' h) (by decide)
  all_goals decide

theorem underscored_toLower {c : Char} (h : isPlainSign c = true) :
    isWordSign (Blueprint.underscored c.toLower) = true ∧
      (c.isDigit = false → isWordStart (Blueprint.underscored c.toLower) = true) := by
  have hall : ∀ n < 128, isPlainSign (Char.ofNat n) = true →
      isWordSign (Blueprint.underscored (Char.ofNat n).toLower) = true ∧
        ((Char.ofNat n).isDigit = false →
          isWordStart (Blueprint.underscored (Char.ofNat n).toLower) = true) := by
    decide +kernel
  have hc := hall c.toNat (toNat_lt_of_isPlainSign h)
  rw [Char.ofNat_toNat] at hc
  exact hc h

theorem isIdentifier_indexName {b : Blueprint} {kind : String} {columns : List String}
    (hplain : ∀ s ∈ b.table :: columns ++ [kind], s.toList.all isPlainSign = true)
    (hfirst : ∀ c ∈ b.table.toList.head?, c.isDigit = false)
    (hfree : reserved (b.indexName kind columns).toList = false) :
    isIdentifier reserved (b.indexName kind columns).toList = true := by
  have hjoined : ∀ c ∈ (String.intercalate "_" (b.table :: columns ++ [kind])).toList, isPlainSign c = true := by
    rw [String.toList_intercalate]
    refine Sql.forall_mem_intercalate ?_ fun x hx => ?_
    · exact List.all_eq_true.mp (by decide)
    · obtain ⟨s, hs, rfl⟩ := List.mem_map.mp hx
      exact List.all_eq_true.mp (hplain s hs)
  have hname : (b.indexName kind columns).toList =
      (String.intercalate "_" (b.table :: columns ++ [kind])).toList.map
        fun c => Blueprint.underscored c.toLower := by
    simp only [Blueprint.indexName, Text.lowercase, String.toList_ofList]
    rw [lowercase_ascii fun c hc => toNat_lt_of_isPlainSign (hjoined c hc), List.map_map]
    rfl
  -- An underscore follows the table, so that a name begins with one where the table has no name.
  obtain ⟨s, ss, hss⟩ :=
    List.exists_cons_of_ne_nil (List.append_ne_nil_of_right_ne_nil columns (List.cons_ne_nil kind []))
  have hsplit : (String.intercalate "_" (b.table :: columns ++ [kind])).toList =
      b.table.toList ++ '_' :: (String.intercalate "_" (s :: ss)).toList := by
    rw [List.cons_append, hss, String.toList_intercalate, String.toList_intercalate, List.map_cons, List.map_cons,
      List.intercalate_cons_cons, List.append_assoc]
    rfl
  have hsigns : (b.indexName kind columns).toList.all isWordSign = true := by
    rw [hname, List.all_map]
    exact List.all_eq_true.mpr fun c hc => (underscored_toLower (hjoined c hc)).1
  have hstart : (b.indexName kind columns).toList.head?.any isWordStart = true := by
    rw [hname, hsplit]
    cases ht : b.table.toList with
    | nil => rfl
    | cons c cs =>
      have hc : isPlainSign c = true := hjoined c (by rw [hsplit, ht]; exact List.mem_cons_self)
      exact (underscored_toLower hc).2 (hfirst c (by rw [ht]; rfl))
  simp [isIdentifier, hsigns, hstart, hfree]

theorem mem_statementsOf {w : Writer} {b : Blueprint} {cs : List Command} {c : Command} (hc : c ∈ cs)
    {text : String} (htext : compile w b c = .ok (.single text)) {ss : List Sql.Statement}
    (h : statementsOf w b cs = .ok ss) : ⟨text, []⟩ ∈ ss := by
  induction cs generalizing ss with
  | nil => cases hc
  | cons d ds ih =>
    obtain ⟨compiled, hd, h⟩ := of_bind_eq_ok h
    obtain ⟨rest, hrest, h⟩ := of_bind_eq_ok h
    cases h
    rw [List.mem_append]
    rcases List.mem_cons.mp hc with rfl | hc
    · cases hd.symm.trans htext
      exact .inl List.mem_cons_self
    · exact .inr (ih hc hrest)

theorem index_statement (w : Writer) (b : Blueprint) {c : Command} {x : IndexStatement}
    (hx : IndexStatement.of? partsOf b c = some x) : ∃ text, compile w b c = .ok (.single text) ∧
      (readIndex reserved text = some x ↔ isIdentifier reserved x.name = true) := by
  cases c with
  | unique i columns =>
    cases hx
    exact ⟨_, rfl, readIndex_indexOn_iff w b true i columns⟩
  | index i columns =>
    cases hx
    exact ⟨_, rfl, readIndex_indexOn_iff w b false i columns⟩
  | dropUnique i | dropIndex i =>
    cases hx
    exact ⟨_, rfl, readIndex_drop_iff i⟩
  | createTable | addColumns | foreign | primary | rename | dropTable | dropTableIfExists | dropColumn | unknown =>
    cases hx

/-- The statement of a command about an index is one of the table's, and whatever the table and the columns
are called it reads back as the command, with the name of the index as one identifier, exactly when this
name is an identifier as it is. A name that is made up from plain signs is one. -/
theorem index_reads_back_iff (w : Writer) (reserved : List Char → Bool) (table : String) (cs : List Call) :
    (∃ parts : String → Parts, (∀ s n, Parts.Of s.toList n ↔ n = parts s) ∧
      ∀ c ∈ (Blueprint.ofCalls table cs).commands, ∀ x,
        IndexStatement.of? parts (Blueprint.ofCalls table cs) c = some x → ∃ text,
          compile w (Blueprint.ofCalls table cs) c = .ok (.single text) ∧
            (∀ ss, toSql w (Blueprint.ofCalls table cs) = .ok ss → ⟨text, []⟩ ∈ ss) ∧
            (readIndex reserved text = some x ↔ isIdentifier reserved x.name = true)) ∧
    ∀ kind columns, (∀ s ∈ table :: columns ++ [kind], s.toList.all isPlainSign = true) →
      (∀ c ∈ table.toList.head?, c.isDigit = false) →
      reserved ((Blueprint.ofCalls table cs).indexName kind columns).toList = false →
      isIdentifier reserved ((Blueprint.ofCalls table cs).indexName kind columns).toList = true := by
  refine ⟨⟨partsOf, fun _ _ => Parts.of_iff, fun c hc x hx => ?_⟩, fun kind columns hplain hfirst hfree => ?_⟩
  · obtain ⟨text, htext, hread⟩ := index_statement w _ hx
    exact ⟨text, htext, fun ss hss => mem_statementsOf hc htext hss, hread⟩
  · refine isIdentifier_indexName ?_ ?_ hfree
    · rwa [Blueprint.ofCalls_table]
    · rwa [Blueprint.ofCalls_table]

def namedIndex : List Call :=
  [{ method := .index, positional := [.text "b\", c"], named := [("name", .text "by_b")] }]

theorem index_reads_back_iff_named :
    Command.index "by_b" ["b\", c"] ∈ (Blueprint.ofCalls "a on (b" namedIndex).commands ∧
      readIndex (fun _ => false) "create index by_b on \"a on (b\" (\"b\"\", c\")" =
        some (.create false "by_b".toList (partsOf "a on (b") [partsOf "b\", c"]) ∧
      isIdentifier (fun _ => false)
        ((Blueprint.ofCalls "main.users" []).indexName "index" ["e-mail"]).toList = true := by
  have hcommands : Command.index "by_b" ["b\", c"] ∈ (Blueprint.ofCalls "a on (b" namedIndex).commands := by
    decide +kernel
  obtain ⟨⟨parts, hparts, hread⟩, -⟩ := index_reads_back_iff {} (fun _ => false) "a on (b" namedIndex
  have heq : parts = partsOf := funext fun s => ((hparts s _).mp (Parts.of_iff.mpr rfl)).symm
  rw [heq] at hread
  obtain ⟨text, htext, -, hiff⟩ := hread _ hcommands _ rfl
  have hname : "create index by_b on \"a on (b\" (\"b\"\", c\")" = text := by
    cases htext
    decide +kernel
  rw [← hname] at hiff
  have hfirst : ∀ c ∈ "main.users".toList.head?, c.isDigit = false := fun c hc => by
    obtain rfl : 'm' = c := Option.some.inj hc
    rfl
  have hmade := (index_reads_back_iff {} (fun _ => false) "main.users" []).2 "index" ["e-mail"]
    (by decide) hfirst rfl
  exact ⟨hcommands, hiff.mpr (by decide +kernel), hmade⟩

def unnamedIndex : List Call := [{ method := .index, positional := [.text "first name"] }]

/-- The blank goes into the name of the index and parts it in two. -/
theorem index_name_parted : (Blueprint.ofCalls "t" unnamedIndex).commands =
      [.index "t_first name_index" ["first name"]] ∧
    toSql {} (Blueprint.ofCalls "t" unnamedIndex) =
      .ok [⟨"create index t_first name_index on \"t\" (\"first name\")", []⟩] ∧
    readIndex (fun _ => false) "create index t_first name_index on \"t\" (\"first name\")" = none := by
  refine ⟨by decide +kernel, ?_, by decide +kernel⟩
  rfl

end SqliteAccess.Schema
