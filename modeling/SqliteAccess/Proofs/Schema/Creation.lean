import SqliteAccess.Schema.Definition
import SqliteAccess.Proofs.Sql.Naming

/-!
Tables read back from the statements that create them: the clauses between the commas that stand in no
inner brackets and in no quotes are those of the description, one by one and in order.
-/

namespace SqliteAccess.Schema

open Sql (Lexeme Flavour Writer Scans Apart lexemes? unquoted)
open Sql.Identifier (Parts)
open Sql.Lexeme (bares after? readName readNames Ends)

/-- What one part of the body of a table says. -/
inductive Clause where
  | column (name : Parts) (type : String) (nullable : Bool) (default : Option (List Char))
      (increments : Bool)
  | foreign (columns : List Parts) (on : Parts) (references : List Parts)
  | primary (columns : List Parts)
deriving DecidableEq, Repr

namespace Clause

def plainDefault : Value → Option (List Char)
  | .null => none
  | .bool b => some [if b then '1' else '0']
  | v => some v.asText.toList

variable (parts : String → Parts)

def ofColumn (c : Column) : Clause :=
  column (parts c.name) c.type.sqlName c.nullable (plainDefault c.default)
    (c.type = .integer && c.autoIncrement)

def ofForeign? : Command → Option Clause
  | .foreign _ columns on references =>
    some (foreign (columns.map parts) (parts on) (references.map parts))
  | _ => none

def ofPrimary? : Command → Option Clause
  | .primary _ columns => some (primary (columns.map parts))
  | _ => none

/-- The columns, then the foreign keys, then the first primary key. -/
def ofBlueprint (b : Blueprint) : List Clause :=
  b.columns.map (ofColumn parts) ++ b.commands.filterMap (ofForeign? parts) ++
    (b.commands.findSome? (ofPrimary? parts)).toList

end Clause

def bodyItems (depth : Nat) (item : List Lexeme) : List Lexeme → Option (List (List Lexeme) × List Lexeme)
  | [] => none
  | t :: ts =>
    if t = .bare '(' then bodyItems (depth + 1) (item ++ [t]) ts
    else if t = .bare ')' then
      match depth with
      | 0 => some ([item], ts)
      | d + 1 => bodyItems d (item ++ [t]) ts
    else if t = .bare ',' ∧ depth = 0 then (bodyItems 0 [] ts).map fun (is, rest) => (item :: is, rest)
    else bodyItems depth (item ++ [t]) ts

def readKey (ts : List Lexeme) : Option (List Parts × List Lexeme) := do
  let ns ← readNames (ts.takeWhile (· ≠ .bare ')'))
  let rest ← after? ")" (ts.dropWhile (· ≠ .bare ')'))
  return (ns, rest)

def letter? : Lexeme → Option Char
  | .bare c => if c.isAlpha then some c else none
  | _ => none

def readType (ts : List Lexeme) : String × List Lexeme :=
  (String.ofList ((ts.takeWhile fun t => (letter? t).isSome).filterMap letter?),
    ts.dropWhile fun t => (letter? t).isSome)

def readNullability (ts : List Lexeme) : Option (Bool × List Lexeme) :=
  match after? " null" ts with
  | some r => some (true, r)
  | none => (after? " not null" ts).map fun r => (false, r)

def readDefault (ts : List Lexeme) : Option (Option (List Char) × List Lexeme) :=
  match after? " default " ts with
  | none => some (none, ts)
  | some (.literal d :: r) => some (some d, r)
  | some _ => none

def readIncrements (ts : List Lexeme) : Option Bool :=
  if ts = [] then some false
  else if after? " primary key autoincrement" ts = some [] then some true
  else none

def readColumn (ts : List Lexeme) : Option Clause := do
  let (name, r) ← readName ts
  let r ← after? " " r
  let (type, r) := readType r
  let (nullable, r) ← readNullability r
  let (default, r) ← readDefault r
  let increments ← readIncrements r
  return .column name type nullable default increments

def readForeign (ts : List Lexeme) : Option Clause := do
  let (columns, r) ← readKey ts
  let (on, r) ← readName (← after? " references " r)
  let (references, r) ← readKey (← after? "(" r)
  if r = [] then some (.foreign columns on references) else none

def readPrimary (ts : List Lexeme) : Option Clause := do
  let (columns, r) ← readKey ts
  if r = [] then some (.primary columns) else none

def readClause (ts : List Lexeme) : Option Clause :=
  let ts := ts.dropWhile (· = .bare ' ')
  match after? "foreign key(" ts, after? "primary key (" ts with
  | some r, _ => readForeign r
  | none, some r => readPrimary r
  | none, none => readColumn ts

/-- The name of a table and all that its body says. Nothing may follow the body. -/
def readTable (s : String) : Option (Parts × List Clause) := do
  let ts ← lexemes? s
  let (table, r) ← readName (← after? "create table " ts)
  let (items, rest) ← bodyItems 0 [] (← after? " (" r)
  let clauses ← items.mapM readClause
  if rest = [] then some (table, clauses) else none

def bracketed (ts : List Lexeme) : List Lexeme := .bare '(' :: ts ++ [.bare ')']

def Passes (least : Nat) (ts : List Lexeme) : Prop :=
  ∀ depth item rest, least ≤ depth → bodyItems depth item (ts ++ rest) = bodyItems depth (item ++ ts) rest

namespace Passes

theorem nil (k : Nat) : Passes k [] := fun depth item rest _ => by simp

theorem append {k : Nat} {ts us : List Lexeme} (h : Passes k ts) (h' : Passes k us) :
    Passes k (ts ++ us) := by
  intro depth item rest hk
  rw [List.append_assoc, h _ _ _ hk, h' _ _ _ hk, List.append_assoc]

theorem enclosed {ts : List Lexeme} (h : Passes 1 ts) : Passes 0 (bracketed ts) := by
  intro depth item rest _
  have hin := h (depth + 1) (item ++ [.bare '(']) (.bare ')' :: rest) (by omega)
  simp only [bracketed, List.cons_append, List.append_assoc, List.nil_append, bodyItems, if_true, hin]
  simp

theorem inner {ts : List Lexeme} (h : ∀ t ∈ ts, t ≠ .bare '(' ∧ t ≠ .bare ')') : Passes 1 ts := by
  intro depth item rest hd
  induction ts generalizing item with
  | nil => simp
  | cons t ts ih =>
    rw [List.forall_mem_cons] at h
    have hrest := ih h.2 (item ++ [t])
    have hdepth : depth ≠ 0 := by omega
    simpa [bodyItems, h.1.1, h.1.2, hdepth] using hrest

theorem plain {ts : List Lexeme} (h : ∀ t ∈ ts, t ≠ .bare '(' ∧ t ≠ .bare ')' ∧ t ≠ .bare ',') :
    Passes 0 ts := by
  intro depth item rest _
  induction ts generalizing item with
  | nil => simp
  | cons t ts ih =>
    rw [List.forall_mem_cons] at h
    have hrest := ih h.2 (item ++ [t])
    simpa [bodyItems, h.1.1, h.1.2.1, h.1.2.2] using hrest

theorem bodyItems_intercalate {x : List Lexeme} {xs : List (List Lexeme)} (rest : List Lexeme)
    (hx : Passes 0 x) (hxs : ∀ y ∈ xs, Passes 0 y) :
    bodyItems 0 [] (List.intercalate [.bare ','] (x :: xs) ++ .bare ')' :: rest) =
      some (x :: xs, rest) := by
  induction xs generalizing x with
  | nil =>
    have h := hx 0 [] (.bare ')' :: rest) (Nat.zero_le _)
    simpa [bodyItems] using h
  | cons y ys ih =>
    rw [List.forall_mem_cons] at hxs
    have h := hx 0 [] (.bare ',' :: (List.intercalate [.bare ','] (y :: ys) ++ .bare ')' :: rest))
      (Nat.zero_le _)
    have hrest := ih hxs.1 hxs.2
    rw [List.intercalate_cons_cons, List.append_assoc, List.append_assoc, List.singleton_append, h]
    simp [bodyItems, hrest]

end Passes

def nameLexemes (f : Flavour) (ns : List Parts) : List Lexeme :=
  List.intercalate (bares ", ") (ns.map (Parts.lexemes f))

def defaultLexemes : Option (List Char) → List Lexeme
  | none => []
  | some d => bares " default " ++ [.literal d]

def incrementLexemes (increments : Bool) : List Lexeme :=
  if increments then bares " primary key autoincrement" else []

def Clause.lexemes (f : Flavour) : Clause → List Lexeme
  | column name type nullable default increments =>
    name.lexemes f ++ bares (" " ++ type ++ if nullable then " null" else " not null") ++
      defaultLexemes default ++ incrementLexemes increments
  | foreign columns on references =>
    bares "foreign key" ++ bracketed (nameLexemes f columns) ++ bares " references " ++ on.lexemes f ++
      bracketed (nameLexemes f references)
  | primary columns => bares "primary key " ++ bracketed (nameLexemes f columns)

/-- The parts of a name as its text gives them. -/
def partsOf (s : String) : Parts := Parts.of s.toList

theorem bare_of_mem_nameLexemes {f : Flavour} {ns : List Parts} {c : Char}
    (h : Lexeme.bare c ∈ nameLexemes f ns) : c ∈ [',', '*', '.', ' ', 'a', 's'] := by
  suffices ∀ t ∈ nameLexemes f ns, t = .bare c → c ∈ [',', '*', '.', ' ', 'a', 's'] from this _ h rfl
  refine Sql.forall_mem_intercalate ?_ fun x hx t ht he => ?_
  · intro t ht he
    have hc : c = ',' ∨ c = ' ' := by simpa [bares, he] using ht
    rcases hc with rfl | rfl <;> simp
  · obtain ⟨n, _, rfl⟩ := List.mem_map.mp hx
    subst he
    exact List.mem_cons_of_mem _ (Lexeme.bare_of_mem_lexemes ht)

theorem readKey_append (f : Flavour) (names : List String) (rest : List Lexeme) :
    readKey (nameLexemes f (names.map partsOf) ++ .bare ')' :: rest) =
      some (names.map partsOf, rest) := by
  have hout : ∀ t ∈ nameLexemes f (names.map partsOf), decide (t ≠ Lexeme.bare ')') = true := by
    intro t ht
    refine decide_eq_true fun he => ?_
    subst he
    exact absurd (bare_of_mem_nameLexemes ht) (by decide)
  have hnames : readNames (nameLexemes f (names.map partsOf)) = some (names.map partsOf) := by
    rw [nameLexemes, List.map_map]
    exact Lexeme.readNames_intercalate f names
  have hclose : after? ")" (.bare ')' :: rest) = some rest := Lexeme.after?_bares ")" rest
  rw [readKey, List.takeWhile_append_of_pos hout, List.dropWhile_append_of_pos hout]
  simp [hnames, hclose]

theorem readType_append {type : String} (h : ∀ c ∈ type.toList, c.isAlpha = true) {rest : List Lexeme}
    (hr : ∀ t ∈ rest.head?, letter? t = none) : readType (bares type ++ rest) = (type, rest) := by
  have hletter : ∀ t ∈ bares type, (letter? t).isSome = true := by
    intro t ht
    obtain ⟨c, hc, rfl⟩ := List.mem_map.mp ht
    simp [letter?, h c hc]
  have hc : ∀ c ∈ type.toList, (letter? ∘ Lexeme.bare) c = some c := fun c hc => by
    simp [letter?, h c hc]
  have hword : (bares type).filterMap letter? = type.toList := by
    rw [bares, List.filterMap_map, List.filterMap_congr hc, List.filterMap_some]
  rw [readType, List.takeWhile_append_of_pos hletter, List.dropWhile_append_of_pos hletter]
  cases rest with
  | nil => simp [hword]
  | cons t rest => simp [hr t rfl, hword]

theorem isAlpha_of_mem_sqlName {t : ColumnType} : ∀ c ∈ t.sqlName.toList, c.isAlpha = true := by
  refine List.all_eq_true.mp ?_
  cases t <;> decide

theorem ne_of_mem_sqlName {t : ColumnType} {c d : Char} (hc : c ∈ t.sqlName.toList) (hd : d.isAlpha = false) :
    c ≠ d := by
  rintro rfl
  cases (isAlpha_of_mem_sqlName c hc).symm.trans hd

theorem readNullability_append (nullable : Bool) (rest : List Lexeme) :
    readNullability (bares (if nullable then " null" else " not null") ++ rest) =
      some (nullable, rest) := by
  cases nullable with
  | true => simp [readNullability]
  | false =>
    have hnot : after? " null" (bares " not null" ++ rest) = none := by
      simp [after?, bares, Lexeme.strip]
    simp [readNullability, hnot]

theorem readDefault_append (d : Option (List Char)) (increments : Bool) :
    readDefault (defaultLexemes d ++ incrementLexemes increments) =
      some (d, incrementLexemes increments) := by
  cases d with
  | some d => simp [defaultLexemes, readDefault]
  | none => cases increments <;> rfl

theorem readIncrements_eq (increments : Bool) :
    readIncrements (incrementLexemes increments) = some increments := by
  cases increments <;> rfl

theorem after?_lexemes {s : String} {c : Char} {r : List Char} (hs : s.toList = c :: r) (hc : c ≠ '*')
    (f : Flavour) (n : String) (rest : List Lexeme) :
    after? s ((partsOf n).lexemes f ++ rest) = none := by
  obtain ⟨p, ts, hp⟩ := Lexeme.lexemes_eq_cons f n.toList
  have hne := Lexeme.pieceLexeme_ne (f := f) hc p
  rw [after?, hs, partsOf, hp, List.cons_append]
  cases h : Parts.pieceLexeme f p with
  | bare d =>
    have hd : c ≠ d := by
      rintro rfl
      exact hne h
    simp [Lexeme.strip, hd]
  | name => rfl
  | literal => rfl

theorem bares_append (s t : String) : bares (s ++ t) = bares s ++ bares t := by
  simp [bares]

theorem readColumn_ofColumn (f : Flavour) (c : Column) :
    readColumn ((Clause.ofColumn partsOf c).lexemes f) = some (Clause.ofColumn partsOf c) := by
  have hends : ∀ rest, Ends (bares " " ++ (bares c.type.sqlName ++ rest)) := by
    intro rest
    constructor
    · simp [bares]
    · cases c.type <;> simp [after?, bares, Lexeme.strip, ColumnType.sqlName]
  have hblank : ∀ rest, ∀ t ∈ (bares (if c.nullable then " null" else " not null") ++ rest).head?,
      letter? t = none := by
    rintro rest t ht
    have ht : Lexeme.bare ' ' = t := by
      cases h : c.nullable <;> simpa [h, bares] using ht
    rw [← ht]
    rfl
  simp only [Clause.ofColumn, Clause.lexemes, bares_append, List.append_assoc, readColumn]
  rw [partsOf, Lexeme.readName_append f _ (hends _)]
  simp only [Option.bind_eq_bind, Option.bind_some, Lexeme.after?_bares,
    readType_append isAlpha_of_mem_sqlName (hblank _), readNullability_append, readDefault_append,
    readIncrements_eq]
  rfl

theorem readForeign_eq (f : Flavour) (columns : List String) (on : String) (references : List String) :
    readForeign (nameLexemes f (columns.map partsOf) ++ .bare ')' :: (bares " references " ++
        ((partsOf on).lexemes f ++ bracketed (nameLexemes f (references.map partsOf))))) =
      some (.foreign (columns.map partsOf) (partsOf on) (references.map partsOf)) := by
  have hends : ∀ rest, Ends (.bare '(' :: rest) := fun rest => ⟨by simp, rfl⟩
  have hopen : ∀ rest, after? "(" (.bare '(' :: rest) = some rest := Lexeme.after?_bares "("
  have hon := Lexeme.readName_append f on.toList (hends (nameLexemes f (references.map partsOf) ++ [.bare ')']))
  rw [readForeign, readKey_append]
  simp only [Option.bind_eq_bind, Option.bind_some, Lexeme.after?_bares, bracketed, List.cons_append]
  rw [partsOf, hon]
  simp [hopen, readKey_append]

theorem readPrimary_eq (f : Flavour) (columns : List String) :
    readPrimary (nameLexemes f (columns.map partsOf) ++ [.bare ')']) =
      some (.primary (columns.map partsOf)) := by
  rw [readPrimary, readKey_append]
  rfl

theorem readClause_ofColumn (f : Flavour) (c : Column) :
    readClause ((Clause.ofColumn partsOf c).lexemes f) = some (Clause.ofColumn partsOf c) := by
  have hdrop : ((Clause.ofColumn partsOf c).lexemes f).dropWhile (· = .bare ' ') =
      (Clause.ofColumn partsOf c).lexemes f := by
    obtain ⟨p, ts, hp⟩ := Lexeme.lexemes_eq_cons f c.name.toList
    have hne : Parts.pieceLexeme f p ≠ .bare ' ' := Lexeme.pieceLexeme_ne (by decide) p
    simp [Clause.ofColumn, Clause.lexemes, partsOf, hp, hne]
  have hword : ∀ s : String, ∀ d r, s.toList = d :: r → d ≠ '*' →
      after? s ((Clause.ofColumn partsOf c).lexemes f) = none := by
    intro s d r hs hd
    simp only [Clause.ofColumn, Clause.lexemes, List.append_assoc]
    exact after?_lexemes hs hd f c.name _
  rw [readClause, hdrop]
  simp only [hword "foreign key(" _ _ rfl (by decide), hword "primary key (" _ _ rfl (by decide)]
  exact readColumn_ofColumn f c

theorem readClause_foreign (f : Flavour) (columns : List String) (on : String)
    (references : List String) :
    readClause ((Clause.foreign (columns.map partsOf) (partsOf on) (references.map partsOf)).lexemes f) =
      some (.foreign (columns.map partsOf) (partsOf on) (references.map partsOf)) := by
  have hlex : (Clause.foreign (columns.map partsOf) (partsOf on) (references.map partsOf)).lexemes f =
      bares "foreign key(" ++ (nameLexemes f (columns.map partsOf) ++ .bare ')' ::
        (bares " references " ++ ((partsOf on).lexemes f ++
          bracketed (nameLexemes f (references.map partsOf))))) := by
    simp [Clause.lexemes, bracketed, bares]
  have hdrop : ∀ rest, (bares "foreign key(" ++ rest).dropWhile (· = .bare ' ') =
      bares "foreign key(" ++ rest := fun rest => by simp [bares]
  rw [readClause, hlex, hdrop]
  simp only [Lexeme.after?_bares]
  exact readForeign_eq f columns on references

theorem readClause_primary (f : Flavour) (columns : List String) :
    readClause ((Clause.primary (columns.map partsOf)).lexemes f) =
      some (.primary (columns.map partsOf)) := by
  have hlex : (Clause.primary (columns.map partsOf)).lexemes f =
      bares "primary key (" ++ (nameLexemes f (columns.map partsOf) ++ [.bare ')']) := by
    simp [Clause.lexemes, bracketed, bares]
  have hdrop : ∀ rest, (bares "primary key (" ++ rest).dropWhile (· = .bare ' ') =
      bares "primary key (" ++ rest := fun rest => by simp [bares]
  have hword : ∀ rest, after? "foreign key(" (bares "primary key (" ++ rest) = none :=
    fun rest => by simp [after?, bares, Lexeme.strip]
  rw [readClause, hlex, hdrop]
  simp only [Lexeme.after?_bares, hword]
  exact readPrimary_eq f columns

theorem Clause.forall_mem_ofBlueprint {parts : String → Parts} {b : Blueprint} {P : Clause → Prop}
    (column : ∀ c, P (ofColumn parts c))
    (foreign : ∀ (columns : List String) on (references : List String),
      P (foreign (columns.map parts) (parts on) (references.map parts)))
    (primary : ∀ columns : List String, P (primary (columns.map parts))) : ∀ c ∈ ofBlueprint parts b, P c := by
  intro c h
  simp only [ofBlueprint, List.mem_append, List.mem_map, List.mem_filterMap, Option.mem_toList,
    or_assoc] at h
  rcases h with ⟨d, _, rfl⟩ | ⟨command, _, hc⟩ | hc
  · exact column d
  · cases command <;> cases hc
    exact foreign _ _ _
  · obtain ⟨command, _, hc⟩ := List.exists_of_findSome?_eq_some hc
    cases command <;> cases hc
    exact primary _

theorem Passes.lexemes (f : Flavour) {b : Blueprint} :
    ∀ c ∈ Clause.ofBlueprint partsOf b, Passes 0 (c.lexemes f) := by
  have hname : ∀ n : String, Passes 0 ((partsOf n).lexemes f) := by
    intro n
    refine plain fun t ht => ⟨?_, ?_, ?_⟩ <;> rintro rfl <;>
      exact absurd (Lexeme.bare_of_mem_lexemes ht) (by decide)
  have hkey : ∀ names : List String, Passes 0 (bracketed (nameLexemes f (names.map partsOf))) := by
    intro names
    refine enclosed (inner fun t ht => ⟨?_, ?_⟩) <;> rintro rfl <;>
      exact absurd (bare_of_mem_nameLexemes ht) (by decide)
  have hword : ∀ s : String, (s.toList.all fun c => c ≠ '(' && c ≠ ')' && c ≠ ',') → Passes 0 (bares s) := by
    intro s hs
    refine plain fun t ht => ?_
    obtain ⟨c, hc, rfl⟩ := List.mem_map.mp ht
    simpa [and_assoc] using List.all_eq_true.mp hs c hc
  refine Clause.forall_mem_ofBlueprint (fun c => ?_) (fun columns on references => ?_) fun columns => ?_
  · have htype : Passes 0 (bares (" " ++ c.type.sqlName ++ if c.nullable then " null" else " not null")) := by
      rw [bares_append, bares_append]
      refine ((hword " " (by decide)).append (plain fun t ht => ?_)).append (hword _ ?_)
      · obtain ⟨d, hd, rfl⟩ := List.mem_map.mp ht
        simp [ne_of_mem_sqlName hd (d := '(') rfl, ne_of_mem_sqlName hd (d := ')') rfl,
          ne_of_mem_sqlName hd (d := ',') rfl]
      · cases c.nullable <;> decide
    have hdefault : ∀ d, Passes 0 (defaultLexemes d) := by
      intro d
      cases d with
      | none => exact nil 0
      | some d => exact (hword _ (by decide)).append (plain (by simp))
    have hincrements : ∀ i, Passes 0 (incrementLexemes i) := by
      intro i
      cases i with
      | false => exact nil 0
      | true => exact hword _ (by decide)
    exact (((hname c.name).append htype).append (hdefault _)).append (hincrements _)
  · exact ((((hword _ (by decide)).append (hkey columns)).append (hword _ (by decide))).append
      (hname on)).append (hkey references)
  · exact (hword _ (by decide)).append (hkey columns)

theorem isNull_eq (v : Value) : v.isNull = (Clause.plainDefault v).isNone := by
  cases v <;> rfl

theorem defaultText_toList {v : Value} {d : List Char} (h : Clause.plainDefault v = some d) :
    (defaultText v).toList = Sql.Identifier.doubled '\'' d := by
  cases v with
  | null => cases h
  | bool b =>
    cases h
    cases b <;> rfl
  | _ =>
    cases h
    simp [defaultText]

variable {rest : List Char} {ts : List Lexeme}

theorem scans_default (c : Column) (h : Scans rest ts) (ha : Apart rest) :
    Scans (((defaultClause? c).getD "").toList ++ rest)
        (defaultLexemes (Clause.plainDefault c.default) ++ ts) ∧
      Apart (((defaultClause? c).getD "").toList ++ rest) := by
  rw [defaultClause?, isNull_eq]
  cases hd : Clause.plainDefault c.default with
  | none => exact ⟨by simpa [defaultLexemes] using h, by simpa using ha⟩
  | some d =>
    have hs := Scans.bare_append (b := " default ".toList) (by decide)
      ((Scans.quotedWith (q := '\'') rfl d).append h ha)
    constructor
    · simpa [defaultText_toList hd, defaultLexemes, bares, Lexeme.quoted,
        Sql.Identifier.quotedWith] using hs
    · simpa using Sql.apart_cons rfl _

theorem scans_increment (c : Column) :
    Scans ((incrementClause? c).getD "").toList (incrementLexemes (c.type = .integer && c.autoIncrement)) ∧
      Apart ((incrementClause? c).getD "").toList := by
  unfold incrementClause? incrementLexemes Column.increments
  split
  · exact ⟨Scans.bare (by decide), Sql.apart_cons rfl _⟩
  · exact ⟨Scans.nil, Sql.apart_nil⟩

theorem scans_name (w : Writer) (s : String) : Scans (w.wrap s).toList ((partsOf s).lexemes w.flavour) :=
  Sql.scans_wrap w.flavour s

theorem scans_columnDefinition (w : Writer) (c : Column) :
    Scans (columnDefinition w c).toList ((Clause.ofColumn partsOf c).lexemes w.flavour) := by
  have hi := scans_increment c
  have hd := scans_default c hi.1 hi.2
  have hbare : unquoted (" " ++ c.type.sqlName ++ nullability c).toList = true := by
    rw [String.toList_append, String.toList_append, unquoted, List.all_append, List.all_append,
      Bool.and_eq_true, Bool.and_eq_true]
    refine ⟨⟨by decide, List.all_eq_true.mpr fun d hd => ?_⟩, ?_⟩
    · simp [Sql.isQuote, ne_of_mem_sqlName hd (d := '"') rfl, ne_of_mem_sqlName hd (d := '\'') rfl]
    · unfold nullability
      cases c.nullable <;> decide
  have hr := Scans.bare_append hbare hd.1
  have ha : Apart ((" " ++ c.type.sqlName ++ nullability c).toList ++
      (((defaultClause? c).getD "").toList ++ ((incrementClause? c).getD "").toList)) := by
    simpa using Sql.apart_cons rfl _
  have h := (scans_name w c.name).append hr ha
  simpa [columnDefinition, Clause.ofColumn, Clause.lexemes, bares, nullability] using h

theorem scans_key (w : Writer) (columns : List String) (h : Scans rest ts) :
    Scans (('(' :: (w.columnize columns).toList ++ [')']) ++ rest)
      (bracketed (nameLexemes w.flavour (columns.map partsOf)) ++ ts) := by
  have hr := Scans.bare_append (b := [')']) (by decide) h
  have hc := (Sql.scans_columnize w.flavour columns).append hr (Sql.apart_cons rfl _)
  have ho := Scans.bare_append (b := ['(']) (by decide) hc
  simpa [Writer.columnize, bracketed, nameLexemes, partsOf, Function.comp_def] using ho

theorem foreignKeyClause_toList (w : Writer) (index : String) (columns : List String) (on : String)
    (references : List String) :
    (foreignKeyClause w (.foreign index columns on references)).toList =
      ", foreign key".toList ++ (('(' :: (w.columnize columns).toList ++ [')']) ++
        (" references ".toList ++ ((w.wrap on).toList ++
          ('(' :: (w.columnize references).toList ++ [')'])))) := by
  unfold foreignKeyClause
  simp

theorem scans_foreignKeyClause (w : Writer) (c : Command) :
    Scans (foreignKeyClause w c).toList
        ((Clause.ofForeign? partsOf c).toList.flatMap fun c => bares ", " ++ c.lexemes w.flavour) ∧
      Apart (foreignKeyClause w c).toList := by
  cases c with
  | foreign index columns on references =>
    have hr := scans_key w references Scans.nil
    have hon := (scans_name w on).append hr (Sql.apart_cons rfl _)
    have hk := Scans.bare_append (b := " references ".toList) (by decide) hon
    have hc := scans_key w columns hk
    have h := Scans.bare_append (b := ", foreign key".toList) (by decide) hc
    have hlex : ((Clause.ofForeign? partsOf (.foreign index columns on references)).toList.flatMap
        fun c => bares ", " ++ c.lexemes w.flavour) =
        bares ", foreign key" ++ (bracketed (nameLexemes w.flavour (columns.map partsOf)) ++
          (bares " references " ++ ((partsOf on).lexemes w.flavour ++
            (bracketed (nameLexemes w.flavour (references.map partsOf)) ++ [])))) := by
      simp [Clause.ofForeign?, Clause.lexemes, bares]
    rw [foreignKeyClause_toList, hlex]
    exact ⟨by simpa [bares] using h, Sql.apart_cons rfl _⟩
  | _ => exact ⟨Scans.nil, Sql.apart_nil⟩

theorem scans_primaryKey (w : Writer) (b : Blueprint) :
    Scans (primaryKey w b).toList
        ((b.commands.findSome? (Clause.ofPrimary? partsOf)).toList.flatMap
          fun c => bares ", " ++ c.lexemes w.flavour) ∧
      Apart (primaryKey w b).toList := by
  unfold primaryKey
  induction b.commands with
  | nil => exact ⟨Scans.nil, Sql.apart_nil⟩
  | cons c cs ih =>
    cases c with
    | primary index columns =>
      have h := Scans.bare_append (b := ", primary key ".toList) (by decide) (scans_key w columns Scans.nil)
      have htext : ((primaryKeyClause? w (.primary index columns)).getD "").toList =
          ", primary key ".toList ++ (('(' :: (w.columnize columns).toList ++ [')']) ++ []) := by
        simp [primaryKeyClause?]
      have hlex : ((Clause.ofPrimary? partsOf (.primary index columns)).toList.flatMap
          fun c => bares ", " ++ c.lexemes w.flavour) =
          bares ", primary key " ++ (bracketed (nameLexemes w.flavour (columns.map partsOf)) ++ []) := by
        simp [Clause.ofPrimary?, Clause.lexemes, bares]
      change Scans ((primaryKeyClause? w (.primary index columns)).getD "").toList
          ((Clause.ofPrimary? partsOf (.primary index columns)).toList.flatMap _) ∧
        Apart ((primaryKeyClause? w (.primary index columns)).getD "").toList
      rw [htext, hlex]
      exact ⟨h, Sql.apart_cons rfl _⟩
    | _ => exact ih

theorem intercalate_append_flatMap {α : Type} (sep x : List α) (xs ys : List (List α)) :
    List.intercalate sep (x :: xs) ++ ys.flatMap (sep ++ ·) = List.intercalate sep (x :: xs ++ ys) := by
  have hcons : ∀ (x : List α) (xs : List (List α)),
      List.intercalate sep (x :: xs) = x ++ xs.flatMap (sep ++ ·) := by
    intro x xs
    induction xs generalizing x with
    | nil => simp
    | cons y ys ih => simp [List.intercalate_cons_cons, ih]
  rw [List.cons_append, hcons, hcons, List.flatMap_append, List.append_assoc]

theorem createTable_toList (w : Writer) (b : Blueprint) :
    (createTable w b).toList = "create table ".toList ++ ((w.wrap b.table).toList ++ (" (".toList ++
      (List.intercalate ", ".toList (b.columns.map fun c => (columnDefinition w c).toList) ++
        ((b.commands.flatMap fun c => (foreignKeyClause w c).toList) ++
          ((primaryKey w b).toList ++ [')']))))) := by
  unfold createTable
  simp only [Sql.commaSeparated, columnDefinitions, foreignKeys, String.toList_append,
    String.toList_intercalate, String.toList_join, List.flatMap_map, List.map_map, Function.comp_def,
    List.append_assoc]
  rfl

theorem scans_createTable (w : Writer) {b : Blueprint} (h : b.columns ≠ []) :
    Scans (createTable w b).toList
      (bares "create table " ++ ((partsOf b.table).lexemes w.flavour ++ (bares " (" ++
        (List.intercalate (bares ", ") ((Clause.ofBlueprint partsOf b).map (Clause.lexemes w.flavour)) ++
          [.bare ')'])))) := by
  have hclose : Scans [')'] [.bare ')'] := Scans.bare (by decide)
  have hp := (scans_primaryKey w b).1.append hclose (Sql.apart_cons rfl _)
  have hpa := (scans_primaryKey w b).2.append (Sql.apart_cons (c := ')') rfl [])
  obtain ⟨hf, hfa⟩ := Scans.flatMap b.commands (fun c _ => (scans_foreignKeyClause w c).1)
    fun c _ => (scans_foreignKeyClause w c).2
  have hcolumns := Scans.intercalate ", ".toList b.columns (by decide) (by decide)
    fun c _ => scans_columnDefinition w c
  have hbody := hcolumns.append (hf.append hp hpa) (hfa.append hpa)
  have ht := (scans_name w b.table).append
    (Scans.bare_append (b := " (".toList) (by decide) hbody) (Sql.apart_cons rfl _)
  have hall := Scans.bare_append (b := "create table ".toList) (by decide) ht
  have hlex : List.intercalate (bares ", ") ((Clause.ofBlueprint partsOf b).map (Clause.lexemes w.flavour)) =
      List.intercalate (bares ", ")
          (b.columns.map fun c => (Clause.ofColumn partsOf c).lexemes w.flavour) ++
        ((b.commands.flatMap fun c =>
            (Clause.ofForeign? partsOf c).toList.flatMap fun c => bares ", " ++ c.lexemes w.flavour) ++
          (b.commands.findSome? (Clause.ofPrimary? partsOf)).toList.flatMap
            fun c => bares ", " ++ c.lexemes w.flavour) := by
    obtain ⟨c, cs, hc⟩ := List.exists_cons_of_ne_nil h
    rw [Clause.ofBlueprint, hc]
    simp only [List.map_append, List.map_cons, List.cons_append, List.append_assoc, List.map_map]
    rw [← List.cons_append, ← intercalate_append_flatMap]
    simp only [List.flatMap_append, List.flatMap_map, List.filterMap_eq_flatMap_toList, List.flatMap_assoc]
    rfl
  rw [createTable_toList, hlex, List.append_assoc, List.append_assoc]
  exact hall

theorem ofBlueprint_eq_cons (parts : String → Parts) {b : Blueprint} (h : b.columns ≠ []) :
    ∃ c cs, Clause.ofBlueprint parts b = c :: cs := by
  obtain ⟨c, cs, hc⟩ := List.exists_cons_of_ne_nil h
  rw [Clause.ofBlueprint, hc]
  exact ⟨_, _, rfl⟩

theorem bodyItems_ofBlueprint (f : Flavour) {b : Blueprint} {c : Clause} {cs : List Clause}
    (h : Clause.ofBlueprint partsOf b = c :: cs) :
    bodyItems 0 [] (List.intercalate (bares ", ") ((c :: cs).map (Clause.lexemes f)) ++ [.bare ')']) =
      some (c.lexemes f :: (cs.map (Clause.lexemes f)).map (.bare ' ' :: ·), []) := by
  have hpass := Passes.lexemes f (b := b)
  rw [h, List.forall_mem_cons] at hpass
  have hblank : Passes 0 [.bare ' '] := Passes.plain (by simp)
  rw [List.map_cons, Lexeme.intercalate_comma]
  refine Passes.bodyItems_intercalate [] hpass.1 fun ts hts => ?_
  obtain ⟨us, hus, rfl⟩ := List.mem_map.mp hts
  obtain ⟨d, hd, rfl⟩ := List.mem_map.mp hus
  exact hblank.append (hpass.2 d hd)

theorem readClause_blank (ts : List Lexeme) : readClause (.bare ' ' :: ts) = readClause ts := by
  simp [readClause]

theorem mapM_readClause (f : Flavour) {b : Blueprint} {c : Clause} {cs : List Clause}
    (h : Clause.ofBlueprint partsOf b = c :: cs) :
    (c.lexemes f :: (cs.map (Clause.lexemes f)).map (.bare ' ' :: ·)).mapM readClause =
      some (c :: cs) := by
  have hread : ∀ d ∈ c :: cs, readClause (d.lexemes f) = some d := by
    rw [← h]
    exact Clause.forall_mem_ofBlueprint (readClause_ofColumn f) (readClause_foreign f)
      (readClause_primary f)
  rw [List.forall_mem_cons] at hread
  have hrest : ((cs.map (Clause.lexemes f)).map (.bare ' ' :: ·)).mapM readClause = some (cs.map id) := by
    rw [List.map_map]
    refine Sql.mapM_map_eq_some fun d hd => ?_
    rw [Function.comp_apply, readClause_blank]
    exact hread.2 d hd
  rw [List.mapM_cons, hread.1, hrest, List.map_id]
  rfl

theorem readTable_createTable (w : Writer) {b : Blueprint} (h : b.columns ≠ []) :
    readTable (createTable w b) = some (partsOf b.table, Clause.ofBlueprint partsOf b) := by
  obtain ⟨c, cs, hc⟩ := ofBlueprint_eq_cons partsOf h
  have hlexemes := (scans_createTable w h).scan_eq
  rw [hc] at hlexemes ⊢
  have hends : ∀ rest, Ends (bares " (" ++ rest) := fun rest =>
    ⟨by simp [bares], by simp [after?, bares, Lexeme.strip]⟩
  have hname : ∀ rest, readName ((partsOf b.table).lexemes w.flavour ++ (bares " (" ++ rest)) =
      some (partsOf b.table, bares " (" ++ rest) :=
    fun rest => Lexeme.readName_append w.flavour b.table.toList (hends rest)
  rw [readTable, lexemes?, hlexemes]
  simp only [Option.bind_eq_bind, Option.bind_some, Lexeme.after?_bares, hname,
    bodyItems_ofBlueprint w.flavour hc, mapM_readClause w.flavour hc, if_true]

/-- The statement that creates a table reads back as the table's description, whatever the names, the
defaults and the commands are. -/
theorem creation_reads_back (w : Writer) (b : Blueprint) (h : b.columns ≠ []) :
    ∃ parts : String → Parts, (∀ s n, Parts.Of s.toList n ↔ n = parts s) ∧
      readTable (createTable w b) = some (parts b.table, Clause.ofBlueprint parts b) :=
  ⟨partsOf, fun _ _ => Parts.of_iff, readTable_createTable w h⟩

def hostileTable : Blueprint where
  table := "notes\", \"b"
  columns := [{ name := "id", type := .integer, autoIncrement := true },
    { name := "a\" text, (\"b", type := .text, default := .text "x', primary key ('y" }]
  commands := [.primary "p" ["id"], .foreign "f" ["a), b"] "other AS o" ["c\""], .primary "q" ["b"]]

theorem creation_reads_back_hostile : hostileTable.columns ≠ [] ∧
    readTable (createTable {} hostileTable) =
      some (⟨["notes\", \"b".toList], none⟩,
        [.column ⟨["id".toList], none⟩ "integer" false none true,
          .column ⟨["a\" text, (\"b".toList], none⟩ "text" false (some "x', primary key ('y".toList) false,
          .foreign [⟨["a), b".toList], none⟩] ⟨["other".toList], some "o".toList⟩ [⟨["c\"".toList], none⟩],
          .primary [⟨["id".toList], none⟩]]) := by
  have h : hostileTable.columns ≠ [] := nofun
  obtain ⟨parts, hparts, hread⟩ := creation_reads_back {} hostileTable h
  have heq : parts = partsOf := funext fun s => ((hparts s _).mp (Parts.of_iff.mpr rfl)).symm
  rw [heq] at hread
  exact ⟨h, hread.trans (by decide)⟩

end SqliteAccess.Schema
