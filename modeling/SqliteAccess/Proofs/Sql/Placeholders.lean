import SqliteAccess.Proofs.Sql.Insert
import SqliteAccess.Proofs.Sql.Separators

/-!
Inserts read back from their texts. Outside of quotes an insert has one group of placeholders for each
row, and the parameter bound to a placeholder is the value of that row under the key that the column in
its place is named after.
-/

namespace SqliteAccess.Sql

/-- What an insert has for one row: placeholders in brackets, or a select of placeholders under names. -/
inductive Group where
  | tuple (placeholders : Nat)
  | select (aliases : List (List Lexeme))
deriving DecidableEq, Repr

def Group.width : Group → Nat
  | tuple n => n
  | select aliases => aliases.length

structure Insertion where
  target : List Lexeme
  columns : List (List Lexeme)
  groups : List Group
deriving DecidableEq, Repr

namespace Lexeme

def readItems (ts : List Lexeme) : List (List Lexeme) := if ts = [] then [] else between ", " 0 [] ts

def readTuple (ts : List Lexeme) : Option Group :=
  if (readItems ts).all (· = [bare '?']) then some (.tuple (readItems ts).length) else none

def readSelect (ts : List Lexeme) : Option Group :=
  ((readItems ts).mapM (after? "? as ")).map .select

def readGroups (ts : List Lexeme) : Option (List Group) :=
  match after? "values (" ts, after? "select " ts with
  | some r, _ =>
    if r.getLast? = some (bare ')') then (between "), (" 0 [] r.dropLast).mapM readTuple else none
  | none, some r => (between " union select " 0 [] r).mapM readSelect
  | none, none => none

/-- The names are left as they are written. -/
def readInsertion (ts : List Lexeme) : Option Insertion := do
  let (target, r) ← cutAt " (" [] (← after? "insert into " ts)
  let (columns, r) ← cutAt ") " [] r
  return ⟨target, readItems columns, ← readGroups r⟩

end Lexeme

open Identifier (Parts)
open Lexeme (bare bares after? readItems readTuple readSelect readGroups readInsertion)

section Texts

variable (w : Writer) (keys : List String) (rows : List Row)

def Writer.nameLexemes (s : String) : List Lexeme := (Parts.of s.toList).lexemes w.flavour

def tupleLexemes : List Lexeme := List.intercalate (bares ", ") (keys.map fun _ => [bare '?'])

def Writer.selectLexemes : List Lexeme :=
  List.intercalate (bares ", ") (keys.map fun k => bares "? as " ++ w.nameLexemes k)

def Writer.sourceLexemes : List Lexeme :=
  if 1 < rows.length ∧ ¬ w.dialect.capabilities.multiRowValues then
    bares "select " ++ List.intercalate (bares " union select ") (rows.map fun _ => w.selectLexemes keys)
  else
    bares "values " ++
      List.intercalate (bares ", ") (rows.map fun _ => bares "(" ++ tupleLexemes keys ++ bares ")")

def Writer.insertLexemes (q : Query) : List Lexeme :=
  bares "insert into " ++ (w.nameLexemes q.table ++ (bares " (" ++
    (List.intercalate (bares ", ") ((rowKeys q.rows).map w.nameLexemes) ++ (bares ") " ++
      w.sourceLexemes (rowKeys q.rows) q.rows))))

theorem scans_name (s : String) : Scans (w.wrap s).toList (w.nameLexemes s) := scans_wrap w.flavour s

theorem scans_tuple : Scans ("(" ++ parameterize keys ++ ")").toList
    (bares "(" ++ tupleLexemes keys ++ bares ")") := by
  have hitem : ∀ k ∈ keys, Scans "?".toList [bare '?'] := fun _ _ => .bare (by decide)
  have hitems := Scans.intercalate ", ".toList keys (by decide) (by decide) hitem
  have hclose : Scans ")".toList (bares ")") := .bare (by decide)
  have h := Scans.bare_append (b := "(".toList) (by decide)
    (hitems.append hclose (apart_cons (by decide) []))
  simpa [parameterize, commaSeparated, placeholder, String.toList_intercalate, tupleLexemes, bares,
    Function.comp_def] using h

theorem scans_select : Scans (w.selectTuple keys).toList (w.selectLexemes keys) := by
  have hitem : ∀ k ∈ keys, Scans ("? as ".toList ++ (w.wrap k).toList)
      (bares "? as " ++ w.nameLexemes k) := fun k _ => (scans_name w k).bare_append (by decide)
  have h := Scans.intercalate ", ".toList keys (by decide) (by decide) hitem
  simpa [Writer.selectTuple, commaSeparated, placeholder, String.toList_intercalate,
    Writer.selectLexemes, bares, Function.comp_def] using h

theorem scans_source : Scans (w.insertSource rows keys).toList (w.sourceLexemes keys rows) := by
  unfold Writer.insertSource Writer.sourceLexemes
  split
  · have harms := Scans.intercalate " union select ".toList rows (by decide) (by decide)
      fun _ _ => scans_select w keys
    have h := harms.bare_append (b := "select ".toList) (by decide)
    simpa [String.toList_intercalate, bares, Function.comp_def] using h
  · have htuples := Scans.intercalate ", ".toList rows (by decide) (by decide) fun _ _ => scans_tuple keys
    have h := htuples.bare_append (b := "values ".toList) (by decide)
    simpa [commaSeparated, String.toList_intercalate, bares, Function.comp_def] using h

theorem scans_insert (q : Query) :
    Scans (w.insertHead q ++ w.insertSource q.rows (rowKeys q.rows)).toList (w.insertLexemes q) := by
  have hsource := (scans_source w (rowKeys q.rows) q.rows).bare_append (b := ") ".toList) (by decide)
  have hcolumns := (scans_columnize w.flavour (rowKeys q.rows)).append hsource (apart_cons (by decide) _)
  have hbody := hcolumns.bare_append (b := " (".toList) (by decide)
  have htarget := (scans_name w q.table).append hbody (apart_cons (by decide) _)
  have htext : (w.insertHead q ++ w.insertSource q.rows (rowKeys q.rows)).toList =
      "insert into ".toList ++ ((w.wrap q.table).toList ++ (" (".toList ++
        ((columnize w.flavour (rowKeys q.rows)).toList ++ (") ".toList ++
          (w.insertSource q.rows (rowKeys q.rows)).toList)))) := by
    simp [Writer.insertHead, Writer.columnize]
  rw [htext]
  exact htarget.bare_append (by decide)

theorem bare_notMem_name {c : Char} (hc : c ∉ ['*', '.', ' ', 'a', 's']) (s : String) :
    bare c ∉ w.nameLexemes s := fun h => hc (Lexeme.bare_of_mem_lexemes h)

theorem notMem_intercalate {t : Lexeme} {sep : List Lexeme} {xs : List (List Lexeme)} (hsep : t ∉ sep)
    (hxs : ∀ x ∈ xs, t ∉ x) : t ∉ List.intercalate sep xs := fun h =>
  forall_mem_intercalate (P := fun u => u ≠ t) (fun _ hu he => hsep (he ▸ hu))
    (fun x hx _ hu he => hxs x hx (he ▸ hu)) t h rfl

theorem readItems_intercalate {xs : List (List Lexeme)} (hxs : ∀ x ∈ xs, x ≠ [] ∧ bare ',' ∉ x) :
    readItems (List.intercalate (bares ", ") xs) = xs := by
  cases xs with
  | nil => rfl
  | cons x xs =>
    have hne : List.intercalate (bares ", ") (x :: xs) ≠ [] := by
      obtain ⟨t, ts, hx⟩ := List.exists_cons_of_ne_nil (hxs x List.mem_cons_self).1
      cases xs <;> simp [hx, List.intercalate_cons_cons]
    rw [readItems, if_neg hne]
    exact Lexeme.between_intercalate (b := []) rfl (by simp) (List.cons_ne_nil x xs)
      fun y hy => (hxs y hy).2

theorem readColumns : readItems (List.intercalate (bares ", ") (keys.map w.nameLexemes)) =
    keys.map w.nameLexemes := by
  refine readItems_intercalate fun x hx => ?_
  obtain ⟨k, _, rfl⟩ := List.mem_map.mp hx
  refine ⟨fun hn => ?_, bare_notMem_name w (by decide) k⟩
  obtain ⟨p, r, hp⟩ := Lexeme.lexemes_eq_cons w.flavour k.toList
  exact List.cons_ne_nil _ _ (hp.symm.trans hn)

theorem readTuple_tuple : readTuple (tupleLexemes keys) = some (.tuple keys.length) := by
  have hitems : readItems (tupleLexemes keys) = keys.map fun _ => [bare '?'] :=
    readItems_intercalate fun x hx => by
      obtain ⟨_, _, rfl⟩ := List.mem_map.mp hx
      simp
  rw [readTuple, hitems, if_pos (by simp), List.length_map]

theorem readSelect_select : readSelect (w.selectLexemes keys) = some (.select (keys.map w.nameLexemes)) := by
  have hitems : readItems (w.selectLexemes keys) = keys.map fun k => bares "? as " ++ w.nameLexemes k :=
    readItems_intercalate fun x hx => by
      obtain ⟨k, _, rfl⟩ := List.mem_map.mp hx
      refine ⟨by simp [bares], fun h => ?_⟩
      exact (List.mem_append.mp h).elim (by decide) (bare_notMem_name w (by decide) k)
  rw [readSelect, hitems, mapM_map_eq_some fun k _ => Lexeme.after?_bares "? as " (w.nameLexemes k)]
  rfl

theorem intercalate_brackets {xs : List (List Lexeme)} (hne : xs ≠ []) :
    List.intercalate (bares ", ") (xs.map fun x => bares "(" ++ x ++ bares ")") =
      bares "(" ++ (List.intercalate (bares "), (") xs ++ bares ")") := by
  induction xs with
  | nil => exact absurd rfl hne
  | cons x xs ih =>
    cases xs with
    | nil => simp
    | cons y ys =>
      have hy := ih (List.cons_ne_nil y ys)
      rw [List.map_cons] at hy
      rw [List.map_cons, List.map_cons, List.intercalate_cons_cons, hy, List.intercalate_cons_cons]
      simp [bares]

def Writer.group : Group :=
  if 1 < rows.length ∧ ¬ w.dialect.capabilities.multiRowValues then .select (keys.map w.nameLexemes)
  else .tuple keys.length

theorem readGroups_source (hrows : rows ≠ []) :
    readGroups (w.sourceLexemes keys rows) = some (rows.map fun _ => w.group keys rows) := by
  unfold Writer.sourceLexemes Writer.group
  split
  · have hno : ∀ ts, after? "values (" (bares "select " ++ ts) = none := fun _ => rfl
    have hu : bare 'u' ∉ w.selectLexemes keys := notMem_intercalate (by decide) fun x hx => by
      obtain ⟨k, _, rfl⟩ := List.mem_map.mp hx
      exact fun h => (List.mem_append.mp h).elim (by decide) (bare_notMem_name w (by decide) k)
    have hne : rows.map (fun _ => w.selectLexemes keys) ≠ [] := mt List.map_eq_nil_iff.mp hrows
    have harms : Lexeme.between " union select " 0 [] (List.intercalate (bares " union select ")
        (rows.map fun _ => w.selectLexemes keys)) = rows.map fun _ => w.selectLexemes keys :=
      Lexeme.between_intercalate (b := [' ']) (d := 'u') rfl (by decide) hne fun x hx => by
        obtain ⟨_, _, rfl⟩ := List.mem_map.mp hx
        exact hu
    rw [readGroups, hno, Lexeme.after?_bares]
    dsimp only
    rw [harms, mapM_map_eq_some fun _ _ => readSelect_select w keys]
  · have hne : rows.map (fun _ => tupleLexemes keys) ≠ [] := mt List.map_eq_nil_iff.mp hrows
    have hclose : bare ')' ∉ tupleLexemes keys := notMem_intercalate (by decide) fun x hx => by
      obtain ⟨_, _, rfl⟩ := List.mem_map.mp hx
      decide
    have htuples : Lexeme.between "), (" 0 [] (List.intercalate (bares "), (")
        (rows.map fun _ => tupleLexemes keys)) = rows.map fun _ => tupleLexemes keys :=
      Lexeme.between_intercalate (b := []) (d := ')') rfl (by decide) hne fun x hx => by
        obtain ⟨_, _, rfl⟩ := List.mem_map.mp hx
        exact hclose
    have htext := intercalate_brackets hne
    rw [List.map_map] at htext
    have hvalues : bares "values " ++ List.intercalate (bares ", ")
        (rows.map fun _ => bares "(" ++ tupleLexemes keys ++ bares ")") =
          bares "values (" ++ (List.intercalate (bares "), (") (rows.map fun _ => tupleLexemes keys) ++
            [bare ')']) := congrArg (bares "values " ++ ·) htext
    rw [hvalues, readGroups, Lexeme.after?_bares]
    dsimp only
    rw [List.getLast?_concat, if_pos rfl, List.dropLast_concat, htuples,
      mapM_map_eq_some fun _ _ => readTuple_tuple keys]

theorem readInsertion_insert {q : Query} (hrows : q.rows ≠ []) :
    readInsertion (w.insertLexemes q) = some ⟨w.nameLexemes q.table,
      (rowKeys q.rows).map w.nameLexemes, q.rows.map fun _ => w.group (rowKeys q.rows) q.rows⟩ := by
  have htarget : ∀ r, Lexeme.cutAt " (" [] (w.nameLexemes q.table ++ (bares " (" ++ r)) =
      some (w.nameLexemes q.table, r) := fun r =>
    Lexeme.cutAt_append (b := [' ']) (d := '(') rfl (by decide)
      (bare_notMem_name w (by decide) q.table) []
  have hclose : bare ')' ∉ List.intercalate (bares ", ") ((rowKeys q.rows).map w.nameLexemes) :=
    notMem_intercalate (by decide) fun x hx => by
      obtain ⟨k, _, rfl⟩ := List.mem_map.mp hx
      exact bare_notMem_name w (by decide) k
  have hcolumns : ∀ r, Lexeme.cutAt ") " []
      (List.intercalate (bares ", ") ((rowKeys q.rows).map w.nameLexemes) ++ (bares ") " ++ r)) =
        some (List.intercalate (bares ", ") ((rowKeys q.rows).map w.nameLexemes), r) := fun r =>
    Lexeme.cutAt_append (b := []) (d := ')') rfl (by decide) hclose []
  rw [readInsertion, Writer.insertLexemes, Lexeme.after?_bares]
  simp only [Option.bind_eq_bind, Option.bind_some, htarget, hcolumns, readColumns,
    readGroups_source w (rowKeys q.rows) q.rows hrows]
  rfl

theorem count_intercalate {t : Lexeme} {sep : List Lexeme} (hsep : t ∉ sep) (xs : List (List Lexeme)) :
    (List.intercalate sep xs).count t = (xs.map (List.count t)).sum := by
  induction xs with
  | nil => rfl
  | cons x xs ih =>
    cases xs with
    | nil => simp
    | cons y ys =>
      rw [List.intercalate_cons_cons, List.count_append, List.count_append, ih,
        List.count_eq_zero_of_not_mem hsep, List.map_cons (l := y :: ys), List.sum_cons, Nat.add_zero]

theorem count_intercalate_map {α : Type} {sep : List Lexeme} {n : Nat} {f : α → List Lexeme}
    (hsep : bare '?' ∉ sep) (hf : ∀ x, (f x).count (bare '?') = n) (xs : List α) :
    (List.intercalate sep (xs.map f)).count (bare '?') = xs.length * n := by
  have hconst : List.count (bare '?') ∘ f = fun _ => n := funext hf
  rw [count_intercalate hsep, List.map_map, hconst]
  simp

theorem count_name (s : String) : (w.nameLexemes s).count (bare '?') = 0 :=
  List.count_eq_zero_of_not_mem (bare_notMem_name w (by decide) s)

theorem count_insert (q : Query) :
    (w.insertLexemes q).count (bare '?') = q.rows.length * (rowKeys q.rows).length := by
  have hcolumns : (List.intercalate (bares ", ") ((rowKeys q.rows).map w.nameLexemes)).count (bare '?') =
      0 := count_intercalate_map (by decide) (count_name w) _
  have hsource : (w.sourceLexemes (rowKeys q.rows) q.rows).count (bare '?') =
      q.rows.length * (rowKeys q.rows).length := by
    have htuple : (tupleLexemes (rowKeys q.rows)).count (bare '?') = (rowKeys q.rows).length * 1 :=
      count_intercalate_map (by decide) (fun _ => rfl) _
    have hitem : ∀ k, (bares "? as " ++ w.nameLexemes k).count (bare '?') = 1 := fun k => by
      rw [List.count_append, count_name]
      rfl
    have harm : (w.selectLexemes (rowKeys q.rows)).count (bare '?') = (rowKeys q.rows).length * 1 :=
      count_intercalate_map (by decide) hitem _
    rw [Nat.mul_one] at htuple harm
    unfold Writer.sourceLexemes
    split
    · rw [List.count_append, count_intercalate_map (by decide) fun _ => harm]
      exact Nat.zero_add _
    · have hbrackets : (bares "(" ++ tupleLexemes (rowKeys q.rows) ++ bares ")").count (bare '?') =
          (rowKeys q.rows).length := by
        rw [List.count_append, List.count_append, htuple]
        exact Nat.zero_add _
      rw [List.count_append, count_intercalate_map (by decide) fun _ => hbrackets]
      exact Nat.zero_add _
  have hinto : (bares "insert into ").count (bare '?') = 0 := by decide
  have hopen : (bares " (").count (bare '?') = 0 := by decide
  have hclose : (bares ") ").count (bare '?') = 0 := by decide
  simp only [Writer.insertLexemes, List.count_append, hinto, hopen, hclose, hcolumns, hsource, count_name,
    Nat.zero_add]

end Texts

section Missing

variable {keys : List String} {k : String}

def Row.missing (keys : List String) (r : Row) : List String := keys.filter fun k => (r.get? k).isNone

/-- All keys that rows lack, row after row and each row in the order of the first. -/
def Query.missing (q : Query) : List String := q.rows.flatMap (Row.missing (rowKeys q.rows))

theorem Row.missing_eq_nil {r : Row} : r.missing keys = [] ↔ ∀ k ∈ keys, (r.get? k).isSome := by
  simp [missing, List.filter_eq_nil_iff, Option.isSome_iff_ne_none]

theorem rowValues_missing {r : Row} (h : (r.missing keys).head? = some k) :
    rowValues r keys = .error (.missingKey k) := by
  induction keys with
  | nil => cases h
  | cons k' keys ih =>
    cases hv : r.get? k' with
    | none =>
      have hk : k' = k := by simpa [Row.missing, hv] using h
      rw [rowValues, hv, hk]
    | some v =>
      have hrest : (r.missing keys).head? = some k := by simpa [Row.missing, hv] using h
      rw [rowValues, hv]
      dsimp only
      rw [ih hrest]
      rfl

theorem rowMajorParams_missing {rows : List Row}
    (h : (rows.flatMap (Row.missing keys)).head? = some k) :
    rowMajorParams keys rows = .error (.missingKey k) := by
  induction rows with
  | nil => cases h
  | cons r rows ih =>
    rw [List.flatMap_cons] at h
    cases hr : r.missing keys with
    | nil =>
      rw [hr, List.nil_append] at h
      rw [rowMajorParams, rowValues_eq (Row.missing_eq_nil.mp hr), ih h]
      rfl
    | cons k' ks =>
      have hk : (r.missing keys).head? = some k := by simpa [hr] using h
      rw [rowMajorParams, rowValues_missing hk]
      rfl

theorem Query.missing_eq_nil {q : Query} :
    q.missing = [] ↔ ∀ r ∈ q.rows, ∀ k ∈ rowKeys q.rows, (r.get? k).isSome := by
  simp only [missing, List.flatMap_eq_nil_iff, Row.missing_eq_nil]

end Missing

theorem Writer.insert_missing (w : Writer) {q : Query} {k : String} (h : q.missing.head? = some k) :
    w.insert q = .error (.missingKey k) := by
  have hrows : q.rows ≠ [] := by
    intro hn
    simp [Query.missing, hn] at h
  simp [Writer.insert, hrows, rowMajorParams_missing h, Except.map]

theorem Row.under_getElem {keys : List String} {r : Row} {j : Nat} {k : String}
    (full : ∀ k ∈ keys, (r.get? k).isSome) (hj : keys[j]? = some k) : (r.under keys)[j]? = r.get? k := by
  obtain ⟨v, hv⟩ := Option.isSome_iff_exists.mp (full k (List.mem_of_getElem? hj))
  simp [Row.under, hj, hv]

/-- An insert with these parameters is one of the rows of the query. Parameters are bound in the order in
which the placeholders are written. -/
structure Insertion.Fits (w : Writer) (q : Query) (params : List Value) (into : Insertion) : Prop where
  target : lexemes? (w.wrap q.table) = some into.target
  columns : List.Forall₂ (fun k column => lexemes? (w.wrap k) = some column) (rowKeys q.rows) into.columns
  groups : into.groups.length = q.rows.length
  widths : ∀ g ∈ into.groups, g.width = (rowKeys q.rows).length
  aliases : ∀ shorts, .select shorts ∈ into.groups →
    List.Forall₂ (fun k short => lexemes? (w.wrap k) = some short) (rowKeys q.rows) shorts
  /-- In each group the placeholders stand in the order of the columns. -/
  bound : ∀ (i : Nat) r, q.rows[i]? = some r → ∃ vs,
    (cut (into.groups.map Group.width) params)[i]? = some vs ∧ vs.length = (rowKeys q.rows).length ∧
      ∀ (j : Nat) k, (rowKeys q.rows)[j]? = some k → vs[j]? = r.get? k

theorem Writer.group_width (w : Writer) (keys : List String) (rows : List Row) :
    (w.group keys rows).width = keys.length := by
  unfold Writer.group
  split
  · exact List.length_map _
  · rfl

theorem insertion_fits (w : Writer) {q : Query} (hm : q.missing = []) :
    Insertion.Fits w q q.tuples.flatten ⟨w.nameLexemes q.table, (rowKeys q.rows).map w.nameLexemes,
      q.rows.map fun _ => w.group (rowKeys q.rows) q.rows⟩ where
  target := (scans_name w q.table).scan_eq
  columns := by
    rw [List.forall₂_map_right_iff]
    exact List.forall₂_same.mpr fun k _ => (scans_name w k).scan_eq
  groups := List.length_map _
  widths g hg := by
    obtain ⟨_, _, rfl⟩ := List.mem_map.mp hg
    exact w.group_width _ _
  aliases shorts hs := by
    obtain ⟨_, _, he⟩ := List.mem_map.mp hs
    unfold Writer.group at he
    split at he
    · cases he
      rw [List.forall₂_map_right_iff]
      exact List.forall₂_same.mpr fun k _ => (scans_name w k).scan_eq
    · cases he
  bound i r hr := by
    have full := Query.missing_eq_nil.mp hm r (List.mem_of_getElem? hr)
    have hwidths : (q.rows.map fun _ => w.group (rowKeys q.rows) q.rows).map Group.width =
        q.tuples.map List.length := by
      simp [Query.tuples, Writer.group_width, Function.comp_def]
    refine ⟨r.under (rowKeys q.rows), ?_, Row.length_under _ _, fun j k hj =>
      Row.under_getElem full hj⟩
    rw [hwidths, cut_flatten, Query.tuples, List.getElem?_map, hr, Option.map_some]

/-- An insert of rows fails with the first key that a row lacks. If no row lacks one, its text has one
group of placeholders for each row and no other placeholder outside of quotes, and to each of them is
bound what its row has under the key that its column is named after. -/
theorem placeholders_match_params (w : Writer) (q : Query) (hrows : q.rows ≠ []) :
    (∀ k, q.missing.head? = some k → w.insert q = .error (.missingKey k)) ∧
    (q.missing = [] → ∃ st ts into, w.insert q = .ok st ∧ lexemes? st.sql = some ts ∧
      ts.count (bare '?') = st.params.length ∧
      st.params.length = q.rows.length * (rowKeys q.rows).length ∧
      readInsertion ts = some into ∧ into.Fits w q st.params) := by
  refine ⟨fun k hk => w.insert_missing hk, fun hm => ?_⟩
  have hparams : q.tuples.flatten.length = q.rows.length * (rowKeys q.rows).length := by
    simp [Query.tuples, List.length_flatten, Function.comp_def]
  refine ⟨_, _, _, w.insert_eq hrows (Query.missing_eq_nil.mp hm), (scans_insert w q).scan_eq, ?_, hparams,
    readInsertion_insert w hrows, insertion_fits w hm⟩
  rw [count_insert, hparams]

def hostileRows : Query where
  table := "t\"? ("
  rows := [⟨[("a?\"", .int 1), ("b, (c)", .int 2)]⟩,
    ⟨[("b, (c)", .int 4), ("x", .int 9), ("a?\"", .int 3)]⟩]

theorem placeholders_match_params_hostile : hostileRows.rows ≠ [] ∧
    ∃ st ts into, Writer.insert {} hostileRows = .ok st ∧ lexemes? st.sql = some ts ∧
      ts.count (bare '?') = st.params.length ∧ st.params.length = 4 ∧ readInsertion ts = some into ∧
      ∃ vs, (cut (into.groups.map Group.width) st.params)[1]? = some vs ∧
        vs[0]? = some (.int 3) ∧ vs[1]? = some (.int 4) := by
  have hrows : hostileRows.rows ≠ [] := List.cons_ne_nil _ _
  obtain ⟨st, ts, into, hst, hts, hcount, hlen, hread, hfits⟩ :=
    (placeholders_match_params {} hostileRows hrows).2 (by decide)
  obtain ⟨vs, hvs, -, hv⟩ := hfits.bound 1 _ rfl
  exact ⟨hrows, st, ts, into, hst, hts, hcount, hlen, hread, vs, hvs, hv 0 _ rfl, hv 1 _ rfl⟩

end SqliteAccess.Sql
