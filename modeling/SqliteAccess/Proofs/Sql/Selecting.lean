import SqliteAccess.Proofs.Sql.Separators
import SqliteAccess.Sql.Statement

/-!
A select read back from its text. The keywords that part its clauses are the leftmost ones outside of
quotes, whatever the names are made of, so the text has one reading only and queries of the same text
select alike.
-/

namespace SqliteAccess.Sql

open Identifier (Parts)

/-- An entry of an order, with whether it folds case. -/
structure Term where
  name : Parts
  folded : Bool
  direction : Direction
deriving DecidableEq, Repr

/-- What the text of a select tells. No columns stand for all of them. -/
structure Selection where
  columns : Option (List Parts)
  table : Parts
  orders : List Term
deriving DecidableEq, Repr

namespace Query

def AllColumns (f : Flavour) (q : Query) : Prop := q.columns = [] ∨ f = .sqlite ∧ q.columns = ["*"]

instance (f : Flavour) (q : Query) : Decidable (q.AllColumns f) := inferInstanceAs (Decidable (_ ∨ _))

def term (f : Flavour) (o : Order) : Term := ⟨Parts.of o.column.toList, f = .sqlite, o.direction⟩

def selection (f : Flavour) (q : Query) : Selection where
  columns := if q.AllColumns f then none else some (q.columns.map fun s => Parts.of s.toList)
  table := Parts.of q.table.toList
  orders := q.orders.map (term f)

end Query

/-- The clauses of a query, each name by its pieces and its alias. -/
structure Selection.Of (f : Flavour) (q : Query) (x : Selection) : Prop where
  all : q.AllColumns f → x.columns = none
  named : ¬ q.AllColumns f →
    ∃ ns, x.columns = some ns ∧ List.Forall₂ (fun s n => Parts.Of s.toList n) q.columns ns
  table : Parts.Of q.table.toList x.table
  orders : List.Forall₂ (fun o t => Parts.Of o.column.toList t.name ∧ t.direction = o.direction ∧
    (t.folded = true ↔ f = .sqlite)) q.orders x.orders

def SameName (s s' : String) : Prop := ∃ n, Parts.Of s.toList n ∧ Parts.Of s'.toList n

/-- The same columns of the same table, in the same order. -/
structure Query.SelectsAlike (f : Flavour) (q q' : Query) : Prop where
  all : q.AllColumns f ↔ q'.AllColumns f
  named : ¬ q.AllColumns f → List.Forall₂ SameName q.columns q'.columns
  table : SameName q.table q'.table
  orders : List.Forall₂ (fun o o' => SameName o.column o'.column ∧ o.direction = o'.direction)
    q.orders q'.orders

theorem Query.selection_of (f : Flavour) (q : Query) : Selection.Of f q (q.selection f) where
  all := fun h => if_pos h
  named := by
    intro h
    refine ⟨_, if_neg h, ?_⟩
    rw [List.forall₂_map_right_iff]
    exact List.forall₂_same.mpr fun s _ => Parts.of_iff.mpr rfl
  table := Parts.of_iff.mpr rfl
  orders := by
    rw [Query.selection, List.forall₂_map_right_iff]
    exact List.forall₂_same.mpr fun o _ => ⟨Parts.of_iff.mpr rfl, rfl, by simp [Query.term]⟩

theorem forall₂_of_common {α β : Type} {P : α → β → Prop} {R : α → α → Prop}
    (h : ∀ a b n, P a n → P b n → R a b) {xs ys : List α} {ns : List β}
    (hx : List.Forall₂ P xs ns) (hy : List.Forall₂ P ys ns) : List.Forall₂ R xs ys := by
  induction hx generalizing ys with
  | nil =>
    cases hy
    exact .nil
  | cons ha _ ih =>
    cases hy with
    | cons hb hy => exact .cons (h _ _ _ ha hb) (ih hy)

theorem Selection.Of.all_iff {f : Flavour} {q : Query} {x : Selection} (h : Selection.Of f q x) :
    q.AllColumns f ↔ x.columns = none := by
  refine ⟨h.all, fun hx => ?_⟩
  by_contra hq
  obtain ⟨ns, hns, -⟩ := h.named hq
  rw [hx] at hns
  cases hns

theorem Selection.Of.alike {f : Flavour} {q q' : Query} {x : Selection} (h : Selection.Of f q x)
    (h' : Selection.Of f q' x) : q.SelectsAlike f q' where
  all := h.all_iff.trans h'.all_iff.symm
  named := by
    intro hq
    have hq' : ¬ q'.AllColumns f := fun ha => hq (h.all_iff.mpr (h'.all ha))
    obtain ⟨ns, hns, hall⟩ := h.named hq
    obtain ⟨ns', hns', hall'⟩ := h'.named hq'
    cases hns.symm.trans hns'
    exact forall₂_of_common (fun _ _ n hn hn' => ⟨n, hn, hn'⟩) hall hall'
  table := ⟨x.table, h.table, h'.table⟩
  orders := forall₂_of_common
    (fun _ _ t ht ht' => ⟨⟨t.name, ht.1, ht'.1⟩, ht.2.1.symm.trans ht'.2.1⟩) h.orders h'.orders

namespace Lexeme

def readDirection (ts : List Lexeme) : Option Direction :=
  [Direction.asc, .desc].find? fun d => ts = bares d.name

def readTerm (ts : List Lexeme) : Option Term := do
  let (n, r) ← readName ts
  match after? " collate nocase " r with
  | some r => (readDirection r).map fun d => ⟨n, true, d⟩
  | none => ((after? " " r).bind readDirection).map fun d => ⟨n, false, d⟩

def readColumns (ts : List Lexeme) : Option (Option (List Parts)) :=
  if ts = [bare '*'] then some none else (readNames ts).map some

def readSource (ts : List Lexeme) : Option (Parts × List Term) :=
  match cutAt " order by " [] ts with
  | none => (readWhole ts).map fun t => (t, [])
  | some (t, os) => do return (← readWhole t, ← (between ", " 0 [] os).mapM readTerm)

def readSelection (ts : List Lexeme) : Option Selection := do
  let (cs, r) ← cutAt " from " [] (← after? "select " ts)
  let (table, orders) ← readSource r
  return ⟨← readColumns cs, table, orders⟩

theorem bare_notMem (f : Flavour) (s : List Char) {c : Char} (hc : c ∉ ['*', '.', ' ', 'a', 's']) :
    bare c ∉ (Parts.of s).lexemes f := fun h => hc (bare_of_mem_lexemes h)

def termEnd (f : Flavour) (d : Direction) : String := " " ++ (Writer.collation { flavour := f } ++ d.name)

def termLexemes (f : Flavour) (o : Order) : List Lexeme :=
  (Parts.of o.column.toList).lexemes f ++ bares (termEnd f o.direction)

def columnsLexemes (f : Flavour) (names : List String) : List Lexeme :=
  if names = [] then bares "*"
  else List.intercalate (bares ", ") (names.map fun s => (Parts.of s.toList).lexemes f)

def fromLexemes (f : Flavour) (q : Query) : List Lexeme :=
  (Parts.of q.table.toList).lexemes f ++
    if q.orders = [] then []
    else bares " order by " ++ List.intercalate (bares ", ") (q.orders.map (termLexemes f))

def queryLexemes (f : Flavour) (q : Query) : List Lexeme :=
  bares "select " ++ (columnsLexemes f q.columns ++ (bares " from " ++ fromLexemes f q))

end Lexeme

open Lexeme

namespace Writer

theorem orderTerm_eq (w : Writer) (o : Order) :
    w.orderTerm o = w.wrap o.column ++ termEnd w.flavour o.direction := by
  obtain ⟨f, d⟩ := w
  rw [orderTerm, String.append_assoc, String.append_assoc]
  cases f <;> rfl

theorem scans_term (w : Writer) (o : Order) :
    Scans (w.orderTerm o).toList (termLexemes w.flavour o) := by
  have hend : ∀ f d, unquoted (termEnd f d).toList = true ∧ Apart (termEnd f d).toList := by
    rintro (_ | _) (_ | _) <;> exact ⟨by decide, apart_cons rfl _⟩
  obtain ⟨hu, ha⟩ := hend w.flavour o.direction
  rw [orderTerm_eq, String.toList_append]
  exact (scans_wrap w.flavour o.column).append (Scans.bare hu) ha

theorem scans_columns (w : Writer) (names : List String) :
    Scans (if names.isEmpty then "*" else w.columnize names).toList
      (columnsLexemes w.flavour names) := by
  cases names with
  | nil => exact Scans.bare (b := "*".toList) (by decide)
  | cons s names => exact scans_columnize w.flavour (s :: names)

theorem scans_select (w : Writer) (q : Query) :
    Scans (w.select q).sql.toList (queryLexemes w.flavour q) := by
  have hsource : Scans ((w.wrap q.table).toList ++
      if q.orders = [] then [] else
        " order by ".toList ++ List.intercalate ", ".toList (q.orders.map fun o => (w.orderTerm o).toList))
      (fromLexemes w.flavour q) := by
    refine (scans_wrap w.flavour q.table).append ?_ ?_
    · split
      · exact Scans.nil
      · exact Scans.bare_append (by decide)
          (Scans.intercalate _ _ (by decide) (by decide) fun o _ => w.scans_term o)
    · split
      · exact apart_nil
      · exact apart_cons rfl _
  have h := Scans.bare_append (b := "select ".toList) (by decide) ((w.scans_columns q.columns).append
    (Scans.bare_append (b := " from ".toList) (by decide) hsource) (apart_cons rfl _))
  have htext : (w.select q).sql.toList = "select ".toList ++
      ((if q.columns.isEmpty then "*" else w.columnize q.columns).toList ++
        (" from ".toList ++ ((w.wrap q.table).toList ++
          if q.orders = [] then [] else
            " order by ".toList ++
              List.intercalate ", ".toList (q.orders.map fun o => (w.orderTerm o).toList)))) := by
    cases ho : q.orders with
    | nil =>
      simp only [select, orders?, selectText, ho, List.isEmpty_nil, if_true, String.toList_append,
        List.append_assoc, List.append_nil]
    | cons o os =>
      have horder : " order by ".toList = " ".toList ++ "order by ".toList := rfl
      rw [horder]
      simp only [select, orders?, selectText, ho, List.isEmpty_cons, Bool.false_eq_true, if_false,
        reduceCtorEq, commaSeparated, String.toList_append, String.toList_intercalate, List.map_map,
        Function.comp_def, List.append_assoc]
  rw [htext]
  exact h

end Writer

namespace Lexeme

theorem ends_termEnd (f : Flavour) (d : Direction) : Ends (bares (termEnd f d)) := by
  unfold Ends
  cases f <;> cases d <;> decide

theorem readDirection_name (d : Direction) : readDirection (bares d.name) = some d := by
  cases d <;> decide

theorem readTerm_eq (f : Flavour) (o : Order) : readTerm (termLexemes f o) = some (Query.term f o) := by
  have hname := readName_append f o.column.toList (ends_termEnd f o.direction)
  rw [readTerm, termLexemes, hname]
  cases f with
  | generic =>
    have hnone : after? " collate nocase " (bares (termEnd .generic o.direction)) = none := by
      cases o.direction <;> decide
    have hd : after? " " (bares (termEnd .generic o.direction)) = some (bares o.direction.name) := by
      cases o.direction <;> decide
    simp [hnone, hd, readDirection_name, Query.term]
  | sqlite =>
    have hd : after? " collate nocase " (bares (termEnd .sqlite o.direction)) =
        some (bares o.direction.name) := by
      cases o.direction <;> decide
    simp [hd, readDirection_name, Query.term]

theorem comma_notMem (f : Flavour) (o : Order) : bare ',' ∉ termLexemes f o := by
  rw [termLexemes, List.mem_append, not_or]
  refine ⟨bare_notMem f o.column.toList (by decide), ?_⟩
  cases f <;> cases o.direction <;> decide

theorem readOrders_eq (f : Flavour) {os : List Order} (h : os ≠ []) :
    (between ", " 0 [] (List.intercalate (bares ", ") (os.map (termLexemes f)))).mapM readTerm =
      some (os.map (Query.term f)) := by
  have hcomma : ∀ x ∈ os.map (termLexemes f), bare ',' ∉ x := by
    intro x hx
    obtain ⟨o, -, rfl⟩ := List.mem_map.mp hx
    exact comma_notMem f o
  rw [between_intercalate (b := []) (e := [' ']) rfl List.not_mem_nil (by simpa using h) hcomma]
  exact mapM_map_eq_some fun o _ => readTerm_eq f o

theorem readSource_eq (f : Flavour) (q : Query) :
    readSource (fromLexemes f q) = some ((q.selection f).table, (q.selection f).orders) := by
  have ho : bare 'o' ∉ (Parts.of q.table.toList).lexemes f := bare_notMem f _ (by decide)
  have hsep : " order by ".toList = [' '] ++ 'o' :: "rder by ".toList := rfl
  by_cases hos : q.orders = []
  · rw [fromLexemes, if_pos hos, List.append_nil, readSource, cutAt_eq_none hsep (by decide) ho,
      readWhole_lexemes]
    simp [Query.selection, hos]
  · rw [fromLexemes, if_neg hos, readSource, cutAt_append hsep (by decide) ho]
    simp [readWhole_lexemes, readOrders_eq f hos, Query.selection]

theorem eq_star {s : List Char} (h : Parts.of s = ⟨[['*']], none⟩) : s = ['*'] := by
  unfold Parts.of at h
  cases ha : Identifier.splitAlias? s with
  | none =>
    simp only [ha, Parts.mk.injEq, and_true] at h
    have hs : List.intercalate ['.'] (s.splitOn '.') = s := List.intercalate_splitOn '.'
    rw [h] at hs
    simpa using hs.symm
  | some x => simp [ha] at h

theorem columnsLexemes_eq_star {f : Flavour} {names : List String}
    (h : columnsLexemes f names = [bare '*']) : names = [] ∨ f = .sqlite ∧ names = ["*"] := by
  by_cases hn : names = []
  · exact .inl hn
  · rw [columnsLexemes, if_neg hn] at h
    have hread := readNames_intercalate f names
    rw [h] at hread
    have hnames : names.map (fun s => Parts.of s.toList) = [⟨[['*']], none⟩] := Option.some.inj hread.symm
    obtain ⟨s, rfl, hs⟩ := List.map_eq_singleton_iff.mp hnames
    have hstar : s = "*" := String.toList_injective (eq_star hs)
    subst hstar
    cases f with
    | generic => exact absurd h (by decide)
    | sqlite => exact .inr ⟨rfl, rfl⟩

theorem readColumns_eq (f : Flavour) (q : Query) :
    readColumns (columnsLexemes f q.columns) = some (q.selection f).columns := by
  by_cases hall : q.AllColumns f
  · have hstar : columnsLexemes f q.columns = [bare '*'] := by
      rcases hall with h | ⟨rfl, h⟩
      · rw [h]
        rfl
      · rw [h]
        decide
    simp [readColumns, hstar, Query.selection, hall]
  · have hstar : columnsLexemes f q.columns ≠ [bare '*'] := fun h => hall (columnsLexemes_eq_star h)
    have hne : q.columns ≠ [] := fun h => hall (.inl h)
    rw [readColumns, if_neg hstar, columnsLexemes, if_neg hne, readNames_intercalate]
    simp [Query.selection, hall]

theorem from_notMem (f : Flavour) (names : List String) : bare 'f' ∉ columnsLexemes f names := by
  unfold columnsLexemes
  split
  · decide
  · intro h
    refine forall_mem_intercalate (P := fun t => t ≠ bare 'f') ?_ ?_ _ h rfl
    · decide
    · rintro x hx t ht rfl
      obtain ⟨s, -, rfl⟩ := List.mem_map.mp hx
      exact bare_notMem f s.toList (by decide) ht

theorem readSelection_eq (f : Flavour) (q : Query) :
    readSelection (queryLexemes f q) = some (q.selection f) := by
  have hsep : " from ".toList = [' '] ++ 'f' :: "rom ".toList := rfl
  have hcut : cutAt " from " [] (columnsLexemes f q.columns ++ (bares " from " ++ fromLexemes f q)) =
      some (columnsLexemes f q.columns, fromLexemes f q) :=
    cutAt_append hsep (by decide) (from_notMem f q.columns) []
  rw [queryLexemes, readSelection, after?_bares]
  simp [hcut, readSource_eq, readColumns_eq]

end Lexeme

/-- Whatever the names are made of, a select is read back from its text clause by clause, and only
queries that select alike have the same text. -/
theorem select_reads_back (w : Writer) (q : Query) :
    (∃ x, Selection.Of w.flavour q x ∧
      (lexemes? (w.select q).sql).bind readSelection = some x) ∧
    ∀ (w' : Writer) (q' : Query), w'.flavour = w.flavour → (w'.select q').sql = (w.select q).sql →
      q.SelectsAlike w.flavour q' := by
  have reads : ∀ (w : Writer) (q : Query),
      (lexemes? (w.select q).sql).bind readSelection = some (q.selection w.flavour) := by
    intro w q
    rw [lexemes?, (w.scans_select q).scan_eq]
    exact readSelection_eq w.flavour q
  refine ⟨⟨_, q.selection_of w.flavour, reads w q⟩, fun w' q' hf hsql => ?_⟩
  have hsame : q'.selection w.flavour = q.selection w.flavour := by
    have h := reads w' q'
    rw [hsql, reads w q, hf] at h
    exact (Option.some.inj h).symm
  exact (q.selection_of w.flavour).alike (hsame ▸ q'.selection_of w.flavour)

theorem select_reads_back_star :
    (Writer.select {} { table := "main.users", columns := ["*"], orders := [⟨"a, b", .desc⟩] }).sql =
        (Writer.select {} { table := "main.users", orders := [⟨"a, b", .desc⟩] }).sql ∧
      Query.SelectsAlike .sqlite { table := "main.users", orders := [⟨"a, b", .desc⟩] }
        { table := "main.users", columns := ["*"], orders := [⟨"a, b", .desc⟩] } := by
  have hsql : (Writer.select {} { table := "main.users", columns := ["*"], orders := [⟨"a, b", .desc⟩] }).sql =
      (Writer.select {} { table := "main.users", orders := [⟨"a, b", .desc⟩] }).sql := by decide
  exact ⟨hsql, (select_reads_back {} _).2 {} _ rfl hsql⟩

end SqliteAccess.Sql
