import Mathlib.Algebra.GroupWithZero.Nat
import SqliteAccess.Proofs.Sql.Reading
import SqliteAccess.Proofs.Sql.Union

/-!
The rows an insert statement puts into its table, read from its text and its parameters, and how
far the two forms for several rows agree.
-/

namespace SqliteAccess.Sql

/-- Where an insert takes its rows from, with the number of parameters of each row. An arm of
selects also has whether rows equal to it are kept beside it. -/
inductive Source where
  | values (widths : List Nat)
  | selects (arms : List (Bool × Nat))
deriving DecidableEq, Repr

def brackets (n : Nat) : List Token → List Nat
  | [] => []
  | .param :: r => brackets (n + 1) r
  | .opening :: r => brackets 0 r
  | .closing :: r => n :: brackets 0 r
  | .word _ :: r => brackets n r

def arms (keep : Bool) (n : Nat) : List Token → List (Bool × Nat)
  | [] => [(keep, n)]
  | .param :: r => arms keep (n + 1) r
  | .opening :: r => arms keep n r
  | .closing :: r => arms keep n r
  | .word w :: r =>
    if w = "union" then (keep, n) :: arms (r.head? = some (.word "all")) 0 r else arms keep n r

def Source.ofTokens : List Token → Option Source
  | .word w :: r =>
    if w = "values" then some (.values (brackets 0 r))
    else if w = "select" then some (.selects (arms true 0 r))
    else none
  | _ => none

namespace Statement

def source? (s : Statement) : Option Source :=
  match lex false [] s.sql.toList with
  | .word "insert" :: .word "into" :: r => Source.ofTokens ((r.dropWhile (· ≠ .closing)).drop 1)
  | _ => none

end Statement

def cut {α : Type} : List Nat → List α → List (List α)
  | [], _ => []
  | n :: ns, vs => vs.take n :: cut ns (vs.drop n)

def Source.Yields (same : List Value → List Value → Prop) (params : List Value)
    (rows : List (List Value)) : Source → Prop
  | .values widths => widths.sum = params.length ∧ rows.Perm (cut widths params)
  | .selects arms =>
    (arms.map (·.2)).sum = params.length ∧
      Joined same [] ((arms.map (·.1)).zip (cut (arms.map (·.2)) params)) rows

/-- The rows that the statement may put into its table, where `same` is the engine's notion of equal
rows. -/
def Statement.Inserts (same : List Value → List Value → Prop) (s : Statement)
    (rows : List (List Value)) : Prop :=
  ∃ source, s.source? = some source ∧ source.Yields same s.params rows

def Writer.supporting (w : Writer) (multiRowValues : Bool) : Writer :=
  { w with dialect.capabilities.multiRowValues := multiRowValues }

def Row.under (keys : List String) (r : Row) : List Value :=
  keys.map fun k => (r.get? k).getD .null

/-- The rows of a query under the keys of its first one. -/
def Query.tuples (q : Query) : List (List Value) := q.rows.map (Row.under (rowKeys q.rows))

@[simp]
theorem Row.length_under (keys : List String) (r : Row) : (r.under keys).length = keys.length := by
  simp [under]

@[simp]
theorem cut_flatten {α : Type} (ts : List (List α)) : cut (ts.map List.length) ts.flatten = ts := by
  induction ts with
  | nil => rfl
  | cons t ts ih => simp [cut, ih]

namespace Source

variable {same : List Value → List Value → Prop}

theorem values_yields (ts rows : List (List Value)) :
    (values (ts.map List.length)).Yields same ts.flatten rows ↔ rows.Perm ts := by
  simp [Yields, List.length_flatten]

theorem selects_yields (t : List Value) (ts rows : List (List Value)) :
    (selects ((true, t.length) :: ts.map fun t => (false, t.length))).Yields same
      (t :: ts).flatten rows ↔ Joined same [t] (ts.map (false, ·)) rows := by
  have hflags : (ts.map fun _ => false).zip ts = ts.map (false, ·) := by
    have h : (ts.map fun _ => false).zip (ts.map id) = ts.map fun t => (false, t) := List.zip_map'
    rwa [List.map_id] at h
  have hwidths : ts.map (Prod.snd ∘ fun t => (false, t.length)) = ts.map List.length := rfl
  have hmerging : ts.map (Prod.fst ∘ fun t => (false, t.length)) = ts.map fun _ => false := rfl
  simp [Yields, hwidths, hmerging, cut, hflags, Joined, List.length_flatten, -List.map_const']

end Source

theorem eq_as_of_mem_tokens {s : List Char} {t : Token} (h : t ∈ Identifier.tokens s) :
    t = .word "as" := by
  unfold Identifier.tokens at h
  split at h <;> simp_all

theorem brackets_params {α : Type} (xs : List α) (n : Nat) (r : List Token) :
    brackets n (xs.flatMap (fun _ => [.param]) ++ .closing :: r) =
      (n + xs.length) :: brackets 0 r := by
  induction xs generalizing n with
  | nil => simp [brackets]
  | cons x xs ih =>
    have hx := ih (n + 1)
    simpa [brackets, Nat.add_assoc, Nat.add_comm 1] using hx

theorem brackets_rows {α β : Type} (rows : List α) (xs : List β) :
    brackets 0 (rows.flatMap fun _ =>
      .opening :: (xs.flatMap (fun _ => [.param]) ++ [.closing])) =
      rows.map fun _ => xs.length := by
  induction rows with
  | nil => rfl
  | cons r rows ih =>
    simp only [List.flatMap_cons, List.cons_append, List.append_assoc, List.nil_append, brackets,
      brackets_params, ih, Nat.zero_add, List.map_cons]

theorem arms_name (s : List Char) (keep : Bool) (n : Nat) (r : List Token) :
    arms keep n (Identifier.tokens s ++ r) = arms keep n r := by
  unfold Identifier.tokens
  split
  · simp [arms]
  · rfl

def tupleTokens (keys : List String) : List Token :=
  keys.flatMap fun k => .param :: .word "as" :: Identifier.tokens k.toList

theorem arms_tuple (keys : List String) (keep : Bool) (n : Nat) (r : List Token) :
    arms keep n (tupleTokens keys ++ r) = arms keep (n + keys.length) r := by
  unfold tupleTokens
  induction keys generalizing n with
  | nil => rfl
  | cons k keys ih =>
    have hk := ih (n + 1)
    simp only [List.flatMap_cons, List.cons_append, List.append_assoc, arms, arms_name]
    simpa [Nat.add_assoc, Nat.add_comm 1] using hk

theorem arms_union {α : Type} (keys : List String) (keep : Bool) (row : α) (rows : List α) :
    arms keep 0 (List.intercalate [.word "union", .word "select"]
      ((row :: rows).map fun _ => tupleTokens keys)) =
      (keep, keys.length) :: rows.map fun _ => (false, keys.length) := by
  induction rows generalizing keep row with
  | nil =>
    have h := arms_tuple keys keep 0 []
    simpa [arms] using h
  | cons row' rows ih =>
    have h := ih false row'
    simp only [List.map_cons] at h
    simp [List.intercalate_cons_cons, arms_tuple, arms, h, -List.map_const']

theorem rowValues_eq {r : Row} {keys : List String} (h : ∀ k ∈ keys, (r.get? k).isSome) :
    rowValues r keys = .ok (r.under keys) := by
  induction keys with
  | nil => rfl
  | cons k keys ih =>
    rw [List.forall_mem_cons] at h
    obtain ⟨v, hv⟩ := Option.isSome_iff_exists.mp h.1
    simp [rowValues, hv, ih h.2, Except.map, Row.under]

theorem rowMajorParams_eq {keys : List String} {rows : List Row}
    (h : ∀ r ∈ rows, ∀ k ∈ keys, (r.get? k).isSome) :
    rowMajorParams keys rows = .ok (rows.map (Row.under keys)).flatten := by
  induction rows with
  | nil => rfl
  | cons r rows ih =>
    rw [List.forall_mem_cons] at h
    simp only [rowMajorParams, rowValues_eq h.1, ih h.2]
    rfl

namespace Writer

def insertHead (w : Writer) (q : Query) : String :=
  "insert into " ++ w.wrap q.table ++ " (" ++ w.columnize (rowKeys q.rows) ++ ") "

theorem insert_eq (w : Writer) {q : Query} (some_ : q.rows ≠ [])
    (full : ∀ r ∈ q.rows, ∀ k ∈ rowKeys q.rows, (r.get? k).isSome) :
    w.insert q =
      .ok ⟨w.insertHead q ++ w.insertSource q.rows (rowKeys q.rows), q.tuples.flatten⟩ := by
  simp [insert, some_, rowMajorParams_eq full, Except.map, insertHead, Query.tuples]

theorem reads_insertHead (w : Writer) (q : Query) :
    ∃ names : List Token, (∀ t ∈ names, t ≠ .closing) ∧
      Reads (w.insertHead q).toList (.word "insert" :: .word "into" :: names ++ [.closing]) := by
  have hinto : Reads "insert into ".toList [.word "insert", .word "into"] := fun _ => rfl
  have hopen : Reads " (".toList [.opening] := fun _ => rfl
  have hclose : Reads ") ".toList [.closing] := fun _ => rfl
  have hr := (((hinto.append (reads_wrap w.flavour q.table)).append hopen).append
    (reads_columnize w.flavour (rowKeys q.rows))).append hclose
  refine ⟨Identifier.tokens q.table.toList ++ .opening ::
    (rowKeys q.rows).flatMap fun k => Identifier.tokens k.toList, ?_, ?_⟩
  · intro t ht e
    subst e
    simp only [List.mem_append, List.mem_cons, List.mem_flatMap, reduceCtorEq, false_or] at ht
    rcases ht with ht | ⟨k, -, ht⟩ <;> cases eq_as_of_mem_tokens ht
  · simpa [insertHead, wrap, columnize, List.append_assoc] using hr

theorem source_insertHead (w : Writer) (q : Query) (text : String) (params : List Value) :
    (⟨w.insertHead q ++ text, params⟩ : Statement).source? =
      Source.ofTokens (lex false [] text.toList) := by
  obtain ⟨names, hnames, hr⟩ := w.reads_insertHead q
  have hlex := hr text.toList
  -- No name holds a closing bracket, so the first one ends the list of columns.
  have hdrop : (names ++ .closing :: lex false [] text.toList).dropWhile (· ≠ .closing) =
      .closing :: lex false [] text.toList := by
    rw [List.dropWhile_append_of_pos (by simpa using hnames)]
    simp
  simp only [Statement.source?, String.toList_append, hlex, List.cons_append, List.append_assoc,
    List.nil_append, hdrop, List.drop_one, List.tail_cons]

theorem source_values (w : Writer) (h : w.dialect.capabilities.multiRowValues = true)
    (rows : List Row) (keys : List String) :
    Source.ofTokens (lex false [] (w.insertSource rows keys).toList) =
      some (.values (rows.map fun _ => keys.length)) := by
  have hvalues : Reads "values ".toList [.word "values"] := fun _ => rfl
  have hopen : Reads "(".toList [.opening] := fun _ => rfl
  have hclose : Reads ")".toList [.closing] := fun _ => rfl
  have hrow : Reads ("(" ++ parameterize keys ++ ")").toList
      (.opening :: (keys.flatMap (fun _ => [.param]) ++ [.closing])) := by
    have hr := (hopen.append (reads_parameterize keys)).append hclose
    simpa using hr
  have hr := (hvalues.append (Reads.separated rows reads_comma fun _ _ => hrow)).lex_eq
  have htext : (w.insertSource rows keys).toList = "values ".toList ++
      List.intercalate ", ".toList (rows.map fun _ => ("(" ++ parameterize keys ++ ")").toList) := by
    simp [insertSource, h, commaSeparated, String.toList_intercalate]
  rw [htext, hr]
  simp [Source.ofTokens, brackets_rows, -List.map_const']

theorem source_selects (w : Writer) (h : w.dialect.capabilities.multiRowValues = false)
    (row : Row) (rows : List Row) (keys : List String) (several : rows ≠ []) :
    Source.ofTokens (lex false [] (w.insertSource (row :: rows) keys).toList) =
      some (.selects ((true, keys.length) :: rows.map fun _ => (false, keys.length))) := by
  have hselect : Reads "select ".toList [.word "select"] := fun _ => rfl
  have hunion : Reads " union select ".toList [.word "union", .word "select"] := fun _ => rfl
  have harm : Reads (w.selectTuple keys).toList (tupleTokens keys) := w.reads_selectTuple keys
  have hr := (hselect.append (Reads.intercalate (row :: rows) hunion fun _ _ => harm)).lex_eq
  have htext : (w.insertSource (row :: rows) keys).toList = "select ".toList ++
      List.intercalate " union select ".toList
        ((row :: rows).map fun _ => (w.selectTuple keys).toList) := by
    simp [insertSource, h, List.length_pos_iff.mpr several, String.toList_intercalate]
  rw [htext, hr]
  simp only [List.singleton_append, Source.ofTokens, arms_union]
  simp

theorem insert_values (same : List Value → List Value → Prop) (w : Writer) {q : Query}
    (hrows : q.rows ≠ [])
    (full : ∀ r ∈ q.rows, ∀ k ∈ rowKeys q.rows, (r.get? k).isSome) :
    ∃ V, (w.supporting true).insert q = .ok V ∧
      ∀ rows, V.Inserts same rows ↔ rows.Perm q.tuples := by
  refine ⟨_, insert_eq _ hrows full, fun rows => ?_⟩
  have hwidths : (q.rows.map fun _ => (rowKeys q.rows).length) = q.tuples.map List.length := by
    simp [Query.tuples, Function.comp_def]
  simp only [Statement.Inserts, source_insertHead, source_values (w.supporting true) rfl, hwidths,
    Option.some.injEq, exists_eq_left', Source.values_yields]

theorem insert_selects {same : List Value → List Value → Prop} (eqv : Equivalence same)
    (w : Writer) {q : Query} (several : 2 ≤ q.rows.length)
    (full : ∀ r ∈ q.rows, ∀ k ∈ rowKeys q.rows, (r.get? k).isSome) :
    ∃ U, (w.supporting false).insert q = .ok U ∧
      ∀ rows, U.Inserts same rows ↔ Distinct same q.tuples rows := by
  have hrows : q.rows ≠ [] := List.ne_nil_of_length_pos (by omega)
  refine ⟨_, insert_eq _ hrows full, fun rows => ?_⟩
  obtain ⟨row, row', rest, hq⟩ : ∃ row row' rest, q.rows = row :: row' :: rest := by
    match h : q.rows, several with
    | row :: row' :: rest, _ => exact ⟨row, row', rest, rfl⟩
  have htuples : q.tuples = row.under (rowKeys q.rows) ::
      (row' :: rest).map (Row.under (rowKeys q.rows)) := by
    simp [Query.tuples, hq]
  have hsource := source_selects (w.supporting false) rfl row (row' :: rest) (rowKeys q.rows)
    (List.cons_ne_nil row' rest)
  have harms : ((row' :: rest).map fun _ => (false, (rowKeys q.rows).length)) =
      ((row' :: rest).map (Row.under (rowKeys q.rows))).map fun t => (false, t.length) := by
    simp [Function.comp_def]
  rw [← hq, harms, ← Row.length_under (rowKeys q.rows) row] at hsource
  simp only [Statement.Inserts, source_insertHead, hsource, Option.some.injEq, exists_eq_left',
    htuples, Source.selects_yields]
  exact joined_merging eqv _ _ _ _

end Writer

/-- An engine that takes no two rows after one `values` is given unioned selects, and these merge
equal rows. So both forms insert the same rows just where no row is repeated. -/
theorem unioned_insert_agrees_iff {same : List Value → List Value → Prop} (eqv : Equivalence same)
    (w : Writer) (q : Query) (several : 2 ≤ q.rows.length)
    (full : ∀ r ∈ q.rows, ∀ k ∈ rowKeys q.rows, (r.get? k).isSome) :
    ∃ V U, (w.supporting true).insert q = .ok V ∧ (w.supporting false).insert q = .ok U ∧
      (∀ rows, V.Inserts same rows ↔ rows.Perm q.tuples) ∧
      (∀ rows, U.Inserts same rows ↔ Distinct same q.tuples rows) ∧
      (∃ rows, U.Inserts same rows) ∧
      ((∀ rows, V.Inserts same rows ↔ U.Inserts same rows) ↔
        q.tuples.Pairwise fun a b => ¬same a b) := by
  have hrows : q.rows ≠ [] := List.ne_nil_of_length_pos (by omega)
  obtain ⟨V, hV, hv⟩ := Writer.insert_values same w hrows full
  obtain ⟨U, hU, hu⟩ := Writer.insert_selects eqv w several full
  refine ⟨V, U, hV, hU, hv, hu, ?_, ?_⟩
  · obtain ⟨rows, h⟩ := Distinct.exists_distinct eqv.refl q.tuples
    exact ⟨rows, (hu rows).mpr h⟩
  · constructor
    · intro h
      have hself : U.Inserts same q.tuples := (h q.tuples).mp ((hv q.tuples).mpr (.refl _))
      exact ((hu q.tuples).mp hself).apart
    · intro h rows
      rw [hv, hu, Distinct.iff_perm eqv h]

def column (vs : List Value) : Query := { table := "t", rows := vs.map fun v => ⟨[("a", v)]⟩ }

theorem unioned_insert_agrees_iff_apart :
    ∃ V U, (Writer.supporting {} true).insert (column [.int 1, .int 2]) = .ok V ∧
      (Writer.supporting {} false).insert (column [.int 1, .int 2]) = .ok U ∧
      ∀ rows, V.Inserts Eq rows ↔ U.Inserts Eq rows := by
  obtain ⟨V, U, hV, hU, -, -, -, h⟩ := unioned_insert_agrees_iff eq_equivalence {}
    (column [.int 1, .int 2]) (by decide) (by decide)
  have htuples : (column [.int 1, .int 2]).tuples = [[.int 1], [.int 2]] := rfl
  exact ⟨V, U, hV, hU, h.mpr (by simp [htuples])⟩

theorem repeated_row_inserted_once :
    ∃ V U, (Writer.supporting {} true).insert (column [.int 1, .int 1]) = .ok V ∧
      (Writer.supporting {} false).insert (column [.int 1, .int 1]) = .ok U ∧
      V.Inserts Eq [[.int 1], [.int 1]] ∧ ¬U.Inserts Eq [[.int 1], [.int 1]] ∧
      U.Inserts Eq [[.int 1]] := by
  have full : ∀ r ∈ (column [.int 1, .int 1]).rows,
    ∀ k ∈ rowKeys (column [.int 1, .int 1]).rows, (r.get? k).isSome := by decide
  obtain ⟨V, hV, hv⟩ := Writer.insert_values Eq {} (by decide) full
  obtain ⟨U, hU, hu⟩ := Writer.insert_selects eq_equivalence {} (by decide) full
  have htuples : (column [.int 1, .int 1]).tuples = [[.int 1], [.int 1]] := rfl
  rw [htuples] at hv hu
  refine ⟨V, U, hV, hU, (hv _).mpr (.refl _), fun h => ?_, (hu _).mpr ?_⟩
  · have hapart := ((hu _).mp h).apart
    simp at hapart
  · exact ⟨by simp, by simp, by simp⟩

end SqliteAccess.Sql
