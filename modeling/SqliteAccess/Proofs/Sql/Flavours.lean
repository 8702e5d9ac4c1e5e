import SqliteAccess.Proofs.Sql.Naming
import SqliteAccess.Sql.Statement

/-!
The two flavours write names alike unless a piece of one is a bare star, so the statements over one dialect are the
same. Only orders differ, by the words that fold case: without them the one text is the other.
-/

namespace SqliteAccess.Sql

open Identifier (Parts)

/-- No piece of the name is just a star. -/
def Starless (s : String) : Prop :=
  ∀ n : Parts, Parts.Of s.toList n → ['*'] ∉ n.pieces ∧ n.short ≠ some ['*']

theorem starless_iff {s : String} :
    Starless s ↔ ['*'] ∉ (Parts.of s.toList).pieces ∧ (Parts.of s.toList).short ≠ some ['*'] := by
  simp only [Starless, Identifier.Parts.of_iff, forall_eq]

/-- No name that is written is just a star, the columns of orders apart. Rows are written under the keys of the first. -/
structure Query.Starless (q : Query) : Prop where
  table : Sql.Starless q.table
  keys : ∀ k ∈ rowKeys q.rows, Sql.Starless k
  columns : ∀ c ∈ q.columns, Sql.Starless c

inductive Spot where
  | quoted
  | start
  | within
deriving DecidableEq, Repr

def Spot.after : Spot → Char → Spot
  | .quoted, c => if c = '"' then .within else .quoted
  | _, c => if c = '"' then .quoted else if c = ' ' then .start else .within

def folding : List Char := "collate nocase ".toList

def ended (s : List Char) : Bool := s.head?.all fun c => c = ',' || c = ' '

def directed (s : List Char) : Bool :=
  [Direction.asc, .desc].any fun d =>
    d.name.toList.isPrefixOf s && ended (s.drop d.name.toList.length)

def uncollate : Spot → Nat → List Char → List Char
  | _, _, [] => []
  | p, n + 1, _ :: r => uncollate p n r
  | p, 0, c :: r =>
    if p = .start ∧ folding.isPrefixOf (c :: r) ∧ directed ((c :: r).drop folding.length) then
      uncollate .start (folding.length - 1) r
    else c :: uncollate (p.after c) 0 r

def uncollated (s : String) : String := String.ofList (uncollate .start 0 s.toList)

theorem head_of_folding {c : Char} {r : List Char} (h : folding.isPrefixOf (c :: r) = true) : c = 'c' := by
  have hf : folding = 'c' :: "ollate nocase ".toList := by decide
  rw [hf, List.isPrefixOf_cons_cons, Bool.and_eq_true, beq_iff_eq] at h
  exact h.1.symm

def Passes (p : Spot) (s : List Char) (p' : Spot) : Prop :=
  ∀ rest, uncollate p 0 (s ++ rest) = s ++ uncollate p' 0 rest

namespace Passes

variable {p p' p'' : Spot} {s s' : List Char}

theorem nil (p : Spot) : Passes p [] p := fun rest => by rw [List.nil_append, List.nil_append]

theorem append (h : Passes p s p') (h' : Passes p' s' p'') : Passes p (s ++ s') p'' := fun rest => by
  rw [List.append_assoc, h, h', List.append_assoc]

theorem cons {c : Char} (hp : p = .start → c ≠ 'c') (h : Passes (p.after c) s p') : Passes p (c :: s) p' := fun rest => by
  have hno : ¬ (p = .start ∧ folding.isPrefixOf (c :: (s ++ rest)) ∧
      directed ((c :: (s ++ rest)).drop folding.length)) := by
    rintro ⟨hs, hf, _⟩
    exact hp hs (head_of_folding hf)
  rw [List.cons_append, uncollate, if_neg hno, h, List.cons_append]

theorem doubled (s : List Char) : Passes .quoted (Identifier.doubled '"' s) .quoted := by
  induction s with
  | nil => exact nil _
  | cons c s ih =>
    rw [Identifier.doubled]
    split
    next h => exact cons nofun (cons nofun ih)
    next h =>
      refine cons nofun ?_
      rwa [Spot.after, if_neg h]

theorem quotedWith (hp : p ≠ .quoted) (s : List Char) : Passes p (Identifier.quotedWith '"' s) .within := by
  have hafter : p.after '"' = .quoted := by cases p <;> first | rfl | exact absurd rfl hp
  refine cons (fun _ => by decide) ?_
  rw [hafter]
  exact (doubled s).append (cons nofun (nil _))

def walk : Spot → List Char → Option Spot
  | p, [] => some p
  | p, c :: s => if p = .start ∧ c = 'c' then none else walk (p.after c) s

theorem of_walk (h : walk p s = some p') : Passes p s p' := by
  induction s generalizing p with
  | nil =>
    cases h
    exact nil _
  | cons c s ih =>
    rw [walk] at h
    split at h
    · cases h
    next hc => exact cons (fun hp he => hc ⟨hp, he⟩) (ih h)

theorem intercalate {α : Type} {sep : List Char} {f : α → List Char} {xs : List α} (hp : p ≠ .quoted)
    (hsep : Passes .within sep p') (hp' : p' ≠ .quoted) (hne : xs ≠ [])
    (h : ∀ x ∈ xs, ∀ p, p ≠ .quoted → Passes p (f x) .within) :
    Passes p (List.intercalate sep (xs.map f)) .within := by
  induction xs generalizing p with
  | nil => exact absurd rfl hne
  | cons x xs ih =>
    rw [List.forall_mem_cons] at h
    cases xs with
    | nil => simpa using h.1 p hp
    | cons y ys => simpa [List.intercalate_cons_cons] using ((h.1 p hp).append hsep).append (ih hp' nofun h.2)

end Passes

namespace Identifier

theorem passes_qualified (s : List Char) {p : Spot} (hp : p ≠ .quoted) : Passes p (qualified .generic s) .within := by
  have hne : pieces s ≠ [] := by
    rw [pieces_eq, List.splitOn_eq_splitOnP]
    exact List.splitOnP_ne_nil _ _
  have hdot : Passes .within ['.'] .within := .of_walk (by decide)
  refine .intercalate hp hdot nofun hne fun x _ p hp => ?_
  rw [piece, if_neg fun h => nomatch h.1]
  exact .quotedWith hp x

theorem passes_chars (s : List Char) {p : Spot} (hp : p ≠ .quoted) : Passes p (chars .generic s) .within := by
  unfold chars
  cases splitAlias? s with
  | none => exact passes_qualified s hp
  | some x =>
    obtain ⟨name, short⟩ := x
    have has : Passes .within [' ', 'a', 's', ' '] .start := .of_walk (by decide)
    have hshort : Passes .start (piece .generic short) .within := by
      rw [piece, if_neg fun h => nomatch h.1]
      exact .quotedWith (by decide) short
    exact ((passes_qualified name hp).append has).append hshort

theorem piece_flavours {s : List Char} (h : s ≠ ['*']) : piece .sqlite s = piece .generic s := by
  rw [piece, piece, if_neg fun hs => h hs.2, if_neg fun hs => nomatch hs.1]

theorem qualified_flavours {s : List Char} (h : ['*'] ∉ s.splitOn '.') : qualified .sqlite s = qualified .generic s := by
  rw [qualified, qualified, pieces_eq]
  refine congrArg _ (List.map_congr_left fun x hx => piece_flavours ?_)
  rintro rfl
  exact h hx

end Identifier

theorem passes_wrap (s : String) {p : Spot} (hp : p ≠ .quoted) : Passes p (wrap .generic s).toList .within := by
  rw [wrap, String.toList_ofList]
  exact Identifier.passes_chars s.toList hp

theorem Starless.wrap_eq {s : String} (h : Starless s) : wrap .sqlite s = wrap .generic s := by
  have hs := starless_iff.mp h
  rw [wrap, wrap, Identifier.chars, Identifier.chars]
  unfold Identifier.Parts.of at hs
  cases hx : Identifier.splitAlias? s.toList with
  | none =>
    rw [hx] at hs
    exact congrArg String.ofList (Identifier.qualified_flavours hs.1)
  | some x =>
    rw [hx] at hs
    dsimp only at hs ⊢
    rw [Identifier.qualified_flavours hs.1, Identifier.piece_flavours fun he => hs.2 (congrArg some he)]

theorem columnize_flavours {names : List String} (h : ∀ s ∈ names, Starless s) :
    columnize .sqlite names = columnize .generic names :=
  congrArg (String.intercalate ", ") (List.map_congr_left fun s hs => (h s hs).wrap_eq)

theorem uncollate_skip (p : Spot) (s r : List Char) : uncollate p s.length (s ++ r) = uncollate p 0 r := by
  induction s with
  | nil => rfl
  | cons c s ih => exact ih

theorem uncollate_folding {x : List Char} (hx : directed x = true) :
    uncollate .start 0 (folding ++ x) = uncollate .start 0 x := by
  have hf : folding = 'c' :: "ollate nocase ".toList := by decide
  have hfold : folding.isPrefixOf (folding ++ x) = true := List.isPrefixOf_iff_prefix.mpr (List.prefix_append _ _)
  have hdrop : (folding ++ x).drop folding.length = x := List.drop_left
  rw [← uncollate_skip .start "ollate nocase ".toList x]
  conv_lhs => rw [hf]
  rw [List.cons_append, uncollate, if_pos]
  · rfl
  · rw [← List.cons_append, ← hf, hdrop]
    exact ⟨rfl, hfold, hx⟩

theorem directed_name (d : Direction) {rest : List Char} (hr : ended rest = true) :
    directed (d.name.toList ++ rest) = true := by
  refine List.any_eq_true.mpr ⟨d, by cases d <;> decide, ?_⟩
  rw [List.drop_left, hr, Bool.and_true]
  exact List.isPrefixOf_iff_prefix.mpr (List.prefix_append _ _)

theorem passes_name (d : Direction) : Passes .start d.name.toList .within := by
  cases d <;> exact .of_walk (by decide)

namespace Writer

def generic (d : Dialect) : Writer := { flavour := .generic, dialect := d }

def folded (d : Dialect) : Writer := { flavour := .sqlite, dialect := d }

variable {d : Dialect} {q : Query}

theorem generic_orderTerm (o : Order) : ((generic d).orderTerm o).toList =
    (Sql.wrap .generic o.column).toList ++ ' ' :: o.direction.name.toList := by
  have hcol : (generic d).collation = "" := rfl
  have hblank : " ".toList = [' '] := rfl
  simp only [orderTerm, wrap, hcol, hblank, String.toList_append, String.append_empty, List.append_assoc,
    List.singleton_append]
  rfl

theorem folded_orderTerm {o : Order} (h : Starless o.column) : ((folded d).orderTerm o).toList =
    (Sql.wrap .generic o.column).toList ++ ' ' :: (folding ++ o.direction.name.toList) := by
  have hname : (folded d).wrap o.column = Sql.wrap .generic o.column := h.wrap_eq
  have hcol : (folded d).collation.toList = folding := rfl
  have hblank : " ".toList = [' '] := rfl
  simp only [orderTerm, hname, hcol, hblank, String.toList_append, List.append_assoc, List.cons_append,
    List.nil_append]

theorem uncollate_term {o : Order} (h : Starless o.column) {rest : List Char} (hr : ended rest = true) :
    uncollate .start 0 (((folded d).orderTerm o).toList ++ rest) =
      ((generic d).orderTerm o).toList ++ uncollate .within 0 rest := by
  have hblank : Passes .within [' '] .start := .of_walk (by decide)
  have hname := (passes_wrap o.column (p := .start) (by decide)).append hblank
  have hx : ((folded d).orderTerm o).toList ++ rest =
      ((Sql.wrap .generic o.column).toList ++ [' ']) ++ (folding ++ (o.direction.name.toList ++ rest)) := by
    simp only [folded_orderTerm h, List.append_assoc, List.cons_append, List.nil_append]
  rw [hx, hname, uncollate_folding (directed_name _ hr), passes_name, generic_orderTerm]
  simp only [List.append_assoc, List.cons_append, List.nil_append]

theorem uncollate_terms {os : List Order} (h : ∀ o ∈ os, Starless o.column) (hne : os ≠ []) {rest : List Char}
    (hr : ended rest = true) :
    uncollate .start 0 (List.intercalate ", ".toList (os.map fun o => ((folded d).orderTerm o).toList) ++ rest) =
      List.intercalate ", ".toList (os.map fun o => ((generic d).orderTerm o).toList) ++ uncollate .within 0 rest := by
  induction os with
  | nil => exact absurd rfl hne
  | cons o os ih =>
    rw [List.forall_mem_cons] at h
    cases os with
    | nil => simpa using uncollate_term h.1 hr
    | cons o' os =>
      have hcomma : Passes .within ", ".toList .start := .of_walk (by decide)
      simp only [List.map_cons, List.intercalate_cons_cons, List.append_assoc] at ih ⊢
      rw [uncollate_term h.1 rfl, hcomma, ih h.2 nofun]

theorem passes_selectText : Passes .start ((generic d).selectText q).toList .within := by
  have hselect : Passes .start "select ".toList .start := .of_walk (by decide)
  have hfrom : Passes .within " from ".toList .start := .of_walk (by decide)
  have hcolumns : Passes .start (if q.columns.isEmpty then "*" else (generic d).columnize q.columns).toList .within := by
    split
    · exact .of_walk (by decide)
    next hne =>
      have hcomma : Passes .within ", ".toList .start := .of_walk (by decide)
      have hall := Passes.intercalate (p := .start) (f := fun s => (Sql.wrap .generic s).toList)
        (by decide) hcomma (by decide) (show q.columns ≠ [] by simpa using hne) fun s _ p hp => passes_wrap s hp
      simpa [columnize, Sql.columnize, generic, String.toList_intercalate, Function.comp_def] using hall
  have h := ((hselect.append hcolumns).append hfrom).append (passes_wrap q.table (by decide))
  simpa [selectText, wrap, generic, String.toList_append] using h

theorem folded_selectText (h : q.Starless) : (folded d).selectText q = (generic d).selectText q := by
  simp only [selectText, columnize, wrap, folded, generic, columnize_flavours h.columns, h.table.wrap_eq]

theorem select_of_orders (w : Writer) (hne : q.orders ≠ []) : (w.select q).sql.toList =
    (w.selectText q).toList ++ (" order by ".toList ++
      List.intercalate ", ".toList (q.orders.map fun o => (w.orderTerm o).toList)) := by
  have he : q.orders.isEmpty = false := by simpa using hne
  simp [select, orders?, he, commaSeparated, String.toList_intercalate, Function.comp_def]

theorem uncollated_select (h : q.Starless) (ho : ∀ o ∈ q.orders, Starless o.column) :
    uncollated ((folded d).select q).sql = ((generic d).select q).sql := by
  rw [← String.toList_inj, uncollated, String.toList_ofList]
  by_cases hne : q.orders = []
  · have hselect : ∀ w : Writer, (w.select q).sql = w.selectText q := fun w => by simp [select, orders?, hne]
    have hpass := passes_selectText (d := d) (q := q) []
    rw [hselect, hselect, folded_selectText h]
    simpa [uncollate] using hpass
  · have hby : Passes .within " order by ".toList .start := .of_walk (by decide)
    have hterms := uncollate_terms (d := d) ho hne (show ended [] = true from rfl)
    rw [select_of_orders _ hne, select_of_orders _ hne, folded_selectText h, passes_selectText, hby]
    rw [List.append_nil, uncollate, List.append_nil] at hterms
    rw [hterms]

theorem folded_insertSource {keys : List String} (h : ∀ k ∈ keys, Starless k) (rows : List Row) :
    (folded d).insertSource rows keys = (generic d).insertSource rows keys := by
  have htuple : (folded d).selectTuple keys = (generic d).selectTuple keys :=
    congrArg commaSeparated (List.map_congr_left fun k hk => congrArg (placeholder ++ " as " ++ ·) (h k hk).wrap_eq)
  simp only [insertSource, htuple]
  rfl

theorem folded_insert (h : q.Starless) : (folded d).insert q = (generic d).insert q := by
  have htable : (folded d).wrap q.table = (generic d).wrap q.table := h.table.wrap_eq
  have hkeys : (folded d).columnize (rowKeys q.rows) = (generic d).columnize (rowKeys q.rows) :=
    columnize_flavours h.keys
  simp only [insert, htable, hkeys, folded_insertSource h.keys]

theorem folded_truncate (h : q.Starless) : (folded d).truncate q = (generic d).truncate q := by
  have htable : (folded d).wrap q.table = (generic d).wrap q.table := h.table.wrap_eq
  simp only [truncate, htable]
  rfl

theorem select_params (w : Writer) : (w.select q).params = [] := by
  unfold select
  split <;> rfl

end Writer

open Writer (generic folded)

/-- Over any dialect the two flavours write the same inserts, or miss the same key, and the same truncations and
selects without orders, unless a piece of a name is just a star. A select with orders, without the words
`collate nocase` before its directions, is the generic one. -/
theorem flavours_agree (d : Dialect) {q : Query} (h : q.Starless) :
    (folded d).insert q = (generic d).insert q ∧ (folded d).truncate q = (generic d).truncate q ∧
      (q.orders = [] → (folded d).select q = (generic d).select q) ∧
      ((∀ o ∈ q.orders, Starless o.column) →
        uncollated ((folded d).select q).sql = ((generic d).select q).sql ∧
        ((folded d).select q).params = ((generic d).select q).params) := by
  refine ⟨Writer.folded_insert h, Writer.folded_truncate h, fun ho => ?_, fun ho => ⟨Writer.uncollated_select h ho, ?_⟩⟩
  · simp only [Writer.select, Writer.orders?, ho, List.isEmpty_nil, if_true, Writer.folded_selectText h]
  · rw [Writer.select_params, Writer.select_params]

def hostile : Query where
  table := "main.collate nocase asc as collate nocase desc"
  rows := [{ cells := [("collate nocase asc", .null)] }]
  orders := [{ column := "a\" collate nocase asc" }, { column := "collate.nocase", direction := .desc }]

theorem flavours_agree_hostile :
    ((folded sqlite).select hostile).sql =
      "select * from \"main\".\"collate nocase asc\" as \"collate nocase desc\"" ++
        " order by \"a\"\" collate nocase asc\" collate nocase asc, \"collate\".\"nocase\" collate nocase desc" ∧
    uncollated ((folded sqlite).select hostile).sql = ((generic sqlite).select hostile).sql ∧
    (folded sqlite).insert hostile = (generic sqlite).insert hostile := by
  have table : Starless hostile.table := starless_iff.mpr (by decide +kernel)
  have keys : ∀ k ∈ rowKeys hostile.rows, Starless k :=
    List.forall_mem_singleton.mpr (starless_iff.mpr (by decide +kernel))
  have orders : ∀ o ∈ hostile.orders, Starless o.column := by
    rw [hostile, List.forall_mem_cons, List.forall_mem_singleton]
    exact ⟨starless_iff.mpr (by decide +kernel), starless_iff.mpr (by decide +kernel)⟩
  obtain ⟨hinsert, -, -, hselect⟩ := flavours_agree sqlite (q := hostile) ⟨table, keys, List.forall_mem_nil _⟩
  exact ⟨by decide +kernel, (hselect orders).1, hinsert⟩

end SqliteAccess.Sql
