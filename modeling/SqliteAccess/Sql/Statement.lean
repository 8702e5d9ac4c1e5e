import SqliteAccess.Sql.Identifier
import SqliteAccess.Sql.Query

/-!
The statements of a query: select, insert and truncate. Where the engine lacks a form, another one
that it has takes its place.
-/

namespace SqliteAccess.Sql

structure Statement where
  sql : String
  params : List Value := []

/-- A flavour of names over the dialect of an engine. -/
structure Writer where
  flavour : Flavour := .sqlite
  dialect : Dialect := {}

def commaSeparated (parts : List String) : String := String.intercalate ", " parts

def parameterize {α : Type} (values : List α) : String :=
  commaSeparated (values.map fun _ => placeholder)

def rowKeys : List Row → List String
  | [] => []
  | r :: _ => r.keys

def rowValues (r : Row) : List String → Except Failure (List Value)
  | [] => .ok []
  | k :: ks =>
    match r.get? k with
    | none => .error (.missingKey k)
    | some v => (rowValues r ks).map (v :: ·)

def rowMajorParams (keys : List String) : List Row → Except Failure (List Value)
  | [] => .ok []
  | r :: rs => do
    let vs ← rowValues r keys
    let rest ← rowMajorParams keys rs
    return vs ++ rest

namespace Writer

def wrap (w : Writer) (s : String) : String := Sql.wrap w.flavour s

def columnize (w : Writer) (names : List String) : String := Sql.columnize w.flavour names

def collation (w : Writer) : String :=
  match w.flavour with
  | .generic => ""
  | .sqlite => "collate nocase "

def orderTerm (w : Writer) (o : Order) : String :=
  w.wrap o.column ++ " " ++ w.collation ++ o.direction.name

def orders? (w : Writer) (os : List Order) : Option String :=
  if os.isEmpty then none else some ("order by " ++ commaSeparated (os.map w.orderTerm))

def selectText (w : Writer) (q : Query) : String :=
  "select " ++ (if q.columns.isEmpty then "*" else w.columnize q.columns) ++
    " from " ++ w.wrap q.table

def select (w : Writer) (q : Query) : Statement :=
  match w.orders? q.orders with
  | none => ⟨w.selectText q, []⟩
  | some order => ⟨w.selectText q ++ " " ++ order, []⟩

def selectTuple (w : Writer) (keys : List String) : String :=
  commaSeparated (keys.map fun k => placeholder ++ " as " ++ w.wrap k)

def insertSource (w : Writer) (rows : List Row) (keys : List String) : String :=
  if 1 < rows.length ∧ ¬ w.dialect.capabilities.multiRowValues then
    "select " ++ String.intercalate " union select " (rows.map fun _ => w.selectTuple keys)
  else "values " ++ commaSeparated (rows.map fun _ => "(" ++ parameterize keys ++ ")")

/-- The keys of the first row stand for all rows. -/
def insert (w : Writer) (q : Query) : Except Failure Statement :=
  let target := "insert into " ++ w.wrap q.table
  if q.rows.isEmpty then .ok ⟨target ++ " default values", []⟩
  else
    let keys := rowKeys q.rows
    (rowMajorParams keys q.rows).map fun params =>
      ⟨target ++ " (" ++ w.columnize keys ++ ") " ++ w.insertSource q.rows keys, params⟩

/-- Without a `truncate` statement the rows are deleted and the sequence of the table is reset. -/
def truncate (w : Writer) (q : Query) : List Statement :=
  if w.dialect.capabilities.truncate then [⟨"truncate " ++ w.wrap q.table, []⟩]
  else
    let deletion : Statement := ⟨"delete from " ++ w.wrap q.table, []⟩
    match w.dialect.sequenceTable with
    | none => [deletion]
    | some sequence =>
      if sequence.isEmpty then [deletion]
      else
        [⟨"delete from " ++ sequence ++ " where name = " ++ placeholder, [.text q.table]⟩, deletion]

end Writer

end SqliteAccess.Sql
