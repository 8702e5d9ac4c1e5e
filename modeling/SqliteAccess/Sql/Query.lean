import SqliteAccess.Failure
import SqliteAccess.Keyed
import SqliteAccess.Text.Lowercase

/-!
Descriptions of single-table queries: rows to insert, columns to read and the order to read in.
-/

namespace SqliteAccess.Sql

inductive Direction where
  | asc
  | desc
deriving DecidableEq, Repr

def Direction.name : Direction → String
  | .asc => "asc"
  | .desc => "desc"

def Direction.ofName? (s : String) : Option Direction :=
  if s = "asc" then some .asc else if s = "desc" then some .desc else none

def Direction.ofValue (v : Value) : Except Failure Direction :=
  let name := Text.lowercase v.asText
  match ofName? name with
  | some d => .ok d
  | none => .error (.invalidChoice (Text.quoted name) "Direction")

structure Order where
  column : String
  direction : Direction := .asc
deriving DecidableEq, Repr

/-- Columns with their values. -/
structure Row where
  cells : List (String × Value) := []

namespace Row

def ofPairs (ps : List (String × Value)) : Row := ⟨Keyed.ofPairs ps⟩

def keys (r : Row) : List String := r.cells.map (·.1)

def get? (r : Row) (k : String) : Option Value := Keyed.get? r.cells k

end Row

structure Query where
  table : String
  rows : List Row := []
  orders : List Order := []
  columns : List String := []

end SqliteAccess.Sql
