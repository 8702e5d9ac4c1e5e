import SqliteAccess.Access.Mode
import SqliteAccess.Config.Location
import SqliteAccess.Sql.Statement

/-!
A database file as it is opened and used: where it is, and from when on a statement counts as slow.
-/

namespace SqliteAccess.Access

structure Database where
  location : Config.Location
  slowMs : Number := .int 100

/-- What the engine answers to a statement. -/
structure Cursor where
  lastId : Value := .int 0
  changes : Value := .int (-1)
  columns : List String := []
  rows : List (List Value) := []

def sameColumn (a b : String) : Bool :=
  a = b ||
    (a.toList.all (fun c => c.toNat < 128) && b.toList.all (fun c => c.toNat < 128) &&
      a.toList.map Char.toLower = b.toList.map Char.toLower)

def columnValue (columns : List String) (values : List Value) (name : String) : Value :=
  (((columns.zip values).find? fun p => sameColumn p.1 name).map (·.2)).getD .null

def rowOf (columns : List String) (values : List Value) : Sql.Row :=
  .ofPairs (columns.map fun name => (name, columnValue columns values name))

/-- What a caller gets for a statement: rows read, or what a change brought about. -/
inductive Answer where
  | rows (rs : List Sql.Row)
  | written (insertId changes : Value)

def Cursor.answer (c : Cursor) (m : Mode) : Answer :=
  if m.mutating then .written c.lastId c.changes
  else .rows (c.rows.map (rowOf c.columns))

def defaultTimeout : Value := .float 5.0

def Database.timeout (d : Database) : Value :=
  if d.location.timeout.isNull then defaultTimeout else d.location.timeout

end SqliteAccess.Access
