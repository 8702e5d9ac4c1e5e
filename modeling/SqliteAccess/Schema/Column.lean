import SqliteAccess.Failure

/-!
Columns of a table and their types.
-/

namespace SqliteAccess.Schema

inductive ColumnType where
  | string
  | text
  | integer
  | float
  | decimal
  | boolean
  | enum
  | date
  | datetime
  | time
  | timestamp
  | binary
deriving DecidableEq, Repr

namespace ColumnType

def all : List ColumnType :=
  [string, text, integer, float, decimal, boolean, enum, date, datetime, time, timestamp, binary]

def name : ColumnType → String
  | string => "string"
  | text => "text"
  | integer => "integer"
  | float => "float"
  | decimal => "decimal"
  | boolean => "boolean"
  | enum => "enum"
  | date => "date"
  | datetime => "datetime"
  | time => "time"
  | timestamp => "timestamp"
  | binary => "binary"

def ofValue (v : Value) : Except Failure ColumnType :=
  let found := match v with
    | .text s => all.find? (·.name = s)
    | _ => none
  match found with
  | some t => .ok t
  | none => .error (.invalidChoice v.shown "ColumnType")

def sqlName : ColumnType → String
  | string => "varchar"
  | text => "text"
  | integer => "integer"
  | float => "float"
  | decimal => "float"
  | boolean => "tinyint"
  | enum => "varchar"
  | date => "date"
  | datetime => "datetime"
  | time => "time"
  | timestamp => "datetime"
  | binary => "blob"

end ColumnType

structure Column where
  name : String
  type : ColumnType
  nullable : Bool := false
  default : Value := .null
  autoIncrement : Bool := false
  length : Option Int := none
  precision : Option Int := none
  scale : Option Int := none
  allowed : List String := []

def Column.increments (c : Column) : Bool := c.type = .integer && c.autoIncrement

end SqliteAccess.Schema
