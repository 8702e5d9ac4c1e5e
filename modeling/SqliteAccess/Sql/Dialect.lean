/-!
What an SQL engine can do and how its bookkeeping tables are called.
-/

namespace SqliteAccess.Sql

structure Capabilities where
  /-- Several rows after one `values`; otherwise rows become unioned selects. -/
  multiRowValues : Bool := true
  /-- A `truncate` statement; otherwise rows are deleted and the sequence is reset. -/
  truncate : Bool := true
  dropColumn : Bool := true
deriving DecidableEq, Repr

structure Dialect where
  name : String := "SQLite"
  capabilities : Capabilities := ⟨false, false, false⟩
  catalogTable : String := "sqlite_master"
  /-- The table that holds the last number of each sequence, where the engine has one. -/
  sequenceTable : Option String := some "sqlite_sequence"
deriving DecidableEq, Repr

def sqlite : Dialect := {}

def journalPragma : String := "PRAGMA journal_mode=WAL;"

def foreignKeysPragma : String := "PRAGMA foreign_keys = ON"

def placeholder : String := "?"

end SqliteAccess.Sql
