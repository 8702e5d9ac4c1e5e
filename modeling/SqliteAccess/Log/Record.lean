import SqliteAccess.Value

/-!
Log records: what a part of the library reports, before it is stamped with the id of the call on
whose behalf it runs.
-/

namespace SqliteAccess.Log

def debug : Int := 10

def info : Int := 20

def warning : Int := 30

def error : Int := 40

def levelName (level : Int) : String :=
  if level = 0 then "NOTSET"
  else if level = 10 then "DEBUG"
  else if level = 20 then "INFO"
  else if level = 30 then "WARNING"
  else if level = 40 then "ERROR"
  else if level = 50 then "CRITICAL"
  else "Level " ++ toString level

/-- What a record carries beside its message. -/
inductive Details where
  | none
  | statement (sql : String) (params : List Value)
  | timing (sql : Option String) (params : List Value) (elapsedMs : Float) (succeeded : Bool)

structure Record where
  level : Int
  logger : String
  message : String
  details : Details := .none

def threshold : Int := debug

def Record.isKept (r : Record) : Bool := threshold ≤ r.level

def fullName (logger : String) : String := "emberlite." ++ logger

end SqliteAccess.Log
