import SqliteAccess.Decimal.Fixed
import SqliteAccess.Log.Record
import SqliteAccess.Log.Redaction

/-!
The record of a timed call: a warning if it took at least as long as its threshold.
-/

namespace SqliteAccess.Log

def elapsedMs (start now : Float) : Float := (now - start) * 1000.0

def outcomeName (succeeded : Bool) : String := if succeeded then "ok" else "failed"

structure Timing where
  name : String
  logger : String
  sql : Option String := none
  params : List Value := []
  thresholdMs : Number := .int 100

def Timing.record (t : Timing) (start now : Float) (succeeded : Bool) : Record :=
  let elapsed := elapsedMs start now
  { level := if t.thresholdMs.le (.float elapsed) then warning else debug
    logger := t.logger
    message :=
      t.name ++ " took " ++ Decimal.fixed 2 elapsed ++ "ms (" ++ outcomeName succeeded ++ ")"
    details := .timing t.sql (redact t.params) elapsed succeeded }

end SqliteAccess.Log
