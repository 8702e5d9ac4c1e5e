import SqliteAccess.Value
import SqliteAccess.Text.Lowercase

/-!
Bound values that look like credentials are masked before they reach a record.
-/

namespace SqliteAccess.Log

def sensitiveWords : List String :=
  ["password", "passwd", "secret", "token", "api_key", "apikey", "bearer"]

def mask : String := "***"

def occursIn (word : List Char) : List Char → Bool
  | [] => word.isEmpty
  | c :: r => word.isPrefixOf (c :: r) || occursIn word r

def isSensitive (s : String) : Bool :=
  sensitiveWords.any fun w => occursIn w.toList (Text.lowercase s).toList

def redactValue (v : Value) : Value :=
  match v with
  | .text s => if isSensitive s then .text mask else v
  | v => v

def redact (vs : List Value) : List Value := vs.map redactValue

end SqliteAccess.Log
