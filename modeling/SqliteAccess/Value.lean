import SqliteAccess.Number
import SqliteAccess.Text.Quoted

/-!
Values bound to statements, given as settings and read from rows, and their texts.
-/

namespace SqliteAccess

inductive Value where
  | null
  | bool (b : Bool)
  | int (n : Int)
  | float (x : Float)
  | text (s : String)
  | bytes (b : List UInt8)
  | list (vs : List Value)
deriving Inhabited

namespace Value

def number? : Value → Option Number
  | .bool b => some (.bool b)
  | .int n => some (.int n)
  | .float x => some (.float x)
  | _ => none

def ofNumber : Number → Value
  | .bool b => .bool b
  | .int n => .int n
  | .float x => .float x

def isNull : Value → Bool
  | .null => true
  | _ => false

def truthy : Value → Bool
  | .null => false
  | .bool b => b
  | .int n => n ≠ 0
  | .float x => x != 0.0
  | .text s => !s.isEmpty
  | .bytes b => !b.isEmpty
  | .list vs => !vs.isEmpty

mutual

def shown : Value → String
  | .null => "None"
  | .bool b => (Number.bool b).text
  | .int n => (Number.int n).text
  | .float x => (Number.float x).text
  | .text s => Text.quoted s
  | .bytes b => Text.quotedBytes b
  | .list vs => "[" ++ shownAll vs ++ "]"

def shownAll : List Value → String
  | [] => ""
  | [v] => v.shown
  | v :: w :: vs => v.shown ++ ", " ++ shownAll (w :: vs)

end

def asText : Value → String
  | .text s => s
  | v => v.shown

end Value

end SqliteAccess
