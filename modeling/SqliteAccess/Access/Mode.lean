import SqliteAccess.Failure

/-!
What a statement is run for: to read rows, or to change them.
-/

namespace SqliteAccess.Access

inductive Mode where
  | read
  | insert
  | update
deriving DecidableEq, Repr

namespace Mode

def name : Mode → String
  | read => "read"
  | insert => "insert"
  | update => "update"

def mutating : Mode → Bool
  | read => false
  | insert | update => true

def all : List Mode := [read, insert, update]

def ofValue (v : Value) : Except Failure Mode :=
  let found := match v with
    | .text s => all.find? (·.name = s)
    | _ => none
  match found with
  | some m => .ok m
  | none => .error (.invalidChoice v.shown "ExecutionMode")

end Mode

end SqliteAccess.Access
