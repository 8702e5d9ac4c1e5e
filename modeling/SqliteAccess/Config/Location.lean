import SqliteAccess.Failure

/-!
Where a database is: the file, and how long to wait for it while it is locked.
-/

namespace SqliteAccess.Config

structure Location where
  filename : String
  timeout : Value := .null
  /-- Where the file name comes from. -/
  source : Option String := none

namespace Location

def urlStart : String := "sqlite:///"

/-- What is no URL of this kind is taken as a path. -/
def pathOfUrl (url : String) : String :=
  if urlStart.toList.isPrefixOf url.toList then
    String.ofList (url.toList.drop urlStart.toList.length)
  else url

def sourceOf : Value → Except Failure (Option String)
  | .null => .ok none
  | .text s => .ok (some s)
  | _ => .error .wrongType

def withOption (l : Location) (o : String × Value) : Except Failure Location :=
  match o.1 with
  | "timeout" => .ok { l with timeout := o.2 }
  | "source" => (sourceOf o.2).map fun source => { l with source }
  | _ => .error .wrongType

def ofUrl (url : String) (options : List (String × Value)) : Except Failure Location :=
  options.foldlM withOption ⟨pathOfUrl url, .null, none⟩

/-- The variable is the source, so no other one can be given. An empty variable counts as unset. -/
def ofEnvironment (name content : String) (options : List (String × Value)) :
    Except Failure Location :=
  if content.isEmpty then .error (.environmentUnset name)
  else if options.any fun o => o.1 = "source" then .error .wrongType
  else ofUrl content (options ++ [("source", .text name)])

def label (l : Location) : String :=
  match l.source with
  | some s => if s.isEmpty then l.filename else s ++ " (" ++ l.filename ++ ")"
  | none => l.filename

end Location

end SqliteAccess.Config
