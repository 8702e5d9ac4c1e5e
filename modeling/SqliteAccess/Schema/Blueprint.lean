import SqliteAccess.Schema.Column
import SqliteAccess.Schema.Command
import SqliteAccess.Text.Lowercase

/-!
The description of one table: its columns in order and the commands that bring it about. A table has
at most one primary key: a `primary` command or one auto-increment column.
-/

namespace SqliteAccess.Schema

structure Blueprint where
  table : String
  columns : List Column := []
  commands : List Command := []

namespace Blueprint

def commandsOf (b : Blueprint) (k : CommandKind) : List Command :=
  b.commands.filter fun c => c.kind? = some k

def commandOf? (b : Blueprint) (k : CommandKind) : Option Command :=
  b.commands.find? fun c => c.kind? = some k

def creating (b : Blueprint) : Bool := b.commands.any Command.isCreateTable

def hasPrimary (b : Blueprint) : Bool := b.commands.any Command.isPrimary

def incrementing? (b : Blueprint) : Option Column := b.columns.find? Column.increments

def push (b : Blueprint) (c : Command) : Blueprint := { b with commands := b.commands ++ [c] }

def pushColumn (b : Blueprint) (c : Column) : Blueprint := { b with columns := b.columns ++ [c] }

/-- A table that is created needs no command to add its columns. -/
def create (b : Blueprint) : Blueprint :=
  { b with commands := .createTable :: b.commands.filter fun c => !c.isAddColumns }

/-- A column of a table that exists is added before all other commands. -/
def addColumn (b : Blueprint) (c : Column) : Blueprint :=
  let b := b.pushColumn c
  if b.creating || b.commands.any Command.isAddColumns then b
  else { b with commands := .addColumns :: b.commands }

def underscored (c : Char) : Char := if c = '-' ∨ c = '.' then '_' else c

def indexName (b : Blueprint) (kind : String) (columns : List String) : String :=
  let joined := String.intercalate "_" (b.table :: columns ++ [kind])
  String.ofList ((Text.lowercase joined).toList.map underscored)

def nameOr (name : Option String) (other : String) : String :=
  match name with
  | some n => if n.isEmpty then other else n
  | none => other

def checkNoPrimary (b : Blueprint) : Except Failure Unit :=
  if b.hasPrimary then .error (.primaryDeclared b.table) else .ok ()

def checkNoIncrements (b : Blueprint) : Except Failure Unit :=
  match b.incrementing? with
  | some c => .error (.primaryIncrements c.name b.table)
  | none => .ok ()

def checkNoKey (b : Blueprint) : Except Failure Unit := do
  b.checkNoPrimary
  b.checkNoIncrements

def primary (b : Blueprint) (columns : List String) (name : Option String) :
    Except Failure Blueprint :=
  b.checkNoKey.map fun _ =>
    b.push (.primary (nameOr name (b.indexName "primary" columns)) columns)

def unique (b : Blueprint) (columns : List String) (name : Option String) : Blueprint :=
  b.push (.unique (nameOr name (b.indexName "unique" columns)) columns)

def index (b : Blueprint) (columns : List String) (name : Option String) : Blueprint :=
  b.push (.index (nameOr name (b.indexName "index" columns)) columns)

def foreign (b : Blueprint) (columns : List String) (on : String) (references : List String)
    (name : Option String) : Blueprint :=
  b.push (.foreign (nameOr name (b.indexName "foreign" columns)) columns on references)

def increments (b : Blueprint) (name : String) : Except Failure (Blueprint × Column) :=
  b.checkNoPrimary.map fun _ =>
    let c : Column := { name, type := .integer, autoIncrement := true }
    (b.addColumn c, c)

end Blueprint

end SqliteAccess.Schema
