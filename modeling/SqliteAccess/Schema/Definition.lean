import SqliteAccess.Schema.Blueprint
import SqliteAccess.Sql.Statement
import SqliteAccess.Log.Record

/-!
The statements that a table description compiles to. Primary and foreign keys can only be declared
while a table is created, so both are part of `create table`.
-/

namespace SqliteAccess.Schema

open Sql (Writer Statement)

def defaultText (v : Value) : String :=
  match v with
  | .bool b => if b then "1" else "0"
  | v => String.ofList (Sql.Identifier.doubled '\'' v.asText.toList)

def nullability (c : Column) : String := if c.nullable then " null" else " not null"

def defaultClause? (c : Column) : Option String :=
  if c.default.isNull then none else some (" default '" ++ defaultText c.default ++ "'")

def incrementClause? (c : Column) : Option String :=
  if c.increments then some " primary key autoincrement" else none

def columnDefinition (w : Writer) (c : Column) : String :=
  w.wrap c.name ++ " " ++ c.type.sqlName ++ nullability c ++ (defaultClause? c).getD "" ++
    (incrementClause? c).getD ""

def columnDefinitions (w : Writer) (b : Blueprint) : List String :=
  b.columns.map (columnDefinition w)

def foreignKeyClause (w : Writer) : Command → String
  | .foreign _ columns on references =>
    ", foreign key(" ++ w.columnize columns ++ ") references " ++ w.wrap on ++
      "(" ++ w.columnize references ++ ")"
  | _ => ""

def foreignKeys (w : Writer) (b : Blueprint) : String :=
  String.join (b.commands.map (foreignKeyClause w))

def primaryKeyClause? (w : Writer) : Command → Option String
  | .primary _ columns => some (", primary key (" ++ w.columnize columns ++ ")")
  | _ => none

def primaryKey (w : Writer) (b : Blueprint) : String :=
  (b.commands.findSome? (primaryKeyClause? w)).getD ""

def createTable (w : Writer) (b : Blueprint) : String :=
  "create table " ++ w.wrap b.table ++ " (" ++ Sql.commaSeparated (columnDefinitions w b) ++
    foreignKeys w b ++ primaryKey w b ++ ")"

def addColumns (w : Writer) (b : Blueprint) : List String :=
  (columnDefinitions w b).map fun c => "alter table " ++ w.wrap b.table ++ " add column " ++ c

def indexOn (w : Writer) (b : Blueprint) (words index : String) (columns : List String) : String :=
  words ++ index ++ " on " ++ w.wrap b.table ++ " (" ++ w.columnize columns ++ ")"

def dropColumns (w : Writer) (b : Blueprint) (columns : List String) :
    Except Failure (List String) :=
  if w.dialect.capabilities.dropColumn then
    .ok (columns.map fun c => "alter table " ++ w.wrap b.table ++ " drop column " ++ w.wrap c)
  else .error (.dropColumnUnsupported w.dialect.name)

/-- What a command compiles to: nothing, one statement or a list of them. -/
inductive Compiled where
  | nothing
  | single (sql : String)
  | several (sqls : List String)
deriving DecidableEq, Repr

def Compiled.toList : Compiled → List String
  | nothing => []
  | single sql => [sql]
  | several sqls => sqls

def compile (w : Writer) (b : Blueprint) : Command → Except Failure Compiled
  | .createTable => .ok (.single (createTable w b))
  | .addColumns => .ok (.several (addColumns w b))
  | .unique i columns => .ok (.single (indexOn w b "create unique index " i columns))
  | .index i columns => .ok (.single (indexOn w b "create index " i columns))
  | .foreign _ _ _ _ => .ok .nothing
  | .primary _ _ => .ok .nothing
  | .rename name =>
    .ok (.single ("alter table " ++ w.wrap b.table ++ " rename to " ++ w.wrap name))
  | .dropTable => .ok (.single ("drop table " ++ w.wrap b.table))
  | .dropTableIfExists => .ok (.single ("drop table if exists " ++ w.wrap b.table))
  | .dropColumn columns => (dropColumns w b columns).map .several
  | .dropUnique i => .ok (.single ("drop index " ++ i))
  | .dropIndex i => .ok (.single ("drop index " ++ i))
  | .unknown text => .error (.unknownCommand (Text.quoted text))

/-- Compiles a command as one of the given kind. A foreign key asks for no parts, since nothing is
written for it, and a dialect that cannot drop columns refuses before any part is looked at. -/
def compileAs (w : Writer) (b : Blueprint) (kind : CommandKind) (c : Command) :
    Except Failure Compiled :=
  match kind, c.as? kind with
  | _, some c => compile w b c
  | .foreign, none => .ok .nothing
  | .dropColumn, none => do
    let _ ← dropColumns w b []
    .error .missingPart
  | _, none => .error .missingPart

def announcements (w : Writer) (b : Blueprint) : Command → List Log.Record
  | .dropTable | .dropTableIfExists =>
    [{ level := Log.warning
       logger := "schema.grammar"
       message := "DROP TABLE generated for " ++ w.wrap b.table ++
        "; confirm destructive migration before applying." }]
  | _ => []

def statementsOf (w : Writer) (b : Blueprint) : List Command → Except Failure (List Statement)
  | [] => .ok []
  | c :: cs => do
    let compiled ← compile w b c
    let rest ← statementsOf w b cs
    return compiled.toList.map (⟨·, []⟩) ++ rest

/-- The statements of all commands in order, or the failure of the first that cannot be compiled. -/
def toSql (w : Writer) (b : Blueprint) : Except Failure (List Statement) :=
  statementsOf w b b.commands

def announcementsOf (w : Writer) (b : Blueprint) : List Command → List Log.Record
  | [] => []
  | c :: cs =>
    announcements w b c ++
      match compile w b c with
      | .ok _ => announcementsOf w b cs
      | .error _ => []

def toSqlRecords (w : Writer) (b : Blueprint) : List Log.Record := announcementsOf w b b.commands

def tableExists (w : Writer) (table : String) : Statement :=
  ⟨"select * from " ++ w.dialect.catalogTable ++ " where type = 'table' and name = ?", [.text table]⟩

end SqliteAccess.Schema
