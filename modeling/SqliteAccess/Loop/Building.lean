import SqliteAccess.Loop.Managing
import SqliteAccess.Schema.Definition

/-!
The steps that apply a table description. All its statements are compiled before the first one runs.
-/

namespace SqliteAccess.Loop.State

open Sql (Statement Writer)
open Schema (Blueprint Revision)

def schemaWriter : Writer := {}

def readMode : Value := .text Access.Mode.read.name

def insertMode : Value := .text Access.Mode.insert.name

def reportAll (l : State) (rs : List Log.Record) : State := rs.foldl State.report l

def build (l : State) (m : Nat) (w : Writer) (b : Blueprint) (changes : List Revision) :
    State × Next .statements :=
  match b.reviseAll changes with
  | .error e => (l, .give (.error e))
  | .ok b =>
    let l := l.reportAll (Schema.toSqlRecords w b)
    match Schema.toSql w b with
    | .error e => (l, .give (.error e))
    | .ok ss =>
      (l.report
        { level := Log.debug
          logger := "schema.builder"
          message := "Applying " ++ toString ss.length ++ " statement(s) to " ++ b.table },
        .call (.executeAll m ss readMode) (.built ss))

def built (l : State) (ss : List Statement) (o : Outcome .answers) : State × Next .statements :=
  (l, .give (o.map fun _ => ss))

def hasTable (l : State) (m : Nat) (table : String) : State × Next .flag :=
  (l, .call (.execute m (Schema.tableExists schemaWriter table) readMode) .sought)

def isFound : Option Access.Answer → Bool
  | none => false
  | some (.rows rs) => !rs.isEmpty
  | some (.written _ _) => true

def sought (l : State) (o : Outcome .reply) : State × Next .flag :=
  (l, .give (o.map isFound))

end SqliteAccess.Loop.State
