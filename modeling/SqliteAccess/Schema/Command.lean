/-!
The commands of a table description.
-/

namespace SqliteAccess.Schema

inductive Command where
  | createTable
  | addColumns
  | unique (index : String) (columns : List String)
  | index (index : String) (columns : List String)
  | foreign (index : String) (columns : List String) (on : String) (references : List String)
  | primary (index : String) (columns : List String)
  | rename (name : String)
  | dropTable
  | dropTableIfExists
  | dropColumn (columns : List String)
  | dropUnique (index : String)
  | dropIndex (index : String)
  /-- A text that is no command. It can be listed but not compiled. -/
  | unknown (text : String)
deriving DecidableEq, Repr

inductive CommandKind where
  | createTable
  | addColumns
  | unique
  | index
  | foreign
  | primary
  | rename
  | dropTable
  | dropTableIfExists
  | dropColumn
  | dropUnique
  | dropIndex
deriving DecidableEq, Repr

namespace Command

def kind? : Command → Option CommandKind
  | createTable => some .createTable
  | addColumns => some .addColumns
  | unique _ _ => some .unique
  | index _ _ => some .index
  | foreign _ _ _ _ => some .foreign
  | primary _ _ => some .primary
  | rename _ => some .rename
  | dropTable => some .dropTable
  | dropTableIfExists => some .dropTableIfExists
  | dropColumn _ => some .dropColumn
  | dropUnique _ => some .dropUnique
  | dropIndex _ => some .dropIndex
  | unknown _ => none

def index? : Command → Option String
  | unique i _ | index i _ | foreign i _ _ _ | primary i _ | dropUnique i | dropIndex i => some i
  | _ => none

def columns? : Command → Option (List String)
  | unique _ columns | index _ columns | foreign _ columns _ _ | primary _ columns
  | dropColumn columns => some columns
  | _ => none

def as? (c : Command) : CommandKind → Option Command
  | .createTable => some createTable
  | .addColumns => some addColumns
  | .unique => do return unique (← c.index?) (← c.columns?)
  | .index => do return index (← c.index?) (← c.columns?)
  | .foreign =>
    match c with
    | foreign i columns on references => some (foreign i columns on references)
    | _ => none
  | .primary => do return primary (← c.index?) (← c.columns?)
  | .rename =>
    match c with
    | rename name => some (rename name)
    | _ => none
  | .dropTable => some dropTable
  | .dropTableIfExists => some dropTableIfExists
  | .dropColumn => c.columns?.map dropColumn
  | .dropUnique => c.index?.map dropUnique
  | .dropIndex => c.index?.map dropIndex

def isPrimary : Command → Bool
  | primary _ _ => true
  | _ => false

def isAddColumns : Command → Bool
  | addColumns => true
  | _ => false

def isCreateTable : Command → Bool
  | createTable => true
  | _ => false

end Command

end SqliteAccess.Schema
