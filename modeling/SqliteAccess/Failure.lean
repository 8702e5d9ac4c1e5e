import SqliteAccess.Value

/-!
What can go wrong, by cause, and the wording of each cause.
-/

namespace SqliteAccess

/-- An error that the engine or another outside part reports, with the name of its kind. -/
structure Fault where
  kind : String
  message : String
deriving DecidableEq, Repr

def Fault.text (f : Fault) : String :=
  if f.kind = "KeyError" then Text.quoted f.message else f.message

def Fault.isEngine (f : Fault) : Bool :=
  ["Error", "DatabaseError", "OperationalError", "IntegrityError", "InterfaceError",
    "InternalError", "ProgrammingError", "NotSupportedError", "DataError"].contains f.kind

inductive SettingKind where
  | integer
  | float
  | boolean
deriving DecidableEq, Repr

def SettingKind.name : SettingKind → String
  | .integer => "integer"
  | .float => "float"
  | .boolean => "boolean"

inductive Failure where
  | unknownSetting (key : String)
  | unreadableSetting (kind : SettingKind) (key text : String)
  | noConnectionsAllowed
  | negativeMinimum
  | minimumAboveMaximum
  | environmentUnset (name : String)
  | cannotOpen (label reason : String)
  | cannotCreate (reason : String)
  | rejected (reason sql : String)
  | foreignConnection (id : String)
  | releasedTwice (id : String)
  | notCheckedOut (id : String)
  | alreadyInitialized
  | waitTimedOut (timeout limit : String)
  | poolClosed
  | primaryDeclared (table : String)
  | primaryIncrements (column table : String)
  | dropColumnUnsupported (dialect : String)
  | unknownCommand (shown : String)
  | missingKey (key : String)
  | invalidChoice (shown kind : String)
  | wrongType
  | missingPart
  | quotientTooLarge
  | cancelled
  | raised (fault : Fault)
deriving DecidableEq, Repr

namespace Failure

def message : Failure → String
  | unknownSetting key => "Unknown pool setting '" ++ key ++ "'"
  | unreadableSetting kind key text =>
    "Invalid " ++ kind.name ++ " value for '" ++ key ++ "': " ++ Text.quoted text
  | noConnectionsAllowed => "max_connections must be at least 1"
  | negativeMinimum => "min_connections cannot be negative"
  | minimumAboveMaximum => "min_connections cannot exceed max_connections"
  | environmentUnset name => "Environment variable " ++ name ++ " is not set"
  | cannotOpen label reason => "Could not open " ++ label ++ ": " ++ reason
  | cannotCreate reason => "Could not create pooled connection: " ++ reason
  | rejected reason _ => reason
  | foreignConnection id => "Connection " ++ id ++ " does not belong to this pool."
  | releasedTwice id => "Connection " ++ id ++ " was released twice."
  | notCheckedOut id => "Connection " ++ id ++ " is not checked out from this manager."
  | alreadyInitialized => "Connection manager is already initialized."
  | waitTimedOut timeout limit =>
    "Timed out after " ++ timeout ++ "ms waiting for a connection (" ++ limit ++ " in use)."
  | poolClosed => "Connection pool has been shut down."
  | primaryDeclared table => "Table '" ++ table ++ "' already declares a primary key."
  | primaryIncrements column table =>
    "Column '" ++ column ++ "' on '" ++ table ++ "' is already an auto-increment primary key."
  | dropColumnUnsupported dialect => "Drop column not supported for " ++ dialect ++ "."
  | unknownCommand shown => "Unknown schema command " ++ shown
  | missingKey key => key
  | invalidChoice shown kind => shown ++ " is not a valid " ++ kind
  | wrongType => ""
  | missingPart => ""
  | quotientTooLarge => "integer division result too large for a float"
  | cancelled => ""
  | raised fault => fault.message

def text : Failure → String
  | missingKey key => Text.quoted key
  | raised fault => fault.text
  | e => e.message

/-- Failures to establish a connection pass through a pool unchanged. -/
def isConnection : Failure → Bool
  | cannotOpen _ _ | cannotCreate _ => true
  | raised fault => fault.kind = "AdapterConnectionError"
  | _ => false

def isConfiguration : Failure → Bool
  | unknownSetting _ | unreadableSetting _ _ _ | noConnectionsAllowed | negativeMinimum
  | minimumAboveMaximum | environmentUnset _ => true
  | _ => false

end Failure

end SqliteAccess
