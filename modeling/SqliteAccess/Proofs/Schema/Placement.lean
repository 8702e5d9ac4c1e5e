import SqliteAccess.Proofs.Schema.Arrangement
import SqliteAccess.Proofs.Schema.Creation

/-!
Where the columns of a table are defined. They are in the statement that creates the table, or each is added
by a statement of its own; either comes before what the other commands bring about.
-/

namespace SqliteAccess.Schema

open Sql (Lexeme Statement Writer Apart Scans lexemes? unquoted)
open Sql.Identifier (Parts)
open Sql.Lexeme (bares after? readName Ends)

variable {w : Writer} {b : Blueprint} {c : Command} {column : Column} {ss : List Statement}

namespace Blueprint

end Blueprint

end SqliteAccess.Schema
