import SqliteAccess.Access.Database
import SqliteAccess.Config.PoolSettings
import SqliteAccess.Schema.Call
import SqliteAccess.Sql.Statement

/-!
A library of writers and their books: two tables, some rows for them, and the question who wrote what.
-/

namespace SqliteAccess.Demo

open Schema (Blueprint Revision Method)
open Sql (Statement Query Row)

def defaultUrl : String := "sqlite:///library.db"

def settings : Config.PoolSettings := { maxConnections := .int 4, minConnections := .int 1 }

def called (m : Method) (positional : List Value) (named : List (String × Value)) : Revision :=
  .call ⟨m, positional, named⟩

def writersTable : Blueprint := { table := "writers" }

def writersColumns : List Revision :=
  [called .increments [] [],
   called .string [.text "name"] [],
   called .string [.text "country"] [("nullable", .bool true)],
   called .unique [.text "name"] []]

def booksTable : Blueprint := { table := "books" }

def booksColumns : List Revision :=
  [called .increments [] [],
   called (.plain .integer) [.text "writer_id"] [],
   called .string [.text "title"] [],
   called (.plain .boolean) [.text "published"] [("default", .bool true)],
   called .foreign [.text "writer_id"] [("on", .text "writers")]]

def writers : List Row :=
  [⟨[("name", .text "Octavia Butler"), ("country", .text "USA")]⟩,
   ⟨[("name", .text "haruki Murakami"), ("country", .text "Japan")]⟩]

def books : List (String × String) :=
  [("Octavia Butler", "Kindred"),
   ("Octavia Butler", "parable of the Sower"),
   ("haruki Murakami", "Kafka on the Shore")]

def writer : Sql.Writer := {}

def insertInto (table : String) (rows : List Row) : Except Failure Statement :=
  writer.insert { table, rows }

def insertWriters : Except Failure Statement := insertInto "writers" writers

def selectWriters : Statement := writer.select { table := "writers", columns := ["id", "name"] }

def cell (r : Row) (k : String) : Except Failure Value :=
  match r.get? k with
  | some v => .ok v
  | none => .error (.missingKey k)

def namesAndIds : List Row → Except Failure (List (Value × Value))
  | [] => .ok []
  | r :: rs => do
    let name ← cell r "name"
    let id ← cell r "id"
    return (name, id) :: (← namesAndIds rs)

def isText (s : String) : Value → Bool
  | .text t => t = s
  | _ => false

def idOf (known : List (Value × Value)) (author : String) : Except Failure Value :=
  match known.reverse.find? fun p => isText author p.1 with
  | some p => .ok p.2
  | none => .error (.missingKey author)

def bookRows (known : List (Value × Value)) : List (String × String) → Except Failure (List Row)
  | [] => .ok []
  | (author, title) :: rest => do
    let id ← idOf known author
    return ⟨[("writer_id", id), ("title", .text title)]⟩ :: (← bookRows known rest)

def insertBooks (read : List Row) : Except Failure Statement := do
  insertInto "books" (← bookRows (← namesAndIds read) books)

def readingOrder : List Sql.Order := [⟨"w.name", .asc⟩, ⟨"b.title", .asc⟩]

def selectBooks : Statement :=
  ⟨"select " ++ writer.columnize ["b.title", "w.name as author"] ++ " from " ++
    writer.wrap "books as b" ++ " join " ++ writer.wrap "writers as w" ++ " on " ++
    writer.wrap "w.id" ++ " = " ++ writer.wrap "b.writer_id" ++ " " ++
    (writer.orders? readingOrder).getD "", []⟩

def empty : List Statement :=
  writer.truncate { table := "books" } ++ writer.truncate { table := "writers" }

end SqliteAccess.Demo
