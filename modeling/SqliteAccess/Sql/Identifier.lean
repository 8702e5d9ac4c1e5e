import SqliteAccess.Text.Blank
import SqliteAccess.Sql.Dialect

/-!
Names of tables and columns. A name may be qualified by dots and followed by an alias; each piece
is quoted on its own, so that no character of it can end its quotes.
-/

namespace SqliteAccess.Sql

/-- How the pieces of names are written: with the star quoted like any piece, or bare. -/
inductive Flavour where
  | generic
  | sqlite
deriving DecidableEq, Repr

namespace Identifier

open Text

/-- A quote inside a piece is written twice. -/
def doubled (quote : Char) : List Char → List Char
  | [] => []
  | c :: r => if c = quote then quote :: quote :: doubled quote r else c :: doubled quote r

def quotedWith (quote : Char) (s : List Char) : List Char := quote :: doubled quote s ++ [quote]

def pieces : List Char → List (List Char)
  | [] => [[]]
  | c :: r =>
    if c = '.' then [] :: pieces r
    else
      match pieces r with
      | [] => [[c]]
      | p :: ps => (c :: p) :: ps

/-- The letter s has a third form, the long one. -/
def isLetterS (c : Char) : Bool := c = 's' || c = 'S' || c = Char.ofNat 0x17f

def isLetterA (c : Char) : Bool := c = 'a' || c = 'A'

/-- What follows a separator that stands at the start: blanks, the word `as`, blanks. -/
def afterSeparator? (s : List Char) : Option (List Char) :=
  match s with
  | [] => none
  | c :: r =>
    if isBlank c then
      match r.dropWhile isBlank with
      | a :: b :: d :: rest =>
        if isLetterA a && isLetterS b && isBlank d then some (rest.dropWhile isBlank) else none
      | _ => none
    else none

/-- A name and its alias, parted at the leftmost separator. -/
def splitAlias? : List Char → Option (List Char × List Char)
  | [] => none
  | c :: r =>
    match afterSeparator? (c :: r) with
    | some rest => some ([], rest)
    | none => (splitAlias? r).map fun (name, short) => (c :: name, short)

def piece (f : Flavour) (s : List Char) : List Char :=
  if f = .sqlite ∧ s = ['*'] then s else quotedWith '"' s

def qualified (f : Flavour) (s : List Char) : List Char :=
  List.intercalate ['.'] ((pieces s).map (piece f))

def chars (f : Flavour) (s : List Char) : List Char :=
  match splitAlias? s with
  | some (name, short) => qualified f name ++ [' ', 'a', 's', ' '] ++ piece f short
  | none => qualified f s

end Identifier

def quoteIdentifier (s : String) : String := String.ofList (Identifier.quotedWith '"' s.toList)

def wrapPiece (f : Flavour) (s : String) : String := String.ofList (Identifier.piece f s.toList)

def wrap (f : Flavour) (s : String) : String := String.ofList (Identifier.chars f s.toList)

def columnize (f : Flavour) (names : List String) : String :=
  String.intercalate ", " (names.map (wrap f))

end SqliteAccess.Sql
