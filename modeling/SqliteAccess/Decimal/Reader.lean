import SqliteAccess.Text.Blank
import SqliteAccess.Text.Digit

/-!
Reading numerals: blanks around them are dropped, digits may be of any script, and single
underscores may stand between digits.
-/

namespace SqliteAccess.Decimal

open Text

def digitRun? : Bool → List Char → Option (List Nat)
  | afterDigit, [] => if afterDigit then some [] else none
  | afterDigit, c :: r =>
    if c = '_' then if afterDigit then digitRun? false r else none
    else
      match digitValue? c with
      | none => none
      | some d => (digitRun? true r).map (d :: ·)

def ofDigits (ds : List Nat) : Nat := ds.foldl (fun n d => 10 * n + d) 0

def splitSign : List Char → Bool × List Char
  | '-' :: r => (true, r)
  | '+' :: r => (false, r)
  | r => (false, r)

def longestInteger : Nat := 4300

def readInteger? (s : String) : Option Int :=
  let (negative, r) := splitSign (trimWith isNumeralBlank s.toList)
  match digitRun? false r with
  | none => none
  | some ds =>
    if longestInteger < ds.length then none
    else some (if negative then -(ofDigits ds : Int) else ofDigits ds)

def isRunChar (c : Char) : Bool := c = '_' || (digitValue? c).isSome

def optionalRun? (s : List Char) : Option (List Nat) :=
  if s.isEmpty then some [] else digitRun? false s

def readExponent? : List Char → Option Int
  | [] => some 0
  | c :: r =>
    if c = 'e' ∨ c = 'E' then
      let (negative, ds) := splitSign r
      (digitRun? false ds).map fun ds => if negative then -(ofDigits ds : Int) else ofDigits ds
    else none

/-- The double nearest to `mantissa * 10 ^ exponent`. Exponents far out of range are settled
without raising ten to them. -/
def nearest (mantissa : Nat) (digits : Nat) (exponent : Int) : Float :=
  if mantissa = 0 then 0.0
  else if exponent + digits < -400 then 0.0
  else if 400 < exponent then 1.0 / 0.0
  else Float.ofScientific mantissa (exponent < 0) exponent.natAbs

def readDecimal? (s : List Char) : Option Float := do
  let whole := s.takeWhile isRunChar
  let rest := s.dropWhile isRunChar
  let (part, rest) := match rest with
    | '.' :: r => (r.takeWhile isRunChar, r.dropWhile isRunChar)
    | r => ([], r)
  let wholeDigits ← optionalRun? whole
  let partDigits ← optionalRun? part
  let digits := wholeDigits ++ partDigits
  if digits.isEmpty then none
  else
    let exponent ← readExponent? rest
    return nearest (ofDigits digits) digits.length (exponent - partDigits.length)

def isWord (s : List Char) (w : String) : Bool := s.map Char.toLower = w.toList

def readFloat? (s : String) : Option Float :=
  let (negative, r) := splitSign (trimWith isNumeralBlank s.toList)
  let size :=
    if isWord r "inf" || isWord r "infinity" then some (1.0 / 0.0)
    else if isWord r "nan" then some (0.0 / 0.0)
    else readDecimal? r
  size.map fun x => if negative then -x else x

end SqliteAccess.Decimal
