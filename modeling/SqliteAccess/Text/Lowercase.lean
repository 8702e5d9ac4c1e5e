import SqliteAccess.Text.Interval
import SqliteAccess.Text.Lowercase.Table

/-!
Lower-casing by the full rules of Unicode 14: a capital I with a dot becomes two characters, and a
capital sigma takes its final form where a letter comes before it and none after it.
-/

namespace SqliteAccess.Text.Lowercase

def shifted (n : Nat) : List Run → Nat
  | [] => n
  | r :: rs =>
    if r.first ≤ n ∧ n ≤ r.last ∧ (n - r.first) % r.step = 0 then ((n : Int) + r.shift).toNat
    else shifted n rs

def isIgnorable (c : Char) : Bool := Interval.covers ignorable c.toNat

def isCased (c : Char) : Bool := Interval.covers cased c.toNat

def meetsCased (s : List Char) : Bool :=
  match s.dropWhile isIgnorable with
  | [] => false
  | c :: _ => isCased c

def char (c : Char) : List Char :=
  if c.toNat < 128 then [c.toLower]
  else if c.toNat = 0x130 then ['i', Char.ofNat 0x307]
  else [Char.ofNat (shifted c.toNat runs)]

def chars (before : List Char) : List Char → List Char
  | [] => []
  | c :: r =>
    (if c.toNat = 0x3a3 then
      [if meetsCased before && !meetsCased r then Char.ofNat 0x3c2 else Char.ofNat 0x3c3]
    else char c) ++ chars (c :: before) r

end SqliteAccess.Text.Lowercase

namespace SqliteAccess.Text

def lowercase (s : String) : String := String.ofList (Lowercase.chars [] s.toList)

end SqliteAccess.Text
