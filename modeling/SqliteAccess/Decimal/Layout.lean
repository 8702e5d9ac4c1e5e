import SqliteAccess.Decimal.Shortest

/-!
Doubles as text: the shortest digits, positional for decimal exponents from -4 to 15 and with an
exponent of at least two digits beyond them.
-/

namespace SqliteAccess.Decimal

/-- Where positional notation starts and ends, and how wide an exponent is at least. -/
structure Layout where
  lowest : Int
  highest : Int
  exponentDigits : Nat

def plain : Layout := ⟨-4, 15, 2⟩

def padLeft (width : Nat) (s : List Char) : List Char :=
  List.replicate (width - s.length) '0' ++ s

def exponentText (l : Layout) (e : Int) : List Char :=
  'e' :: (if e < 0 then '-' else '+') :: padLeft l.exponentDigits (Nat.toDigits 10 e.natAbs)

def positional (digits : List Char) (point : Int) : List Char :=
  if point ≤ 0 then '0' :: '.' :: List.replicate (-point).toNat '0' ++ digits
  else
    let n := point.toNat
    let whole := digits.take n ++ List.replicate (n - digits.length) '0'
    let rest := digits.drop n
    whole ++ '.' :: (if rest.isEmpty then ['0'] else rest)

def Layout.scaled (l : Layout) (s : Scaled) : List Char :=
  if s.digits = 0 then ['0', '.', '0']
  else
    let digits := Nat.toDigits 10 s.digits
    let point : Int := digits.length + s.exponent
    if l.lowest ≤ point - 1 ∧ point - 1 ≤ l.highest then positional digits point
    else
      match digits with
      | [] => []
      | d :: r => d :: (if r.isEmpty then [] else '.' :: r) ++ exponentText l (point - 1)

def signed (negative : Bool) (s : List Char) : List Char := if negative then '-' :: s else s

def Layout.decoded (l : Layout) : Decoded → List Char
  | .finite b => signed b.negative (l.scaled b.shortest)
  | .infinite negative => signed negative ['i', 'n', 'f']
  | .notANumber => ['n', 'a', 'n']

def text (x : Float) : String := String.ofList (plain.decoded (.ofFloat x))

end SqliteAccess.Decimal
