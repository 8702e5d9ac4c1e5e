import SqliteAccess.Decimal.Layout

/-!
Doubles with a fixed number of decimal places, rounded from their exact value, a half to even.
-/

namespace SqliteAccess.Decimal

def roundedQuotient (n d : Nat) : Nat :=
  let below := n / d
  let twice := 2 * (n % d)
  if twice < d || (twice = d && below % 2 = 0) then below else below + 1

def fixedDigits (places n : Nat) : List Char :=
  let digits := padLeft (places + 1) (Nat.toDigits 10 n)
  let whole := digits.length - places
  digits.take whole ++ (if places = 0 then [] else '.' :: digits.drop whole)

def fixedChars (places : Nat) : Decoded → List Char
  | .finite b =>
    signed b.negative (fixedDigits places (roundedQuotient (b.fraction.1 * Nat.pow 10 places) b.fraction.2))
  | .infinite negative => signed negative ['i', 'n', 'f']
  | .notANumber => ['n', 'a', 'n']

def fixed (places : Nat) (x : Float) : String := String.ofList (fixedChars places (.ofFloat x))

end SqliteAccess.Decimal
