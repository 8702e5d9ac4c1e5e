import SqliteAccess.Decimal.Binary

/-!
The decimal of fewest digits that reads back as a given double, and of those the nearest one. The
reals that read back as the double form an interval; on a grid of given width one of the double's
two neighbours lies in the interval if any grid point does.
-/

namespace SqliteAccess.Decimal

/-- The number `digits * 10 ^ exponent`. -/
structure Scaled where
  digits : Nat
  exponent : Int
deriving DecidableEq, Repr

/-- The reals that read back as a double, all over one denominator. The ends belong to it iff the
double's mantissa is even. -/
structure Interval where
  low : Nat
  middle : Nat
  high : Nat
  denominator : Nat
  closed : Bool

def Binary.interval (b : Binary) : Interval :=
  let narrow := b.mantissa = Nat.pow 2 52 && b.exponent > -1074
  let scale := Nat.pow 2 b.exponent.toNat
  { low := (4 * b.mantissa - if narrow then 1 else 2) * scale
    middle := 4 * b.mantissa * scale
    high := (4 * b.mantissa + 2) * scale
    denominator := 4 * Nat.pow 2 (-b.exponent).toNat
    closed := b.mantissa % 2 = 0 }

def magnitudeFrom (n d : Nat) : Nat → Int → Int
  | 0, k => k
  | fuel + 1, k =>
    if n * Nat.pow 10 (-k).toNat ≥ d * Nat.pow 10 k.toNat then magnitudeFrom n d fuel (k + 1)
    else if n * Nat.pow 10 (1 - k).toNat < d * Nat.pow 10 (k - 1).toNat then magnitudeFrom n d fuel (k - 1)
    else k

def magnitude (n d : Nat) : Int :=
  let guess := ((n.log2 : Int) - (d.log2 : Int)) * 30103 / 100000
  magnitudeFrom n d 8 guess

def Interval.pointOnGrid (i : Interval) (e : Int) : Option Nat :=
  let unit := i.denominator * Nat.pow 10 e.toNat
  let scale := Nat.pow 10 (-e).toNat
  let inside (m : Nat) : Bool :=
    if i.closed then i.low * scale ≤ m * unit && m * unit ≤ i.high * scale
    else i.low * scale < m * unit && m * unit < i.high * scale
  let below := i.middle * scale / unit
  let remainder := i.middle * scale % unit
  let above := below + 1
  let belowFirst := 2 * remainder < unit || (2 * remainder = unit && below % 2 = 0)
  let (first, second) := if belowFirst then (below, above) else (above, below)
  if inside first then some first else if inside second then some second else none

/-- Tries grids of `count` digits, then of one more, up to the seventeen that always suffice. -/
def shortestFrom (i : Interval) (top : Int) : Nat → Nat → Scaled
  | 0, count => ⟨0, top - count⟩
  | fuel + 1, count =>
    let e := top - count
    match i.pointOnGrid e with
    | some m => ⟨m, e⟩
    | none => shortestFrom i top fuel (count + 1)

def Scaled.dropZeros : Nat → Scaled → Scaled
  | 0, s => s
  | fuel + 1, s =>
    if s.digits % 10 = 0 ∧ s.digits ≠ 0 then dropZeros fuel ⟨s.digits / 10, s.exponent + 1⟩ else s

def Binary.shortest (b : Binary) : Scaled :=
  if b.mantissa = 0 then ⟨0, 0⟩
  else
    let i := b.interval
    (shortestFrom i (magnitude i.middle i.denominator) 18 1).dropZeros 20

end SqliteAccess.Decimal
