import SqliteAccess.Decimal.Layout

/-!
Numbers that are truth values, whole numbers or doubles, compared by their exact values.
-/

namespace SqliteAccess

inductive Number where
  | bool (b : Bool)
  | int (n : Int)
  | float (x : Float)

/-- The exact value of a number, with the infinities and the one that is no number apart. -/
inductive Number.Exact where
  | below
  | fraction (n : Int) (d : Nat)
  | above
  | notANumber

namespace Number

def Exact.ofDecoded : Decimal.Decoded → Exact
  | .finite b => .fraction (if b.negative then -b.fraction.1 else b.fraction.1) b.fraction.2
  | .infinite negative => if negative then .below else .above
  | .notANumber => .notANumber

def exact : Number → Exact
  | .bool b => .fraction (if b then 1 else 0) 1
  | .int n => .fraction n 1
  | .float x => .ofDecoded (.ofFloat x)

def Exact.lt : Exact → Exact → Bool
  | .notANumber, _ | _, .notANumber => false
  | .below, .below => false
  | .below, _ => true
  | _, .below => false
  | .above, _ => false
  | _, .above => true
  | .fraction n d, .fraction m e => n * e < m * d

def lt (a b : Number) : Bool := a.exact.lt b.exact

def Exact.isNumber : Exact → Bool
  | .notANumber => false
  | _ => true

def le (a b : Number) : Bool := a.exact.isNumber && b.exact.isNumber && !b.lt a

def isInteger : Number → Bool
  | .float _ => false
  | _ => true

def toInt : Number → Int
  | .bool b => if b then 1 else 0
  | .int n => n
  | .float _ => 0

def subCount : Number → Nat → Number
  | .float x, n => .float (x - n.toFloat)
  | a, n => .int (a.toInt - n)

def text : Number → String
  | .bool b => if b then "True" else "False"
  | .int n => toString n
  | .float x => Decimal.text x

theorem lt_int (a b : Int) : lt (.int a) (.int b) = decide (a < b) := by
  simp [lt, exact, Exact.lt]

end Number

end SqliteAccess
