/-!
Sets of numbers given as a list of closed intervals.
-/

namespace SqliteAccess.Text.Interval

def covers : List (Nat × Nat) → Nat → Bool
  | [], _ => false
  | (a, b) :: r, n => (a ≤ n && n ≤ b) || covers r n

end SqliteAccess.Text.Interval
