import SqliteAccess.Failure

/-!
Durations given in thousandths of a second, as seconds.
-/

namespace SqliteAccess.Config

def thousandths (n : Int) : Float :=
  let size := Float.ofScientific n.natAbs true 3
  if n < 0 then -size else size

/-- Only numbers are durations, and a whole number must not leave the range of doubles. -/
def seconds (v : Value) : Except Failure Float :=
  match v with
  | .bool b => .ok (thousandths (if b then 1 else 0))
  | .int n =>
    let s := thousandths n
    if s.isInf then .error .quotientTooLarge else .ok s
  | .float x => .ok (x / 1000.0)
  | _ => .error .wrongType

def optionalSeconds (v : Value) : Except Failure (Option Float) :=
  if v.isNull then .ok none else (seconds v).map some

end SqliteAccess.Config
