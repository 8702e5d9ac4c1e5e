import SqliteAccess.Log.Record

/-!
Correlation ids: the id of the call on whose behalf records are emitted, given by the caller or
generated.
-/

namespace SqliteAccess.Log

inductive CorrelationId where
  | named (text : String)
  | generated (number : Nat)
deriving DecidableEq, Repr

structure Entry where
  record : Record
  id : Option CorrelationId

/-- An empty text counts as none, and a fresh id takes its place. -/
def CorrelationId.ofText (given : Option String) (fresh : Nat) : CorrelationId × Nat :=
  match given with
  | some s => if s.isEmpty then (.generated fresh, fresh + 1) else (.named s, fresh)
  | none => (.generated fresh, fresh + 1)

/-- The id inside a scope and whether the one outside is restored after it. -/
structure Scope where
  inside : CorrelationId
  restores : Bool
deriving DecidableEq, Repr

/-- A scope without an id of its own keeps the one that is current. -/
def Scope.enter (current : Option CorrelationId) (given : Option String) (fresh : Nat) :
    Scope × Nat :=
  match current, given with
  | some c, none => (⟨c, false⟩, fresh)
  | _, given =>
    let (id, fresh) := CorrelationId.ofText given fresh
    (⟨id, true⟩, fresh)

end SqliteAccess.Log
