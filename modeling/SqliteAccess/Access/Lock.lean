/-!
A lock that tasks obtain in the order in which they ask for it.
-/

namespace SqliteAccess.Access

inductive Place where
  | waiting
  | granted
  | cancelled
deriving DecidableEq, Repr

structure Lock where
  locked : Bool := false
  line : List (Nat × Place) := []
deriving DecidableEq, Repr

namespace Lock

/-- A newcomer may not overtake a task that still waits or has just been let in. -/
def isFree (l : Lock) : Bool := !l.locked && l.line.all fun p => p.2 = .cancelled

def take (l : Lock) : Lock := { l with locked := true }

def enqueue (l : Lock) (t : Nat) : Lock := { l with line := l.line ++ [(t, .waiting)] }

def mark (l : Lock) (t : Nat) (p : Place) : Lock :=
  { l with line := l.line.map fun q => if q.1 = t then (t, p) else q }

def leave (l : Lock) (t : Nat) : Lock := { l with line := l.line.eraseP fun q => q.1 = t }

/-- The first in line is let in if it still waits. -/
def letIn (l : Lock) : Lock × Option Nat :=
  match l.line with
  | (t, .waiting) :: r => ({ l with line := (t, .granted) :: r }, some t)
  | _ => (l, none)

def release (l : Lock) : Lock × Option Nat := { l with locked := false }.letIn

end Lock

end SqliteAccess.Access
