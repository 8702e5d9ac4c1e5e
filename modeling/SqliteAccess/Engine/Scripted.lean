import SqliteAccess.Access.Database
import SqliteAccess.Failure
import SqliteAccess.Pool.Connection

/-!
An engine that answers by rules: it may keep a call waiting, let time pass, fail, or answer with rows
and counts.
-/

namespace SqliteAccess.Engine

open Pool (Handle)
open Access (Cursor)

/-- What happens to one attempt to open a database. -/
structure Opening where
  hold : Bool := false
  fault : Option Fault := none

/-- What happens to one close of a handle. -/
structure Closing where
  hold : Bool := false
  fault : Option Fault := none

/-- What happens to the statements that start in a given way. -/
structure Rule where
  start : String
  /-- How often the rule still applies; without a number it always does. -/
  times : Option Nat := none
  hold : Bool := false
  delayMs : Float := 0.0
  fault : Option Fault := none
  cursor : Cursor := {}

inductive Request where
  | open (filename : String) (timeout : Value)
  | execute (handle : Handle) (sql : String) (params : List Value)
  | close (handle : Handle)

/-- A call that waits until it is resumed. -/
structure Held where
  task : Nat
  label : String
deriving DecidableEq, Repr

structure State where
  rules : List Rule := []
  openings : List Opening := []
  closings : List Closing := []
  /-- How many handles have been given out. -/
  opened : Nat := 0
  held : List Held := []
  requests : List Request := []

namespace Rule

def applies (r : Rule) (sql : String) : Bool :=
  r.start.toList.isPrefixOf sql.toList && r.times != some 0

def spend (r : Rule) : Rule := { r with times := r.times.map (· - 1) }

/-- The first rule that applies, and all rules after it has been used once. -/
def choose (sql : String) : List Rule → Rule × List Rule
  | [] => ({ start := "" }, [])
  | r :: rs =>
    if r.applies sql then (r, r.spend :: rs)
    else
      let (chosen, rest) := choose sql rs
      (chosen, r :: rest)

end Rule

namespace State

def record (s : State) (r : Request) : State := { s with requests := s.requests ++ [r] }

def nextOpening (s : State) : Opening × State :=
  match s.openings with
  | [] => ({}, s)
  | o :: os => (o, { s with openings := os })

def nextClosing (s : State) : Closing × State :=
  match s.closings with
  | [] => ({}, s)
  | c :: cs => (c, { s with closings := cs })

theorem nextOpening_spec (s : State) : s.nextOpening.2.requests = s.requests ∧
    s.nextOpening.2.opened = s.opened ∧ s.nextOpening.2.rules = s.rules ∧
    s.nextOpening.2.openings = s.openings.tail ∧ s.nextOpening.2.closings = s.closings := by
  unfold nextOpening
  split
  next ho => simp [ho]
  next o os ho => simp [ho]

theorem nextClosing_spec (s : State) : s.nextClosing.2.requests = s.requests ∧
    s.nextClosing.2.opened = s.opened ∧ s.nextClosing.2.rules = s.rules ∧
    s.nextClosing.2.openings = s.openings ∧ s.nextClosing.2.closings = s.closings.tail := by
  unfold nextClosing
  split
  next hc => simp [hc]
  next c cs hc => simp [hc]

def nextRule (s : State) (sql : String) : Rule × State :=
  let (r, rules) := Rule.choose sql s.rules
  (r, { s with rules })

def hold (s : State) (task : Nat) (label : String) : State :=
  { s with held := s.held ++ [⟨task, label⟩] }

def letGo (s : State) (task : Nat) : State :=
  { s with held := s.held.eraseP fun h => h.task = task }

def giveHandle (s : State) : Handle × State :=
  (.numbered (s.opened + 1), { s with opened := s.opened + 1 })

end State

end SqliteAccess.Engine
