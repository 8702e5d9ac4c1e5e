import SqliteAccess.Failure
import SqliteAccess.Log.Correlation
import SqliteAccess.Log.Timing

/-!
Programs that set correlation ids, nest scopes, emit records, time calls, fail and recover, and what
they leave behind.
-/

namespace SqliteAccess.Log

/-- A first action and the program that follows it. -/
inductive Program where
  | done
  | set (given : Option String) (next : Program)
  | get (next : Program)
  | scope (given : Option String) (body next : Program)
  | emit (logger : String) (level : Int) (message : String) (next : Program)
  | wait (ms : Float) (next : Program)
  | time (t : Timing) (body next : Program)
  | fail (message : String) (next : Program)
  | recover (body next : Program)
deriving Inhabited

inductive Output where
  | id (c : CorrelationId)
  | entry (e : Entry)
  | failure (f : Failure)

structure State where
  current : Option CorrelationId := none
  fresh : Nat := 0
  clock : Float := 0.0
  output : List Output := []

namespace State

def append (s : State) (o : Output) : State := { s with output := s.output ++ [o] }

def log (s : State) (r : Record) : State :=
  if r.isKept then s.append (.entry ⟨r, s.current⟩) else s

def set (s : State) (given : Option String) : State :=
  let (id, fresh) := CorrelationId.ofText given s.fresh
  { s with current := some id, fresh }

def get (s : State) : State :=
  match s.current with
  | some _ => s
  | none => s.set none

def reveal (s : State) : State :=
  match s.current with
  | some id => s.append (.id id)
  | none => s

def enter (s : State) (given : Option String) : State × Bool :=
  let (scope, fresh) := Scope.enter s.current given s.fresh
  ({ s with current := some scope.inside, fresh }, scope.restores)

end State

namespace Program

/-- The state after a program, and the failure that escapes from it. -/
def run : Program → State → State × Option Failure
  | done, s => (s, none)
  | set given next, s => next.run (s.set given).reveal
  | get next, s => next.run s.get.reveal
  | scope given body next, s =>
    let (inside, restores) := s.enter given
    let (after, failure) := body.run inside.reveal
    let after := if restores then { after with current := s.current } else after
    match failure with
    | some f => (after, some f)
    | none => next.run after
  | emit logger level message next, s => next.run (s.log { level, logger, message })
  | wait ms next, s => next.run { s with clock := s.clock + ms / 1000.0 }
  | time t body next, s =>
    let (after, failure) := body.run s
    let after := after.log (t.record s.clock after.clock failure.isNone)
    match failure with
    | some f => (after, some f)
    | none => next.run after
  | fail message _, s => (s, some (.raised ⟨"ValueError", message⟩))
  | recover body next, s =>
    let (after, failure) := body.run s
    match failure with
    | some f => next.run (after.append (.failure f))
    | none => next.run after

def output (p : Program) : List Output :=
  let (s, failure) := p.run {}
  s.output ++ (failure.map Output.failure).toList

end Program

end SqliteAccess.Log
