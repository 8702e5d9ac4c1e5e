import SqliteAccess.Loop.Machine

/-!
A session drives a loop from outside: it starts named tasks, acts on what they hold, moves time, and
reports after each step what has come of it.
-/

namespace SqliteAccess.Session

open Loop (Shape Outcome Call)
open Pool (Lease)

/-- A connection as a step names it. -/
inductive Reference where
  | name (s : String)
  | id (s : String)
deriving DecidableEq, Repr

/-- What a task of the session has ended with. -/
structure Event where
  task : String
  shape : Shape
  outcome : Outcome shape

/-- What a step brings at once. -/
inductive Result where
  | nothing
  /-- What the step names does not exist. -/
  | skip
  | connection (id : Nat)
  | failure (e : Failure)
  | seconds (x : Float)
  | all (rs : List Result)
deriving Inhabited

structure PoolView where
  size : Nat
  idle : Nat
  inUse : Nat
  waiting : Nat
  closed : Bool
deriving DecidableEq, Repr

def PoolView.of (s : Pool.State) : PoolView := ⟨s.size, s.idle.length, s.inUse, s.waiting, s.closed⟩

structure State where
  loop : Loop.State
  /-- Named tasks whose end has not been reported. -/
  unreported : List (String × Nat) := []
  /-- The task that each name stands for. -/
  tasks : List (String × Nat) := []
  /-- What the task of each name has last acquired. -/
  held : List (String × Lease) := []

namespace State

def onLoop (s : State) (f : Loop.State → Loop.State) : State := { s with loop := f s.loop }

/-- Starts a procedure as a task with a name. -/
def begin {h : Shape} (s : State) (name : String) (c : Call h) : State :=
  let (loop, t) := s.loop.spawn c []
  { s with loop, unreported := s.unreported ++ [(name, t)], tasks := Keyed.put s.tasks name t }

def outcome? (s : State) (name : String) (t : Nat) : Option Event :=
  match s.loop.tasks[t]? with
  | some { status := .finished h o, .. } => some ⟨name, h, o⟩
  | _ => none

def leaseOf : Event → Option Lease
  | ⟨_, .lease, .ok c⟩ => some c
  | ⟨_, .borrowed, .ok c⟩ => c
  | _ => none

def noteLease (held : List (String × Lease)) (e : Event) : List (String × Lease) :=
  match leaseOf e with
  | some c => Keyed.put held e.task c
  | none => held

def insertEvent (e : Event) : List Event → List Event
  | [] => [e]
  | x :: xs => if e.task < x.task then e :: x :: xs else x :: insertEvent e xs

def sortEvents (es : List Event) : List Event := es.foldl (fun sorted e => insertEvent e sorted) []

def collect (s : State) : State × List Event :=
  let ended := s.unreported.filterMap fun (name, t) => s.outcome? name t
  ({ s with
      unreported := s.unreported.filter fun (_, t) => !s.loop.isFinished t
      held := ended.foldl noteLease s.held },
    sortEvents ended)

def takeLog (s : State) : State × List Log.Entry :=
  (s.onLoop fun l => { l with log := [] }, s.loop.log)

def liveById? (pool : Option Pool.State) (text : String) : Option Lease := do
  let p ← pool
  let c ← p.live.find? fun c => Pool.connectionName c.id = text
  return c.lease

def lease? (s : State) (pool : Option Pool.State) : Reference → Option Lease
  | .name n => Keyed.get? s.held n
  | .id text => liveById? pool text

def cancel (s : State) (name : String) : State × Result :=
  match Keyed.get? s.tasks name with
  | none => (s, .skip)
  | some t => (s.onLoop fun l => l.cancel t, .nothing)

def foreign (s : State) (name : String) : State × Result :=
  let (loop, id) := s.loop.addStandalone .stray
  ({ s with loop, held := Keyed.put s.held name ⟨id, .stray⟩ }, .connection id)

def idleFor (s : State) (c : Lease) (nowMs : Option Float) : Result :=
  match s.loop.connection? c.id with
  | none => .skip
  | some c => .seconds (c.idleFor ((nowMs.map (· / 1000.0)).getD s.loop.clock))

def resultOf (r : Except Failure Unit) : Result :=
  match r with
  | .ok _ => .nothing
  | .error e => .failure e

end State

end SqliteAccess.Session
