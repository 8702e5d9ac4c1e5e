import SqliteAccess.Log.Correlation
import SqliteAccess.Loop.Procedure

/-!
Cooperative tasks on one loop. One task runs at a time and only gives way where it pauses; tasks that
can go on do so in the order in which they became able to. Time moves only from outside.
-/

namespace SqliteAccess.Loop

/-- What happens in the loop when a task ends. -/
inductive Follower where
  | dropBackground (p : Nat)
  | resume (t : Nat)
  | count (t : Nat)
deriving DecidableEq, Repr

inductive Status where
  /-- Able to go on, with a failure if that is what it waited for. -/
  | ready (signal : Option Failure) (stack : Stack .unit)
  | paused (w : Wait) (stack : Stack .unit)
  | running
  | finished (s : Shape) (o : Outcome s)

structure Task where
  status : Status
  /-- The correlation id of a task, at first that of the task that made it. -/
  context : Option Log.CorrelationId
  cancelRequested : Bool := false
  followers : List Follower := []

/-- What waits to be done, in order. -/
inductive Job where
  | step (t : Nat)
  | ring (timer : Nat)
  | dropBackground (p t : Nat)
  /-- One of the tasks that a task waits for has ended. -/
  | count (t ended : Nat)
  | notice (t : Nat)
deriving DecidableEq, Repr

structure Timer where
  number : Nat
  due : Float
  task : Nat

inductive Control (s : Shape) where
  | call (c : Call s)
  | give (o : Outcome s)

/-- The procedure at work and what is left to do after it. -/
structure Running where
  task : Nat
  shape : Shape
  control : Control shape
  stack : Stack shape

structure State where
  clock : Float := 0.0
  tasks : List Task := []
  running : Option Running := none
  ready : List Job := []
  /-- Jobs left in this turn. Timers that are due are looked at between turns. -/
  turnLeft : Nat := 0
  timers : List Timer := []
  nextTimer : Nat := 0
  pools : List Pool.State := []
  managers : List Access.Manager := []
  /-- Connections that belong to no pool. -/
  standalone : List Pool.Connection := []
  nextConnection : Nat := 1
  opener : Engine.Opener := {}
  engine : Engine.State := {}
  /-- The correlation id outside of all tasks. -/
  outside : Option Log.CorrelationId := none
  fresh : Nat := 0
  log : List Log.Entry := []

namespace State

def current? (l : State) : Option Nat := l.running.map (·.task)

def currentTask (l : State) : Nat := l.current?.getD 0

def context (l : State) : Option Log.CorrelationId :=
  match l.current? with
  | none => l.outside
  | some t => (l.tasks[t]?).bind (·.context)

def modifyTask (l : State) (t : Nat) (f : Task → Task) : State :=
  { l with tasks := l.tasks.modify t f }

def setContext (l : State) (id : Option Log.CorrelationId) : State :=
  match l.current? with
  | none => { l with outside := id }
  | some t => l.modifyTask t fun k => { k with context := id }

def report (l : State) (r : Log.Record) : State :=
  if r.isKept then { l with log := l.log ++ [⟨r, l.context⟩] } else l

def enqueue (l : State) (j : Job) : State := { l with ready := l.ready ++ [j] }

/-- A new task starts in the next turn, under the correlation id of the task that makes it. -/
def spawn {s : Shape} (l : State) (c : Call s) (followers : List Follower) : State × Nat :=
  let t := l.tasks.length
  let task : Task :=
    { status := .ready none (.push (.start c) (.done s)), context := l.context, followers }
  ({ l with tasks := l.tasks ++ [task] }.enqueue (.step t), t)

def wake (l : State) (t : Nat) (signal : Option Failure) : State :=
  match l.tasks[t]? with
  | some { status := .paused _ stack, .. } =>
    (l.modifyTask t fun k => { k with status := .ready signal stack }).enqueue (.step t)
  | _ => l

def addTimer (l : State) (delay : Float) (t : Nat) : State × Nat :=
  let n := l.nextTimer
  ({ l with timers := l.timers ++ [⟨n, l.clock + delay, t⟩], nextTimer := n + 1 }, n)

def dropTimer (l : State) (n : Nat) : State :=
  { l with timers := l.timers.filter fun r => r.number ≠ n }

def pool? (l : State) (p : Nat) : Option Pool.State := l.pools[p]?

def modifyPool (l : State) (p : Nat) (f : Pool.State → Pool.State) : State :=
  { l with pools := l.pools.modify p f }

def manager? (l : State) (m : Nat) : Option Access.Manager := l.managers[m]?

def modifyManager (l : State) (m : Nat) (f : Access.Manager → Access.Manager) : State :=
  { l with managers := l.managers.modify m f }

def modifyOpener (l : State) (f : Engine.Opener → Engine.Opener) : State :=
  { l with opener := f l.opener }

def modifyEngine (l : State) (f : Engine.State → Engine.State) : State :=
  { l with engine := f l.engine }

def addStandalone (l : State) (h : Pool.Handle) : State × Nat :=
  let id := l.nextConnection
  ({ l with
      standalone := l.standalone ++ [{ id, handle := h, releasedAt := l.clock }]
      nextConnection := id + 1 }, id)

def standalone? (l : State) (id : Nat) : Option Pool.Connection :=
  l.standalone.find? fun c => c.id = id

def setStandaloneUse (l : State) (id : Nat) (inUse : Bool) : State :=
  { l with standalone := l.standalone.map fun c => if c.id = id then { c with inUse } else c }

def connection? (l : State) (id : Nat) : Option Pool.Connection :=
  match l.standalone? id with
  | some c => some c
  | none => l.pools.findSome? fun p => p.everFind? id

def isFinished (l : State) (t : Nat) : Bool :=
  match l.tasks[t]? with
  | some { status := .finished _ _, .. } => true
  | _ => false

end State

end SqliteAccess.Loop
