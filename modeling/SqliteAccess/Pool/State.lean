import SqliteAccess.Access.Database
import SqliteAccess.Config.Duration
import SqliteAccess.Config.PoolSettings
import SqliteAccess.Pool.Connection

/-!
A bounded pool between two moments: its connections, those that rest idle, and the callers in line.
A connection given back goes to the longest waiting caller, so an idle connection is never raced
for by a newcomer. Slots for connections still being opened are counted as taken.
-/

namespace SqliteAccess.Pool

/-- A caller in line. It stops pending when it is served, fails, gives up or is cancelled. -/
structure Waiter where
  task : Nat
  pending : Bool := true
deriving DecidableEq, Repr

/-- Where a pool gets its connections from: an opener of numbered handles, or a database. -/
inductive Source where
  | opener
  | database (d : Access.Database)

structure State where
  settings : Config.PoolSettings
  source : Source
  /-- All connections ever opened, in order; those that are not live have left the pool. -/
  connections : List Connection := []
  /-- Ids of resting connections, the last released one last. -/
  idle : List Nat := []
  waiters : List Waiter := []
  /-- Connections handed to callers that have not yet taken them up. -/
  handed : List (Nat × Nat) := []
  /-- Slots reserved for connections that are being opened. -/
  pending : Nat := 0
  /-- The share of them that is opened in the background for callers in line. -/
  spawned : Nat := 0
  started : Bool := false
  closed : Bool := false
  /-- The task that sweeps idle connections. -/
  reaper : Option Nat := none
  background : List Nat := []

namespace State

def live (s : State) : List Connection := s.connections.filter (·.live)

def size (s : State) : Nat := s.live.length + s.pending

def waiting (s : State) : Nat := (s.waiters.filter (·.pending)).length

def inUse (s : State) : Nat := (s.live.filter (·.inUse)).length

def find? (s : State) (id : Nat) : Option Connection :=
  s.connections.find? fun c => c.live && c.id = id

def everFind? (s : State) (id : Nat) : Option Connection :=
  s.connections.find? fun c => c.id = id

def update (s : State) (id : Nat) (f : Connection → Connection) : State :=
  { s with connections := s.connections.map fun c => if c.id = id then f c else c }

def checkout (s : State) (id : Nat) : State := s.update id fun c => { c with inUse := true }

/-- The idle connection released last, checked out. -/
def takeIdle? (s : State) : Option (State × Nat) :=
  s.idle.getLast?.map fun id => ({ s with idle := s.idle.dropLast }.checkout id, id)

def hasRoom (s : State) : Bool := (Number.int s.size).lt s.settings.maxConnections

/-- Nobody is in line before a newcomer, and there is a free slot. -/
def mayOpen (s : State) : Bool := s.waiting = 0 && s.hasRoom

def reserve (s : State) : State := { s with pending := s.pending + 1 }

def reserveBackground (s : State) : State :=
  { s with pending := s.pending + 1, spawned := s.spawned + 1 }

def freeSlot (s : State) : State := { s with pending := s.pending - 1 }

def endBackground (s : State) : State := { s with spawned := s.spawned - 1 }

def register (s : State) (id : Nat) (handle : Handle) (now : Float) : State :=
  { s with connections := s.connections ++ [{ id, handle, releasedAt := now }] }

end State

def nextWaiter : List Waiter → List Waiter × Option Nat
  | [] => ([], none)
  | w :: ws => if w.pending then (ws, some w.task) else nextWaiter ws

namespace State

def rest (s : State) (id : Nat) (now : Float) : State :=
  { s.update id (fun c => { c with inUse := false, releasedAt := now }) with idle := s.idle ++ [id] }

/-- A connection that is free goes to the next caller in line, or rests. -/
def checkin (s : State) (id : Nat) (now : Float) : State × Option Nat :=
  match nextWaiter s.waiters with
  | (ws, some t) =>
    ({ s.checkout id with waiters := ws, handed := s.handed ++ [(t, id)] }, some t)
  | (ws, none) => ({ s with waiters := ws }.rest id now, none)

/-- The next caller in line is taken out, to be failed. -/
def failFirst (s : State) : State × Option Nat :=
  let (ws, t) := nextWaiter s.waiters
  ({ s with waiters := ws }, t)

/-- All pending callers in line, and the pool without a line. -/
def failAll (s : State) : State × List Nat :=
  ({ s with waiters := [] }, (s.waiters.filter (·.pending)).map (·.task))

def enqueue (s : State) (t : Nat) : State := { s with waiters := s.waiters ++ [⟨t, true⟩] }

/-- A caller in line gives up; it keeps its place until it has noticed. -/
def giveUp (s : State) (t : Nat) : State :=
  { s with waiters := s.waiters.map fun w => if w.task = t then { w with pending := false } else w }

def leaveLine (s : State) (t : Nat) : State :=
  { s with waiters := s.waiters.eraseP fun w => w.task = t }

def handedTo? (s : State) (t : Nat) : Option Nat :=
  (s.handed.find? fun p => p.1 = t).map (·.2)

def takeUp (s : State) (t : Nat) : State :=
  { s with handed := s.handed.eraseP fun p => p.1 = t }

/-- The pool without a connection, and the handle that is to be closed. -/
def remove? (s : State) (id : Nat) : Option (State × Handle) :=
  (s.find? id).map fun c =>
    ({ s.update id (fun c => { c with inUse := false, live := false }) with
      idle := s.idle.erase id }, c.handle)

/-- Only a connection of this pool that is checked out can be released. -/
def checkRelease (s : State) (id : Nat) : Except Failure Unit :=
  match s.find? id with
  | none => .error (.foreignConnection (connectionName id))
  | some c => if c.inUse then .ok () else .error (.releasedTwice (connectionName id))

def setFree (s : State) (id : Nat) : State := s.update id fun c => { c with inUse := false }

end State

def wanted (n : Number) : Except Failure Nat :=
  if n.lt (.int 0) then .ok 0
  else if n.isInteger then .ok n.toInt.toNat
  else .error .wrongType

namespace State

/-- How many connections to open for the callers in line, as far as there is room. -/
def growth (s : State) : Except Failure Nat :=
  if s.closed then .ok 0
  else
    let unserved : Number := .int ((s.waiting : Int) - s.spawned)
    let room := s.settings.maxConnections.subCount s.size
    wanted (if room.lt unserved then room else unserved)

/-- How many connections are missing to the minimum. -/
def shortfall (s : State) : Except Failure Nat :=
  if s.closed then .ok 0 else wanted (s.settings.minConnections.subCount s.size)

/-- Whether a connection can go without the pool falling below its minimum. -/
def hasSpare (s : State) : Bool := !(Number.int s.live.length).le s.settings.minConnections

def isExpired (s : State) (id : Nat) (now timeout : Float) : Bool :=
  match s.everFind? id with
  | some c => timeout ≤ c.idleFor now
  | none => false

def expired (s : State) (now timeout : Float) : List Nat :=
  s.idle.filter fun id => s.isExpired id now timeout

def timeoutFailure (s : State) : Failure :=
  .waitTimedOut s.settings.acquireTimeoutMs.asText s.settings.maxConnections.text

end State

end SqliteAccess.Pool
