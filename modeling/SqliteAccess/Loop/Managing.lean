import SqliteAccess.Loop.Opening
import SqliteAccess.Loop.Pooling

/-!
The steps of a connection manager: it is set up and shut down, hands out connections, and runs
statements on them. Whoever borrows a connection for a call gives it back however the call ends.
-/

namespace SqliteAccess.Loop.State

open Pool (Lease connectionName)
open Access (Database Answer Mode Reach)
open Sql (Statement)

def managerRecord (level : Int) (message : String) : Log.Record :=
  { level, logger := "adapters.manager", message }

def lock (l : State) (m : Nat) : State × Next .unit :=
  match l.manager? m with
  | none => (l, .give (.ok ()))
  | some k =>
    if k.lock.isFree then
      (l.modifyManager m fun k => { k with lock := k.lock.take }, .give (.ok ()))
    else
      (l.modifyManager m fun k => { k with lock := k.lock.enqueue l.currentTask },
        .pause (.lock m) (.letIn m))

def setLock (l : State) (m : Nat) (change : Access.Lock → Access.Lock × Option Nat) : State :=
  match l.manager? m with
  | none => l
  | some k =>
    let (lock, next) := change k.lock
    let l := l.modifyManager m fun k => { k with lock }
    match next with
    | some t => l.wake t none
    | none => l

def unlock (l : State) (m : Nat) : State := l.setLock m Access.Lock.release

/-- A task that was cancelled in line lets the next one in if the lock is open. -/
def letIn (l : State) (m : Nat) (o : Outcome .unit) : State × Next .unit :=
  let l := l.modifyManager m fun k => { k with lock := k.lock.leave l.currentTask }
  match o with
  | .error e => (l.setLock m fun k => if k.locked then (k, none) else k.letIn, .give (.error e))
  | .ok _ => (l.modifyManager m fun k => { k with lock := k.lock.take }, .give (.ok ()))

def usePool (l : State) (m : Nat) (d : Database) (s : Config.PoolSettings) : State :=
  let p := l.pools.length
  let pool : Pool.State := { settings := s, source := .database d }
  let l := { l with pools := l.pools ++ [pool] }
  (l.modifyManager m fun k => { k with pool := some p }).report (managerRecord Log.info
    ("Pool configured for " ++ d.location.label ++ " (min=" ++ s.minConnections.text ++
      ", max=" ++ s.maxConnections.text ++ ", idle_timeout_ms=" ++ s.idleTimeoutMs.asText ++ ")"))

def setUp (l : State) (m : Nat) (location : Option Config.Location) (reach : Reach) :
    State × Next .manager :=
  match location, l.manager? m with
  | none, _ =>
    (l.report (managerRecord Log.warning
      "No connection configuration supplied; connection manager stays disabled."), .give (.ok m))
  | some _, none => (l, .give (.error .missingPart))
  | some location, some k =>
    if k.enabled then (l, .give (.error .alreadyInitialized))
    else
      let d : Database := { location }
      let l := l.modifyManager m fun k => { k with database := some d }
      match reach.settings? with
      | none => (l, .call (.connect d false) (.singleOpened m d))
      | some s => (l.usePool m d s, .give (.ok m))

def singleOpened (l : State) (m : Nat) (d : Database) (o : Outcome .handle) : State × Next .manager :=
  match o with
  | .error e => (l, .give (.error e))
  | .ok h =>
    let (l, id) := l.addStandalone h
    ((l.modifyManager m fun k => { k with single := some id }).report (managerRecord Log.info
      ("Using single connection " ++ connectionName id ++ " to " ++ d.location.label)),
      .give (.ok m))

/-- The part of shutting down that follows the pool: the one connection is closed under the lock. -/
def shutSingle (l : State) (m : Nat) : State × Next .unit :=
  match l.manager? m with
  | none => (l, .give (.ok ()))
  | some k =>
    if k.single.isSome && k.enabled then (l, .call (.lock m) (.lockedToClose m))
    else (l.modifyManager m fun k => { k with database := none }, .give (.ok ()))

/-- A closed pool stays attached, so that connections released late are still closed. -/
def shutDown (l : State) (m : Nat) : State × Next .unit :=
  match (l.manager? m).bind (·.pool) with
  | some p => (l, .call (.closePool p) (.poolShut m))
  | none => l.shutSingle m

def poolShut (l : State) (m : Nat) (o : Outcome .unit) : State × Next .unit :=
  match o with
  | .error e => (l, .give (.error e))
  | .ok _ => l.shutSingle m

def lockedToClose (l : State) (m : Nat) (o : Outcome .unit) : State × Next .unit :=
  match o with
  | .error e => (l, .give (.error e))
  | .ok _ =>
    match l.manager? m with
    | some { database := some _, single := some id, .. } =>
      let h := ((l.standalone? id).map (·.handle)).getD .stray
      (l, .call (.hangUp h) (.singleClosed m))
    | _ => (l.unlock m, .give (.error .missingPart))

def singleClosed (l : State) (m : Nat) (o : Outcome .unit) : State × Next .unit :=
  let l := l.unlock m
  match o with
  | .error e => (l, .give (.error e))
  | .ok _ =>
    (l.modifyManager m fun k => { k with single := none, database := none }, .give (.ok ()))

def borrow (l : State) (m : Nat) : State × Next .borrowed :=
  match l.manager? m with
  | some { pool := some p, .. } => (l, .call (.acquire p) .leased)
  | some { single := some _, .. } => (l, .call (.lock m) (.lockedToUse m))
  | _ => (l, .give (.ok none))

def leased (l : State) (o : Outcome .lease) : State × Next .borrowed :=
  (l, .give (o.map some))

/-- The connection may be gone by the time the lock is obtained. -/
def lockedToUse (l : State) (m : Nat) (o : Outcome .unit) : State × Next .borrowed :=
  match o with
  | .error e => (l, .give (.error e))
  | .ok _ =>
    match (l.manager? m).bind (·.single) with
    | none => (l, .give (.error .missingPart))
    | some id =>
      let l := l.setStandaloneUse id true
      (l, .give (.ok ((l.standalone? id).map (·.lease))))

def releaseSingle (l : State) (m id : Nat) : State × Except Failure Unit :=
  let inUse := ((l.standalone? id).map (·.inUse)).getD false
  match l.manager? m with
  | none => (l, .error .missingPart)
  | some k =>
    if k.single = some id && inUse then
      let l := l.setStandaloneUse id false
      if k.lock.locked then (l.unlock m, .ok ())
      else (l, .error (.raised ⟨"RuntimeError", "Lock is not acquired."⟩))
    else (l, .error (.notCheckedOut (connectionName id)))

/-- Gives a connection back. Nothing is given back where nothing was borrowed. -/
def giveBack (l : State) (m : Nat) (lease : Option Lease) : State × Except Failure Unit :=
  match lease with
  | none => (l, .ok ())
  | some c =>
    match (l.manager? m).bind (·.pool) with
    | some p => l.release p c.id
    | none => l.releaseSingle m c.id

/-- Ends a block that has borrowed a connection. A failure to give it back replaces its outcome. -/
def endBlock {s : Shape} (l : State) (m : Nat) (lease : Option Lease) (o : Outcome s) :
    State × Outcome s :=
  match l.giveBack m lease with
  | (l, .error e) => (l, .error e)
  | (l, .ok _) => (l, o)

/-- Starts a scope of one correlation id and tells whether the id outside is restored after it. -/
def enterScope (l : State) : State × Bool :=
  let (scope, fresh) := Log.Scope.enter l.context none l.fresh
  ({ l with fresh }.setContext (some scope.inside), scope.restores)

/-- Only a scope that found no id restores, so there is none outside. -/
def leaveScope (l : State) (restores : Bool) : State :=
  if restores then l.setContext none else l

def endCall {s : Shape} (l : State) (m : Nat) (lease : Option Lease) (restores : Bool)
    (o : Outcome s) : State × Next s :=
  let (l, o) := l.endBlock m lease o
  (l.leaveScope restores, .give o)

def execute (l : State) (m : Nat) (s : Statement) (mode : Value) : State × Next .reply :=
  match l.manager? m with
  | none => (l, .give (.error .missingPart))
  | some k =>
    if k.enabled then
      match Mode.ofValue mode with
      | .error e => (l, .give (.error e))
      | .ok mode =>
        let (l, restores) := l.enterScope
        (l, .call (.borrow m) (.executing m s mode restores))
    else
      (l.report (managerRecord Log.debug "Connection manager disabled; skipping statement"),
        .give (.ok none))

def target? (l : State) (m : Nat) (lease : Option Lease) : Option (Database × Lease) := do
  let k ← l.manager? m
  let d ← k.database
  let c ← lease
  return (d, c)

def executing (l : State) (m : Nat) (s : Statement) (mode : Mode) (restores : Bool)
    (o : Outcome .borrowed) : State × Next .reply :=
  match o with
  | .error e => (l.leaveScope restores, .give (.error e))
  | .ok lease =>
    match l.target? m lease with
    | none => l.endCall m lease restores (.error .missingPart)
    | some (d, c) => (l, .call (.run d c.handle s mode) (.executed m lease restores))

def executed (l : State) (m : Nat) (lease : Option Lease) (restores : Bool) (o : Outcome .answer) :
    State × Next .reply :=
  l.endCall m lease restores (o.map some)

def executeAll (l : State) (m : Nat) (ss : List Statement) (mode : Value) :
    State × Next .answers :=
  match l.manager? m with
  | none => (l, .give (.error .missingPart))
  | some k =>
    if k.enabled then
      match Mode.ofValue mode with
      | .error e => (l, .give (.error e))
      | .ok mode =>
        let (l, restores) := l.enterScope
        (l, .call (.borrow m) (.batching m ss mode restores))
    else
      (l.report (managerRecord Log.debug "Connection manager disabled; skipping statements"),
        .give (.ok []))

/-- Runs the next statement of a batch, or ends it. -/
def batchFrom (l : State) (m : Nat) (lease : Option Lease) (mode : Mode) (done : List Answer)
    (restores : Bool) : List Statement → State × Next .answers
  | [] => l.endCall m lease restores (.ok done)
  | s :: rest =>
    match l.target? m lease with
    | none => l.endCall m lease restores (.error .missingPart)
    | some (d, c) => (l, .call (.run d c.handle s mode) (.batched m lease rest mode done restores))

def batching (l : State) (m : Nat) (ss : List Statement) (mode : Mode) (restores : Bool)
    (o : Outcome .borrowed) : State × Next .answers :=
  match o with
  | .error e => (l.leaveScope restores, .give (.error e))
  | .ok lease => l.batchFrom m lease mode [] restores ss

def batched (l : State) (m : Nat) (lease : Option Lease) (rest : List Statement) (mode : Mode)
    (done : List Answer) (restores : Bool) (o : Outcome .answer) : State × Next .answers :=
  match o with
  | .error e => l.endCall m lease restores (.error e)
  | .ok a => l.batchFrom m lease mode (done ++ [a]) restores rest

def boom : Failure := .raised ⟨"RuntimeError", "boom"⟩

def block (l : State) (m : Nat) (hold fail : Bool) : State × Next .sighting :=
  (l, .call (.borrow m) (.blockEntered m hold fail))

def sight (l : State) (c : Lease) : Sighting :=
  ⟨c.id, ((l.connection? c.id).map (·.inUse)).getD false⟩

def leaveBlock (l : State) (m : Nat) (lease : Option Lease) (fail : Bool) :
    State × Next .sighting :=
  let o : Outcome .sighting := if fail then .error boom else .ok (lease.map l.sight)
  let (l, o) := l.endBlock m lease o
  (l, .give o)

def blockEntered (l : State) (m : Nat) (hold fail : Bool) (o : Outcome .borrowed) :
    State × Next .sighting :=
  match o with
  | .error e => (l, .give (.error e))
  | .ok lease =>
    if hold then
      (l.modifyEngine fun e => e.hold l.currentTask "scope", .pause .held (.blockHeld m lease fail))
    else l.leaveBlock m lease fail

def blockHeld (l : State) (m : Nat) (lease : Option Lease) (fail : Bool) (o : Outcome .unit) :
    State × Next .sighting :=
  match o with
  | .error e =>
    let (l, o) := l.endBlock m lease (.error e)
    (l, .give o)
  | .ok _ => l.leaveBlock m lease fail

def within (l : State) (m : Nat) (fail : Bool) : State × Next .flag :=
  (l, .call (.shutDown m) (.withinLeft fail))

def withinLeft (l : State) (fail : Bool) (o : Outcome .unit) : State × Next .flag :=
  match o with
  | .error e => (l, .give (.error e))
  | .ok _ => (l, .give (if fail then .error boom else .ok true))

end SqliteAccess.Loop.State
