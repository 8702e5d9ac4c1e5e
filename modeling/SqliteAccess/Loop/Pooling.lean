import SqliteAccess.Loop.Cancel

/-!
The steps of a pool: callers acquire and release connections, the pool opens them, sweeps idle ones and
closes. Between two pauses a step runs undisturbed.
-/

namespace SqliteAccess.Loop.State

open Pool (Handle Lease connectionName)

def poolRecord (level : Int) (message : String) : Log.Record :=
  { level, logger := "adapters.pool", message }

def spawnBackground (l : State) (p : Nat) (c : Call .unit) : State :=
  let (l, t) := l.spawn c [.dropBackground p]
  l.modifyPool p fun s => { s with background := s.background ++ [t] }

/-- The slot is reserved before the task runs, so that others see it as taken. -/
def spawnOpen (l : State) (p : Nat) : State :=
  (l.modifyPool p Pool.State.reserveBackground).spawnBackground p (.openBackground p)

def spawnOpens (l : State) (p : Nat) : Nat → State
  | 0 => l
  | n + 1 => (l.spawnOpen p).spawnOpens p n

/-- Opens connections for the callers in line, as far as there is room. -/
def grow (l : State) (p : Nat) : State × Except Failure Unit :=
  match l.pool? p with
  | none => (l, .ok ())
  | some s =>
    match s.growth with
    | .error e => (l, .error e)
    | .ok n => (l.spawnOpens p n, .ok ())

def ensureMinimum (l : State) (p : Nat) : State × Except Failure Unit :=
  match l.pool? p with
  | none => (l, .ok ())
  | some s =>
    match s.shortfall with
    | .error e => (l, .error e)
    | .ok n => (l.spawnOpens p n, .ok ())

/-- Grows for the callers in line before a failure goes on; a failure to grow replaces it. -/
def growThen {s : Shape} (l : State) (p : Nat) (o : Outcome s) : State × Next s :=
  match l.grow p with
  | (l, .error e) => (l, .give (.error e))
  | (l, .ok _) => (l, .give o)

def checkin (l : State) (p id : Nat) : State :=
  match l.pool? p with
  | none => l
  | some s =>
    let (s, served) := s.checkin id l.clock
    let l := l.modifyPool p fun _ => s
    match served with
    | some t => l.wakeInLine t none
    | none => l

def leaseOf (l : State) (p id : Nat) : Lease :=
  (((l.pool? p).bind fun s => s.everFind? id).map (·.lease)).getD ⟨id, .stray⟩

def startPool (l : State) (p : Nat) (s : Pool.State) : State :=
  if s.started then l
  else
    let (l, t) := l.spawn (.reap p) []
    l.modifyPool p fun s => { s with started := true, reaper := some t }

/-- Puts the current task in line. A wait that is over before it begins is given up at once. -/
def standInLine (l : State) (p : Nat) (s : Pool.State) : State × Next .lease :=
  let t := l.currentTask
  let l := l.modifyPool p fun s => s.enqueue t
  match l.grow p with
  | (l, .error e) => (l, .give (.error e))
  | (l, .ok _) =>
    match Config.optionalSeconds s.settings.acquireTimeoutMs with
    | .error e => (l, .give (.error e))
    | .ok none => (l, .pause (.turn p none) (.inLine p))
    | .ok (some d) =>
      if d ≤ 0.0 then
        ((l.modifyPool p fun s => s.giveUp t).enqueue (.notice t), .pause (.givenUp p) (.inLine p))
      else
        let (l, n) := l.addTimer d t
        (l, .pause (.turn p (some n)) (.inLine p))

def acquire (l : State) (p : Nat) : State × Next .lease :=
  match l.pool? p with
  | none => (l, .give (.error .missingPart))
  | some s =>
    if s.closed then (l, .give (.error .poolClosed))
    else
      let l := l.startPool p s
      match (l.pool? p).bind Pool.State.takeIdle? with
      | some (s, id) =>
        let l := l.modifyPool p fun _ => s
        (l, .give (.ok (l.leaseOf p id)))
      | none =>
        if s.mayOpen then (l.modifyPool p Pool.State.reserve, .call (.openSlot p) (.opened p))
        else l.standInLine p s

/-- The slot of an open that failed is free again, perhaps for a caller in line. -/
def opened (l : State) (p : Nat) (o : Outcome .lease) : State × Next .lease :=
  match o with
  | .error e => l.growThen p (.error e)
  | .ok c =>
    match l.ensureMinimum p with
    | (l, .error e) => (l, .give (.error e))
    | (l, .ok _) => (l.modifyPool p fun s => s.checkout c.id, .give (.ok c))

def openSlot (l : State) (p : Nat) : State × Next .lease :=
  match l.pool? p with
  | none => (l, .give (.error .missingPart))
  | some s =>
    match s.source with
    | .opener => (l, .call .askOpen (.registering p))
    | .database d => (l, .call (.connect d true) (.registering p))

/-- Failures to connect and cancellations pass unchanged; any other becomes a failure to connect. -/
def creationFailure (e : Failure) : Failure :=
  if e.isConnection || e = .cancelled then e else .cannotCreate e.text

def registering (l : State) (p : Nat) (o : Outcome .handle) : State × Next .lease :=
  let l := l.modifyPool p Pool.State.freeSlot
  match o with
  | .error e => (l, .give (.error (creationFailure e)))
  | .ok h =>
    let id := l.nextConnection
    let l := { l with nextConnection := id + 1 }.modifyPool p fun s => s.register id h l.clock
    match l.pool? p with
    | none => (l, .give (.error .missingPart))
    | some s =>
      (l.report (poolRecord Log.debug
        ("Created connection " ++ connectionName id ++ " (" ++ toString s.size ++ "/" ++
          s.settings.maxConnections.text ++ ")")),
        .give (.ok ⟨id, h⟩))

/-- Back from the line: with the connection handed over, or with a failure. A connection handed over
to a caller that has given up goes on to the next. -/
def inLine (l : State) (p : Nat) (o : Outcome .unit) : State × Next .lease :=
  let t := l.currentTask
  let given := (l.pool? p).bind fun s => s.handedTo? t
  let l := l.modifyPool p fun s => s.takeUp t
  match o, given with
  | .ok _, some id => (l, .give (.ok (l.leaseOf p id)))
  | .ok _, none => (l, .give (.error .missingPart))
  | .error e, given =>
    let l := l.modifyPool p fun s => s.leaveLine t
    match given with
    | some id => (l.checkin p id, .give (.error e))
    | none => (l, .give (.error e))

def openBackground (l : State) (p : Nat) : State × Next .unit :=
  (l, .call (.openSlot p) (.openedBackground p))

/-- A background open that fails fails the longest waiting caller. -/
def failLongestWaiting (l : State) (p : Nat) (e : Failure) : State :=
  match l.pool? p with
  | none => l
  | some s =>
    let (s, failed) := s.failFirst
    let l := l.modifyPool p fun _ => s
    match failed with
    | some t => l.wakeInLine t (some e)
    | none => l

def openedBackground (l : State) (p : Nat) (o : Outcome .lease) : State × Next .unit :=
  let l := l.modifyPool p Pool.State.endBackground
  match o with
  | .error e =>
    if e.isConnection then
      let l := l.report (poolRecord Log.warning ("Background connection creation failed: " ++ e.text))
      (l.failLongestWaiting p e).growThen p (.ok ())
    else (l, .give (.error e))
  | .ok c =>
    match l.pool? p with
    | some s =>
      if s.closed then (l, .jump (.destroy p c.id)) else (l.checkin p c.id, .give (.ok ()))
    | none => (l, .give (.ok ()))

def closeHandle (s : Pool.State) (h : Handle) : Call .unit :=
  match s.source with
  | .opener => .askClose h
  | .database _ => .hangUp h

def destroy (l : State) (p id : Nat) : State × Next .unit :=
  match l.pool? p with
  | none => (l, .give (.ok ()))
  | some s =>
    match s.remove? id with
    | none => (l, .give (.ok ()))
    | some (s, h) => (l.modifyPool p fun _ => s, .call (closeHandle s h) (.destroyed p id))

def destroyed (l : State) (p id : Nat) (o : Outcome .unit) : State × Next .unit :=
  (l.report (poolRecord Log.debug ("Destroyed connection " ++ connectionName id))).growThen p o

def release (l : State) (p id : Nat) : State × Except Failure Unit :=
  match l.pool? p with
  | none => (l, .error .missingPart)
  | some s =>
    match s.checkRelease id with
    | .error e => (l, .error e)
    | .ok _ =>
      if s.closed then
        ((l.modifyPool p fun s => s.setFree id).spawnBackground p (.destroy p id), .ok ())
      else (l.checkin p id, .ok ())

def endEviction (l : State) (evicted : Nat) : State × Next .count :=
  if evicted = 0 then (l, .give (.ok evicted))
  else
    (l.report (poolRecord Log.debug ("Evicted " ++ toString evicted ++ " idle connection(s)")),
      .give (.ok evicted))

/-- Goes on with a round of eviction: the next of the expired connections that still rests is
destroyed, unless the pool is at its minimum. -/
def evictFrom (l : State) (p : Nat) (s : Pool.State) (evicted : Nat) : List Nat → State × Next .count
  | [] => l.endEviction evicted
  | id :: rest =>
    if s.idle.contains id then
      if s.hasSpare then (l, .call (.destroy p id) (.evicting p rest evicted))
      else l.endEviction evicted
    else l.evictFrom p s evicted rest

def evict (l : State) (p : Nat) : State × Next .count :=
  match l.pool? p with
  | none => (l, .give (.error .missingPart))
  | some s =>
    match Config.seconds s.settings.idleTimeoutMs with
    | .error e => (l, .give (.error e))
    | .ok timeout => l.evictFrom p s 0 (s.expired l.clock timeout)

def evicting (l : State) (p : Nat) (rest : List Nat) (evicted : Nat) (o : Outcome .unit) :
    State × Next .count :=
  match o, l.pool? p with
  | .error e, _ => (l, .give (.error e))
  | .ok _, none => (l, .give (.error .missingPart))
  | .ok _, some s => l.evictFrom p s (evicted + 1) rest

def sleep (l : State) (d : Float) (f : Frame .unit .unit) : State × Next .unit :=
  if d ≤ 0.0 then (l, .again f)
  else
    let (l, n) := l.addTimer d l.currentTask
    (l, .pause (.sleep n) f)

def reap (l : State) (p : Nat) : State × Next .unit :=
  match l.pool? p with
  | none => (l, .give (.ok ()))
  | some s =>
    match Config.seconds s.settings.reapIntervalMs with
    | .error e => (l, .give (.error e))
    | .ok interval => l.sleep interval (.rested p interval)

def rested (l : State) (p : Nat) (interval : Float) (o : Outcome .unit) : State × Next .unit :=
  match o with
  | .error e => (l, .give (.error e))
  | .ok _ => (l, .call (.evict p) (.swept p interval))

/-- A round of eviction that fails does not end the sweep, unless it was cancelled. -/
def swept (l : State) (p : Nat) (interval : Float) (o : Outcome .count) : State × Next .unit :=
  let goOn (l : State) : State × Next .unit :=
    match l.ensureMinimum p with
    | (l, .error e) => (l, .give (.error e))
    | (l, .ok _) => l.sleep interval (.rested p interval)
  match o with
  | .error .cancelled => (l, .give (.error .cancelled))
  | .error _ => goOn (l.report (poolRecord Log.error "Idle eviction failed"))
  | .ok _ => goOn l

def endClose (l : State) (p : Nat) : State × Next .unit :=
  let left := ((l.pool? p).map Pool.State.inUse).getD 0
  (l.report (poolRecord Log.debug
    ("Pool closed; " ++ toString left ++ " connection(s) still checked out")), .give (.ok ()))

def awaitTasks (l : State) (ts : List Nat) (f : Frame .unit .unit) : State × Next .unit :=
  let t := l.currentTask
  let follow (l : State) (k : Nat) : State :=
    if l.isFinished k then l.enqueue (.count t k)
    else l.modifyTask k fun k => { k with followers := k.followers ++ [.count t] }
  (ts.foldl follow l, .pause (.tasks ts false) f)

/-- Goes on with closing: destroys what rested when it began, then waits for background tasks. -/
def drainFrom (l : State) (p : Nat) : List Nat → State × Next .unit
  | id :: rest => (l, .call (.destroy p id) (.draining p rest))
  | [] =>
    match l.pool? p with
    | none => (l, .give (.ok ()))
    | some s =>
      if s.background.isEmpty then l.endClose p
      else l.awaitTasks s.background (.backgroundEnded p)

def draining (l : State) (p : Nat) (rest : List Nat) (o : Outcome .unit) : State × Next .unit :=
  match o with
  | .error e => (l, .give (.error e))
  | .ok _ => l.drainFrom p rest

def backgroundEnded (l : State) (p : Nat) (o : Outcome .unit) : State × Next .unit :=
  match o with
  | .error e => (l, .give (.error e))
  | .ok _ => l.endClose p

def clearLine (l : State) (p : Nat) : State × Next .unit :=
  match l.pool? p with
  | none => (l, .give (.ok ()))
  | some s =>
    let (s, failed) := { s with reaper := none }.failAll
    let l := l.modifyPool p fun _ => s
    let l := failed.foldl (fun l t => l.wakeInLine t (some .poolClosed)) l
    l.drainFrom p s.idle

/-- Once the sweep has ended, everyone in line fails and the idle connections are destroyed. -/
def reaperEnded (l : State) (p : Nat) (o : Outcome .unit) : State × Next .unit :=
  match o with
  | .ok _ => l.clearLine p
  | .error e => if e = .cancelled then l.clearLine p else (l, .give (.error e))

def endOf (l : State) (t : Nat) : Outcome .unit :=
  match l.tasks[t]? with
  | some { status := .finished _ (.error e), .. } => .error e
  | _ => .ok ()

def closePool (l : State) (p : Nat) : State × Next .unit :=
  match l.pool? p with
  | none => (l, .give (.ok ()))
  | some s =>
    if s.closed then (l, .give (.ok ()))
    else
      let l := l.modifyPool p fun s => { s with closed := true }
      match s.reaper with
      | none => l.reaperEnded p (.ok ())
      | some r =>
        let l := l.cancel r
        if l.isFinished r then l.reaperEnded p (l.endOf r)
        else
          let l := l.modifyTask r fun k =>
            { k with followers := k.followers ++ [.resume l.currentTask] }
          (l, .pause (.task r) (.reaperEnded p))

end SqliteAccess.Loop.State
