import SqliteAccess.Loop.Demonstrating

/-!
The machine that runs the tasks: one step of a procedure at a time, one job after the other, turn by
turn, until nothing can go on before time moves.
-/

namespace SqliteAccess.Loop

/-- The first step of a procedure. -/
def begin (l : State) : {s : Shape} → Call s → State × Next s
  | _, .askOpen => l.askOpen
  | _, .askClose h => l.askClose h
  | _, .dial d => l.dial d
  | _, .send h s => l.send h s
  | _, .hangUp h => l.hangUp h
  | _, .connect d wal => l.connect d wal
  | _, .run d h s m => l.run d h s m
  | _, .acquire p => l.acquire p
  | _, .openSlot p => l.openSlot p
  | _, .openBackground p => l.openBackground p
  | _, .destroy p id => l.destroy p id
  | _, .evict p => l.evict p
  | _, .reap p => l.reap p
  | _, .closePool p => l.closePool p
  | _, .lock m => l.lock m
  | _, .setUp m location reach => l.setUp m location reach
  | _, .shutDown m => l.shutDown m
  | _, .borrow m => l.borrow m
  | _, .execute m s mode => l.execute m s mode
  | _, .executeAll m ss mode => l.executeAll m ss mode
  | _, .block m hold fail => l.block m hold fail
  | _, .within m fail => l.within m fail
  | _, .build m w b changes => l.build m w b changes
  | _, .hasTable m table => l.hasTable m table
  | _, .bootstrap url => l.bootstrap url
  | _, .seed m => l.seed m
  | _, .fetch m => l.fetch m
  | _, .reset m => l.reset m
  | _, .demonstrate url => l.demonstrate url

/-- A task that is cancelled before it starts never starts. -/
def start {s : Shape} (l : State) (c : Call s) (o : Outcome .unit) : State × Next s :=
  match o with
  | .error e => (l, .give (.error e))
  | .ok _ => (l, .jump c)

/-- The step that follows when a call has come back. -/
def resume (l : State) : {s t : Shape} → Frame s t → Outcome s → State × Next t
  | _, _, .start c, o => start l c o
  | _, _, .askedOpen n, o => l.askedOpen n o
  | _, _, .askedClose fault, o => l.askedClose fault o
  | _, _, .dialled fault, o => l.dialled fault o
  | _, _, .sent r, o => l.sent r o
  | _, _, .connected d wal, o => l.connected d wal o
  | _, _, .foreignKeysSet d h wal, o => l.foreignKeysSet d h wal o
  | _, _, .journalSet d h, o => l.journalSet d h o
  | _, _, .ran d sql m start, o => l.ran d sql m start o
  | _, _, .opened p, o => l.opened p o
  | _, _, .registering p, o => l.registering p o
  | _, _, .inLine p, o => l.inLine p o
  | _, _, .openedBackground p, o => l.openedBackground p o
  | _, _, .destroyed p id, o => l.destroyed p id o
  | _, _, .evicting p rest n, o => l.evicting p rest n o
  | _, _, .rested p interval, o => l.rested p interval o
  | _, _, .swept p interval, o => l.swept p interval o
  | _, _, .reaperEnded p, o => l.reaperEnded p o
  | _, _, .draining p rest, o => l.draining p rest o
  | _, _, .backgroundEnded p, o => l.backgroundEnded p o
  | _, _, .letIn m, o => l.letIn m o
  | _, _, .singleOpened m d, o => l.singleOpened m d o
  | _, _, .poolShut m, o => l.poolShut m o
  | _, _, .lockedToClose m, o => l.lockedToClose m o
  | _, _, .singleClosed m, o => l.singleClosed m o
  | _, _, .leased, o => l.leased o
  | _, _, .lockedToUse m, o => l.lockedToUse m o
  | _, _, .executing m s mode restores, o => l.executing m s mode restores o
  | _, _, .executed m lease restores, o => l.executed m lease restores o
  | _, _, .batching m ss mode restores, o => l.batching m ss mode restores o
  | _, _, .batched m lease rest mode done restores, o => l.batched m lease rest mode done restores o
  | _, _, .blockEntered m hold fail, o => l.blockEntered m hold fail o
  | _, _, .blockHeld m lease fail, o => l.blockHeld m lease fail o
  | _, _, .withinLeft fail, o => l.withinLeft fail o
  | _, _, .built ss, o => l.built ss o
  | _, _, .sought, o => l.sought o
  | _, _, .started m, o => l.started m o
  | _, _, .tableKnown m, o => l.tableKnown m o
  | _, _, .writersMade m, o => l.writersMade m o
  | _, _, .booksMade m, o => l.booksMade m o
  | _, _, .writersWritten m, o => l.writersWritten m o
  | _, _, .writersRead m writers, o => l.writersRead m writers o
  | _, _, .booksWritten writers, o => l.booksWritten writers o
  | _, _, .emptied, o => l.emptied o
  | _, _, .demoStarted, o => l.demoStarted o
  | _, _, .demoEmptied m, o => l.demoEmptied m o
  | _, _, .demoSeeded m, o => l.demoSeeded m o
  | _, _, .demoFetched m, o => l.endDemo m o
  | _, _, .demoEnded result, o => l.demoEnded result o

namespace State

def follow (l : State) (t : Nat) : Follower → State
  | .dropBackground p => l.enqueue (.dropBackground p t)
  | .resume k =>
    l.wake k (match l.endOf t with
      | .error e => some e
      | .ok _ => none)
  | .count k => l.enqueue (.count k t)

/-- A task ends, and those that follow it learn of it in order. -/
def finish (l : State) (t : Nat) {s : Shape} (o : Outcome s) : State :=
  let followers := ((l.tasks[t]?).map (·.followers)).getD []
  let l := l.modifyTask t fun k => { k with status := .finished s o, followers := [] }
  followers.foldl (fun l f => l.follow t f) { l with running := none }

def carryOn (l : State) (t : Nat) {s : Shape} (n : Next s) (k : Stack s) : State :=
  match n with
  | .give o => { l with running := some ⟨t, s, .give o, k⟩ }
  | .call c f => { l with running := some ⟨t, _, .call c, .push f k⟩ }
  | .jump c => { l with running := some ⟨t, s, .call c, k⟩ }
  | .pause w f =>
    { l.modifyTask t fun task => { task with status := .paused w (.push f k) } with running := none }
  | .again f =>
    { (l.modifyTask t fun task => { task with status := .ready none (.push f k) }).enqueue (.step t)
      with running := none }

def advance (l : State) (r : Running) : State :=
  match r.control, r.stack with
  | .call c, k =>
    let (l, n) := begin l c
    l.carryOn r.task n k
  | .give o, .push f k =>
    let (l, n) := resume l f o
    l.carryOn r.task n k
  | .give o, .done _ => l.finish r.task o

def stepTask (l : State) (t : Nat) : State :=
  match l.tasks[t]? with
  | some { status := .ready signal stack, cancelRequested, .. } =>
    let signal := if cancelRequested then some Failure.cancelled else signal
    let o : Outcome .unit := match signal with
      | some e => .error e
      | none => .ok ()
    let l := l.modifyTask t fun k => { k with status := .running, cancelRequested := false }
    { l with running := some ⟨t, .unit, .give o, stack⟩ }
  | _ => l

def ring (l : State) (n : Nat) : State :=
  let owner := l.tasks.findIdx? fun k => match k.status with
    | .paused (.turn _ (some m)) _ => m = n
    | .paused (.sleep m) _ => m = n
    | _ => false
  match owner with
  | none => l
  | some t =>
    match l.tasks[t]? with
    | some { status := .paused (.turn p _) _, .. } =>
      let l := l.modifyPool p fun s => s.giveUp t
      l.wake t ((l.pool? p).map Pool.State.timeoutFailure)
    | _ => l.wake t none

def count (l : State) (t ended : Nat) : State :=
  match l.tasks[t]? with
  | some { status := .paused (.tasks remaining cancelled) stack, .. } =>
    let remaining := remaining.erase ended
    let l := l.modifyTask t fun k =>
      { k with status := .paused (.tasks remaining cancelled) stack }
    if remaining.isEmpty then l.wake t (if cancelled then some .cancelled else none) else l
  | _ => l

def notice (l : State) (t : Nat) : State :=
  match l.tasks[t]? with
  | some { status := .paused (.givenUp p) _, .. } =>
    l.wake t ((l.pool? p).map Pool.State.timeoutFailure)
  | _ => l

def perform (l : State) : Job → State
  | .step t => l.stepTask t
  | .ring n => l.ring n
  | .dropBackground p t => l.modifyPool p fun s => { s with background := s.background.erase t }
  | .count t ended => l.count t ended
  | .notice t => l.notice t

def insertByDue (r : Timer) : List Timer → List Timer
  | [] => [r]
  | q :: qs => if r.due < q.due then r :: q :: qs else q :: insertByDue r qs

def sortByDue (rs : List Timer) : List Timer := rs.foldl (fun sorted r => insertByDue r sorted) []

/-- Starts a turn: timers that are due come after the jobs that are there. -/
def startTurn (l : State) : State :=
  let due := sortByDue (l.timers.filter fun r => r.due ≤ l.clock)
  let ready := l.ready ++ due.map fun r => .ring r.number
  { l with
    timers := l.timers.filter fun r => !(r.due ≤ l.clock : Bool)
    ready
    turnLeft := ready.length }

def nextJob (l : State) : Option State :=
  match l.ready with
  | [] => none
  | j :: rest => some ({ l with ready := rest, turnLeft := l.turnLeft - 1 }.perform j)

/-- One step of the loop, if anything can be done. -/
def step? (l : State) : Option State :=
  match l.running with
  | some r => some (l.advance r)
  | none => if l.turnLeft = 0 then l.startTurn.nextJob else l.nextJob

def settleWithin (l : State) : Nat → State
  | 0 => l
  | n + 1 =>
    match l.step? with
    | none => l
    | some l => l.settleWithin n

def patience : Nat := 200000

def settle (l : State) : State := l.settleWithin patience

def nextDue? (l : State) (limit : Float) : Option Float :=
  (sortByDue (l.timers.filter fun r => r.due ≤ limit)).head?.map (·.due)

def later (a b : Float) : Float := if a < b then b else a

def advanceWithin (l : State) (limit : Float) : Nat → State
  | 0 => l
  | n + 1 =>
    match l.nextDue? limit with
    | none => { l with clock := later l.clock limit }
    | some due => ({ l with clock := later l.clock due }.settle).advanceWithin limit n

def advanceBy (l : State) (ms : Float) : State :=
  (l.advanceWithin (l.clock + ms / 1000.0) patience).settle

end State

end SqliteAccess.Loop
