import SqliteAccess.Log.Timing
import SqliteAccess.Loop.State

/-!
Opening, using and closing connections: the steps of the opener, of the engine and of a database.
-/

namespace SqliteAccess.Loop.State

open Pool (Handle)
open Access (Database Cursor Answer Mode)
open Sql (Statement)
open Engine (Rule)

def orFault {s : Shape} (fault : Option Fault) (x : s.Content) : Outcome s :=
  match fault with
  | some f => .error (.raised f)
  | none => .ok x

def askOpen (l : State) : State × Next .handle :=
  let (n, o) := l.opener.ask
  if o.manualOpen then
    ({ l with opener := o.awaitOpen n l.currentTask }, .pause (.opening n) (.askedOpen n))
  else
    let (fault, o) := o.nextOpenFault
    ({ l with opener := o }, .give (orFault fault (Handle.numbered n)))

def askedOpen (l : State) (n : Nat) (o : Outcome .unit) : State × Next .handle :=
  (l, .give (o.map fun _ => Handle.numbered n))

def askClose (l : State) (h : Handle) : State × Next .unit :=
  let o := l.opener.record (.close h)
  let (fault, o) := o.nextCloseFault
  if o.manualClose then
    ({ l with opener := o.awaitClose h l.currentTask }, .pause (.closing h) (.askedClose fault))
  else ({ l with opener := o }, .give (orFault fault ()))

def askedClose (l : State) (fault : Option Fault) (o : Outcome .unit) : State × Next .unit :=
  match o with
  | .error e => (l, .give (.error e))
  | .ok _ => (l, .give (orFault fault ()))

def endDial (l : State) (fault : Option Fault) : State × Next .handle :=
  match fault with
  | some f => (l, .give (.error (.raised f)))
  | none =>
    let (h, e) := l.engine.giveHandle
    ({ l with engine := e }, .give (.ok h))

def dial (l : State) (d : Database) : State × Next .handle :=
  let e := l.engine.record (.open d.location.filename d.timeout)
  let (o, e) := e.nextOpening
  if o.hold then
    ({ l with engine := e.hold l.currentTask "connect" }, .pause .held (.dialled o.fault))
  else { l with engine := e }.endDial o.fault

def dialled (l : State) (fault : Option Fault) (o : Outcome .unit) : State × Next .handle :=
  match o with
  | .error e => (l, .give (.error e))
  | .ok _ => l.endDial fault

def endSend (l : State) (r : Rule) : State × Next .cursor :=
  ({ l with clock := l.clock + r.delayMs / 1000.0 }, .give (orFault r.fault r.cursor))

def send (l : State) (h : Handle) (s : Statement) : State × Next .cursor :=
  let e := l.engine.record (.execute h s.sql s.params)
  let (r, e) := e.nextRule s.sql
  if r.hold then ({ l with engine := e.hold l.currentTask s.sql }, .pause .held (.sent r))
  else { l with engine := e }.endSend r

def sent (l : State) (r : Rule) (o : Outcome .unit) : State × Next .cursor :=
  match o with
  | .error e => (l, .give (.error e))
  | .ok _ => l.endSend r

/-- The close of a handle is asked for at once, even if it waits, fails or is cancelled. -/
def hangUp (l : State) (h : Handle) : State × Next .unit :=
  let e := l.engine.record (.close h)
  let (c, e) := e.nextClosing
  if c.hold then
    ({ l with engine := e.hold l.currentTask "close" }, .pause .held (.askedClose c.fault))
  else ({ l with engine := e }, .give (orFault c.fault ()))

theorem hangUp_cases (l : State) (h : Handle) : ∃ e : Engine.State,
    (e.requests = l.engine.requests ++ [.close h] ∧ e.opened = l.engine.opened ∧ e.rules = l.engine.rules ∧
      e.openings = l.engine.openings ∧ e.closings = l.engine.closings.tail) ∧
    ((∃ fault, l.hangUp h = ({ l with engine := e }, .pause .held (.askedClose fault))) ∨
      ∃ o, l.hangUp h = ({ l with engine := e }, .give o)) := by
  have hs := (l.engine.record (.close h)).nextClosing_spec
  unfold hangUp
  dsimp only
  split
  · exact ⟨(l.engine.record (.close h)).nextClosing.2.hold l.currentTask "close", hs, .inl ⟨_, rfl⟩⟩
  · exact ⟨(l.engine.record (.close h)).nextClosing.2, hs, .inr ⟨_, rfl⟩⟩

section HangUp

variable (l : State) (h : Handle)

theorem hangUp_fst : ∃ e, (l.hangUp h).1 = { l with engine := e } := by
  obtain ⟨e, _, ⟨_, he⟩ | ⟨_, he⟩⟩ := l.hangUp_cases h <;> exact ⟨e, congrArg Prod.fst he⟩

theorem hangUp_snd : (∃ fault, (l.hangUp h).2 = .pause .held (.askedClose fault)) ∨ ∃ o, (l.hangUp h).2 = .give o := by
  obtain ⟨e, _, ⟨fault, he⟩ | ⟨o, he⟩⟩ := l.hangUp_cases h
  · exact .inl ⟨fault, congrArg Prod.snd he⟩
  · exact .inr ⟨o, congrArg Prod.snd he⟩

theorem hangUp_prompt (hc : l.engine.closings = []) : (l.hangUp h).2 = .give (.ok ()) := by
  have hnext : (l.engine.record (.close h)).nextClosing.1 = {} := by
    rw [Engine.State.nextClosing, show (l.engine.record (.close h)).closings = [] from hc]
  simp only [hangUp, hnext, Bool.false_eq_true, if_false]
  rfl

@[simp] theorem hangUp_tasks : (l.hangUp h).1.tasks = l.tasks := by
  obtain ⟨e, he⟩ := l.hangUp_fst h
  rw [he]

@[simp] theorem hangUp_running : (l.hangUp h).1.running = l.running := by
  obtain ⟨e, he⟩ := l.hangUp_fst h
  rw [he]

@[simp] theorem hangUp_pools : (l.hangUp h).1.pools = l.pools := by
  obtain ⟨e, he⟩ := l.hangUp_fst h
  rw [he]

@[simp] theorem hangUp_managers : (l.hangUp h).1.managers = l.managers := by
  obtain ⟨e, he⟩ := l.hangUp_fst h
  rw [he]

@[simp] theorem hangUp_standalone : (l.hangUp h).1.standalone = l.standalone := by
  obtain ⟨e, he⟩ := l.hangUp_fst h
  rw [he]

@[simp] theorem hangUp_nextConnection : (l.hangUp h).1.nextConnection = l.nextConnection := by
  obtain ⟨e, he⟩ := l.hangUp_fst h
  rw [he]

@[simp] theorem hangUp_log : (l.hangUp h).1.log = l.log := by
  obtain ⟨e, he⟩ := l.hangUp_fst h
  rw [he]

@[simp] theorem hangUp_outside : (l.hangUp h).1.outside = l.outside := by
  obtain ⟨e, he⟩ := l.hangUp_fst h
  rw [he]

@[simp] theorem hangUp_fresh : (l.hangUp h).1.fresh = l.fresh := by
  obtain ⟨e, he⟩ := l.hangUp_fst h
  rw [he]

@[simp] theorem hangUp_requests : (l.hangUp h).1.engine.requests = l.engine.requests ++ [.close h] := by
  obtain ⟨e, ⟨hr, _⟩, ⟨_, he⟩ | ⟨_, he⟩⟩ := l.hangUp_cases h <;> rw [he] <;> exact hr

@[simp] theorem hangUp_opened : (l.hangUp h).1.engine.opened = l.engine.opened := by
  obtain ⟨e, ⟨_, ho, _⟩, ⟨_, he⟩ | ⟨_, he⟩⟩ := l.hangUp_cases h <;> rw [he] <;> exact ho

end HangUp

def databaseRecord (level : Int) (message : String) (details : Log.Details) : Log.Record :=
  { level, logger := "adapters.sqlite", message, details }

def connect (l : State) (d : Database) (wal : Bool) : State × Next .handle :=
  (l, .call (.dial d) (.connected d wal))

/-- Only faults of the engine are failures to open; others pass unchanged. -/
def openFailure (d : Database) : Failure → Failure
  | .raised f => if f.isEngine then .cannotOpen d.location.label f.message else .raised f
  | e => e

def connected (l : State) (d : Database) (wal : Bool) (o : Outcome .handle) :
    State × Next .handle :=
  match o with
  | .error e => (l, .give (.error (openFailure d e)))
  | .ok h => (l, .call (.send h ⟨Sql.foreignKeysPragma, []⟩) (.foreignKeysSet d h wal))

def endConnect (l : State) (d : Database) (h : Handle) : State × Next .handle :=
  (l.report (databaseRecord Log.debug ("Opened connection to " ++ d.location.label) .none),
    .give (.ok h))

def foreignKeysSet (l : State) (d : Database) (h : Handle) (wal : Bool) (o : Outcome .cursor) :
    State × Next .handle :=
  match o with
  | .error e => (l, .give (.error e))
  | .ok _ =>
    if wal then (l, .call (.send h ⟨Sql.journalPragma, []⟩) (.journalSet d h))
    else l.endConnect d h

def journalSet (l : State) (d : Database) (h : Handle) (o : Outcome .cursor) :
    State × Next .handle :=
  match o with
  | .error e => (l, .give (.error e))
  | .ok _ => l.endConnect d h

def run (l : State) (d : Database) (h : Handle) (s : Statement) (m : Mode) : State × Next .answer :=
  (l.report (databaseRecord Log.debug "SQL executing" (.statement s.sql (Log.redact s.params))),
    .call (.send h s) (.ran d s.sql m l.clock))

def statementTiming (d : Database) (sql : String) : Log.Timing :=
  { name := "sqlite.execute", logger := "adapters.sqlite", sql := some sql, thresholdMs := d.slowMs }

/-- Faults of the engine reject the statement; others pass unchanged. -/
def statementFailure (sql : String) : Failure → Failure
  | .raised f => if f.isEngine then .rejected f.message sql else .raised f
  | e => e

def ran (l : State) (d : Database) (sql : String) (m : Mode) (start : Float)
    (o : Outcome .cursor) : State × Next .answer :=
  match o with
  | .error e =>
    (l.report ((statementTiming d sql).record start l.clock false),
      .give (.error (statementFailure sql e)))
  | .ok c => (l.report ((statementTiming d sql).record start l.clock true), .give (.ok (c.answer m)))

end SqliteAccess.Loop.State
