import SqliteAccess.Session.Basic

/-!
Sessions with a connection manager and a schema builder over a scripted engine.
-/

namespace SqliteAccess.Session.Managing

open SqliteAccess.Pool (Handle Lease)
open Sql (Statement)
open Schema (Blueprint Revision)

inductive Step where
  | initialise (name : String) (location : Option Config.Location)
      (reach : Except Failure Access.Reach)
  | acquire (name : String)
  | release (c : Reference)
  | releaseNone
  | execute (name : String) (s : Statement) (mode : Value)
  | executeAll (name : String) (ss : List Statement) (mode : Value)
  | shutDown (name : String)
  | block (name : String) (hold fail : Bool)
  | within (name : String) (fail : Bool)
  | build (name : String) (b : Blueprint) (changes : List Revision)
  | hasTable (name : String) (table : String)
  | bootstrap (name url : String)
  | seed (name : String)
  | fetch (name : String)
  | reset (name : String)
  | resume (index : Nat)
  | open (location : Config.Location) (slowMs : Number)
  | connect (name : String) (wal : Bool)
  | run (name handle : String) (s : Statement) (mode : Access.Mode)
  | hangUp (name handle : String)
  | cancel (name : String)
  | foreign (name : String)
  | idleFor (c : Reference) (nowMs : Option Float)
  | advance (ms : Float)
  | burst (steps : List Step)
deriving Inhabited

/-- A session and what it works with. -/
structure Client where
  base : State
  /-- The manager that steps and the schema builder act on. -/
  manager : Nat := 0
  /-- A database that steps open and use without a manager. -/
  database : Option Access.Database := none

structure Answer where
  result : Result
  events : List Event
  log : List Log.Entry
  requests : List Engine.Request
  held : List String
  enabled : Bool
  pooled : Bool
  pool : Option PoolView

def start (rules : List Engine.Rule) (openings : List Engine.Opening)
    (correlation : Option String) : Client :=
  let (outside, fresh) : Option Log.CorrelationId × Nat := match correlation with
    | none => (none, 0)
    | some _ =>
      let (id, fresh) := Log.CorrelationId.ofText correlation 0
      (some id, fresh)
  { base := { loop := { managers := [{}], engine := { rules, openings }, outside, fresh } } }

namespace Client

def manager? (s : Client) : Option Access.Manager := s.base.loop.manager? s.manager

def pool? (s : Client) : Option SqliteAccess.Pool.State := do
  s.base.loop.pool? (← (← s.manager?).pool)

def begin {h : Loop.Shape} (s : Client) (name : String) (c : Loop.Call h) : Client × Result :=
  ({ s with base := s.base.begin name c }, .nothing)

def onBase (s : Client) (r : State × Result) : Client × Result := ({ s with base := r.1 }, r.2)

def release (s : Client) (c : Option Lease) : Client × Result :=
  let (loop, r) := s.base.loop.giveBack s.manager c
  ({ s with base := { s.base with loop } }, State.resultOf r)

/-- A held call by its place among those that are held. -/
def resume (s : Client) (index : Nat) : Client × Result :=
  match s.base.loop.engine.held[index]? with
  | none => (s, .skip)
  | some h =>
    s.onBase (s.base.onLoop fun l => (l.modifyEngine fun e => e.letGo h.task).wake h.task none,
      .nothing)

def handle? (s : Client) (text : String) : Option Handle :=
  ((List.range s.base.loop.engine.opened).map fun n => Handle.numbered (n + 1)).find? fun h =>
    h.text = text

end Client

mutual

def act (s : Client) : Step → Client × Result
  | .initialise name location reach =>
    match reach with
    | .error e => (s, .failure e)
    | .ok reach => s.begin name (.setUp s.manager location reach)
  | .acquire name => s.begin name (.borrow s.manager)
  | .release c =>
    match s.base.lease? s.pool? c with
    | none => (s, .skip)
    | some c => s.release (some c)
  | .releaseNone => s.release none
  | .execute name statement mode => s.begin name (.execute s.manager statement mode)
  | .executeAll name ss mode => s.begin name (.executeAll s.manager ss mode)
  | .shutDown name => s.begin name (.shutDown s.manager)
  | .block name hold fail => s.begin name (.block s.manager hold fail)
  | .within name fail => s.begin name (.within s.manager fail)
  | .build name b changes => s.begin name (.build s.manager Loop.State.schemaWriter b changes)
  | .hasTable name table => s.begin name (.hasTable s.manager table)
  | .bootstrap name url => s.begin name (.bootstrap url)
  | .seed name => s.begin name (.seed s.manager)
  | .fetch name => s.begin name (.fetch s.manager)
  | .reset name => s.begin name (.reset s.manager)
  | .resume index => s.resume index
  | .open location slowMs => ({ s with database := some { location, slowMs } }, .nothing)
  | .connect name wal =>
    match s.database with
    | none => (s, .skip)
    | some d => s.begin name (.connect d wal)
  | .run name handle statement mode =>
    match s.database, s.handle? handle with
    | some d, some h => s.begin name (.run d h statement mode)
    | _, _ => (s, .skip)
  | .hangUp name handle =>
    match s.database, s.handle? handle with
    | some _, some h => s.begin name (.hangUp h)
    | _, _ => (s, .skip)
  | .cancel name => s.onBase (s.base.cancel name)
  | .foreign name => s.onBase (s.base.foreign name)
  | .idleFor c nowMs =>
    match s.base.lease? s.pool? c with
    | none => (s, .skip)
    | some c => (s, s.base.idleFor c nowMs)
  | .advance ms => s.onBase (s.base.onLoop fun l => l.advanceBy ms, .nothing)
  | .burst steps =>
    let (s, rs) := actAll s steps
    (s, .all rs)

def actAll (s : Client) : List Step → Client × List Result
  | [] => (s, [])
  | x :: xs =>
    let (s, r) := act s x
    let (s, rs) := actAll s xs
    (s, r :: rs)

end

def adopt (m : Nat) (e : Event) : Nat :=
  match e with
  | ⟨_, .manager, .ok k⟩ => k
  | _ => m

def step (s : Client) (x : Step) : Client × Answer :=
  let (s, result) := act s x
  let (base, events) := (s.base.onLoop Loop.State.settle).collect
  let manager := events.foldl adopt s.manager
  let (base, log) := base.takeLog
  let e := base.loop.engine
  let s := { s with
    base := base.onLoop fun l => l.modifyEngine fun e => { e with requests := [] }
    manager }
  (s,
    { result, events, log
      requests := e.requests
      held := e.held.map (·.label)
      enabled := (s.manager?.map Access.Manager.enabled).getD false
      pooled := (s.manager?.map Access.Manager.pooled).getD false
      pool := s.pool?.map .of })

def run (s : Client) : List Step → List Answer
  | [] => []
  | x :: xs =>
    let (s, a) := step s x
    a :: run s xs

end SqliteAccess.Session.Managing
