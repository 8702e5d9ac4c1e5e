import SqliteAccess.Session.Basic

/-!
Sessions with one pool over an opener of numbered handles.
-/

namespace SqliteAccess.Session.Pooling

open SqliteAccess.Pool (Handle)

inductive Step where
  | acquire (name : String)
  | release (c : Reference)
  | destroy (task : String) (c : Reference)
  | evict (name : String)
  | close (name : String)
  | cancel (name : String)
  | foreign (name : String)
  | idleFor (c : Reference) (nowMs : Option Float)
  | advance (ms : Float)
  | opened (n : Nat)
  | openFailed (n : Nat) (fault : Fault)
  | closed (handle : String)
  | failNextOpen (fault : Fault)
  | failNextClose (fault : Fault)
  | burst (steps : List Step)
deriving Inhabited

structure Answer where
  result : Result
  events : List Event
  log : List Log.Entry
  requests : List Engine.Opener.Request
  opening : List Nat
  closing : List Handle
  pool : Option PoolView

def number : Nat := 0

def start (settings : Config.PoolSettings) (manualOpen manualClose : Bool) : State :=
  { loop := {
      pools := [{ settings, source := .opener }]
      opener := { manualOpen, manualClose } } }

def pool? (s : State) : Option SqliteAccess.Pool.State := s.loop.pool? number

def endOpen (s : State) (n : Nat) (signal : Option Failure) : State × Result :=
  match s.loop.opener.opening.find? fun p => p.1 = n with
  | none => (s, .skip)
  | some (_, t) =>
    (s.onLoop fun l => (l.modifyOpener fun o => o.dropOpen n).wake t signal, .nothing)

def endClose (s : State) (handle : String) : State × Result :=
  match s.loop.opener.closing.find? fun p => p.1.text = handle with
  | none => (s, .skip)
  | some (h, t) =>
    (s.onLoop fun l => (l.modifyOpener fun o => o.dropClose h).wake t none, .nothing)

mutual

def act (s : State) : Step → State × Result
  | .acquire name => (s.begin name (.acquire number), .nothing)
  | .release c =>
    match s.lease? (pool? s) c with
    | none => (s, .skip)
    | some c =>
      let (loop, r) := s.loop.release number c.id
      ({ s with loop }, State.resultOf r)
  | .destroy task c =>
    match s.lease? (pool? s) c with
    | none => (s, .skip)
    | some c => (s.begin task (.destroy number c.id), .nothing)
  | .evict name => (s.begin name (.evict number), .nothing)
  | .close name => (s.begin name (.closePool number), .nothing)
  | .cancel name => s.cancel name
  | .foreign name => s.foreign name
  | .idleFor c nowMs =>
    match s.lease? (pool? s) c with
    | none => (s, .skip)
    | some c => (s, s.idleFor c nowMs)
  | .advance ms => (s.onLoop fun l => l.advanceBy ms, .nothing)
  | .opened n => endOpen s n none
  | .openFailed n fault => endOpen s n (some (.raised fault))
  | .closed handle => endClose s handle
  | .failNextOpen fault =>
    (s.onLoop fun l => l.modifyOpener fun o => { o with failOpens := o.failOpens ++ [fault] },
      .nothing)
  | .failNextClose fault =>
    (s.onLoop fun l => l.modifyOpener fun o => { o with failCloses := o.failCloses ++ [fault] },
      .nothing)
  | .burst steps =>
    let (s, rs) := actAll s steps
    (s, .all rs)

def actAll (s : State) : List Step → State × List Result
  | [] => (s, [])
  | x :: xs =>
    let (s, r) := act s x
    let (s, rs) := actAll s xs
    (s, r :: rs)

end

def step (s : State) (x : Step) : State × Answer :=
  let (s, result) := act s x
  let (s, events) := (s.onLoop Loop.State.settle).collect
  let (s, log) := s.takeLog
  let o := s.loop.opener
  (s.onLoop fun l => l.modifyOpener fun o => { o with requests := [] },
    { result, events, log
      requests := o.requests
      opening := o.opening.map (·.1)
      closing := o.closing.map (·.1)
      pool := (pool? s).map .of })

def run (s : State) : List Step → List Answer
  | [] => []
  | x :: xs =>
    let (s, a) := step s x
    a :: run s xs

end SqliteAccess.Session.Pooling
