import Mathlib.Logic.Relation
import SqliteAccess.Proofs.Access.ChainsKept

/-!
Runs of a manager, from the moment in which it has been set up: steps of the loop, and between them
whatever its clients, its engine and the time do. Clients use a connection while it is theirs, and give
it back once, unless they are careless; but nobody gives back, or destroys, what somebody else has.
-/

namespace SqliteAccess.Loop

open Pool (Handle Lease)
open Access (Database)
open Sql (Statement)

/-- A statement that the engine is sent, with the rule by which it answers. A connection is prepared by
statements of the database's own before anyone gets it. -/
structure Sent where
  task : Nat
  handle : Handle
  statement : Statement
  rule : Engine.Rule
  prepares : Bool

def Stack.Prepares : {s : Shape} → Stack s → Bool
  | _, .push (.foreignKeysSet _ _ _) _ | _, .push (.journalSet _ _) _ => true
  | _, _ => false

/-- What the engine is sent in the step that comes. -/
def State.sends (l : State) : List Sent :=
  match l.running with
  | some ⟨t, _, .call (.send h s), k⟩ => [⟨t, h, s, (l.engine.nextRule s.sql).1, k.Prepares⟩]
  | _ => []

theorem State.sends_cases {l : State} {q : Sent} (hq : q ∈ l.sends) : ∃ k : Stack .cursor,
    l.running = some ⟨q.task, .cursor, .call (.send q.handle q.statement), k⟩ ∧ q.prepares = k.Prepares := by
  unfold State.sends at hq
  split at hq
  next hr =>
    rw [List.mem_singleton.mp hq]
    exact ⟨_, hr, rfl⟩
  next => cases hq

theorem State.sends_idle {l : State} (hr : l.running = none) : l.sends = [] := by
  rw [State.sends, hr]

/-- A manager in use: the clients that have given back what they had, and the states in which the loop
has taken a step. -/
structure Desk where
  loop : State
  returned : List Nat := []
  past : List State := []

namespace Desk

/-- What the engine has been sent. -/
def sent (x : Desk) : List Sent := x.past.flatMap State.sends

def Keeps (x : Desk) (t : Nat) (c : Lease) : Prop :=
  t ∉ x.returned ∧ ∃ k, x.loop.tasks[t]? = some k ∧ k.status = .finished .borrowed (.ok (some c))

def Inside (M : Nat) (x : Desk) (t : Nat) (c : Lease) : Prop :=
  ∃ k fail st, x.loop.tasks[t]? = some k ∧
    k.status = .paused .held (.push (.blockHeld M (some c) fail) st)

def Unplanned (x : Desk) (h : Handle) : Prop :=
  ∀ (i : Nat) (k : Task) (signal : Option Failure) (d : Database) (s : Statement) (m : Access.Mode),
    x.loop.tasks[i]? = some k → k.status ≠
      .ready signal (.push (.start (.run d h s m)) (.done .answer))

end Desk

inductive Call.Asked (M : Nat) : Route → {s : Shape} → Call s → Prop
  | execute (way : Route) (s : Statement) (mode : Value) : Call.Asked M way (.execute M s mode)
  | executeAll (way : Route) (ss : List Statement) (mode : Value) :
      Call.Asked M way (.executeAll M ss mode)
  | block (way : Route) (hold fail : Bool) : Call.Asked M way (.block M hold fail)
  | borrow (way : Route) : Call.Asked M way (.borrow M)
  | shutDown (way : Route) : Call.Asked M way (.shutDown M)
  | within (way : Route) (fail : Bool) : Call.Asked M way (.within M fail)
  | evict (p : Nat) (d : Database) : Call.Asked M (.pool p d) (.evict p)

theorem Call.Asked.served {M : Nat} {way : Route} {s : Shape} {c : Call s} (h : c.Asked M way) :
    c.Served M way := by
  cases h with
  | execute _ s mode => exact .execute way s mode
  | executeAll _ ss mode => exact .executeAll way ss mode
  | block _ hold fail => exact .block way hold fail
  | borrow => exact .borrow way
  | shutDown => exact .shutDown way
  | within _ fail => exact .within way fail
  | evict p d => exact .evict p d

def State.answerHeld (l : State) (t : Nat) : State := (l.modifyEngine fun e => e.letGo t).wake t none

def Frame.lease? : {s t : Shape} → Frame s t → Option Lease
  | _, _, .executed _ lease _ | _, _, .batched _ lease _ _ _ _ | _, _, .blockHeld _ lease _ => lease
  | _, _, _ => none

def Stack.lease? : {s : Shape} → Stack s → Option Lease
  | _, .done _ => none
  | _, .push f k => f.lease?.or k.lease?

def borrowed : {s : Shape} → Outcome s → Option Lease
  | .borrowed, .ok lease => lease
  | _, _ => none

def Control.lease? {s : Shape} : Control s → Option Lease
  | .call _ => none
  | .give o => borrowed o

def Running.lease? (r : Running) : Option Lease := r.control.lease?.or r.stack.lease?

def Status.lease? : Status → Option Lease
  | .ready _ k | .paused _ k => k.lease?
  | .running => none
  | .finished _ o => borrowed o

namespace State

def lease? (l : State) (t : Nat) : Option Lease :=
  ((l.tasks[t]?).bind fun k => k.status.lease?).or
    (l.running.bind fun r => if r.task = t then r.lease? else none)

end State

/-- What a task has borrowed and not given back. -/
def Desk.lease? (x : Desk) (t : Nat) : Option Lease :=
  if t ∈ x.returned then none else x.loop.lease? t

def Desk.Unclaimed (x : Desk) (id : Nat) : Route → Prop
  | .pool p _ => (∀ t c, x.lease? t = some c → c.id ≠ id) ∧
      ∃ s, x.loop.pool? p = some s ∧ id ∈ s.connections.map (·.id) ∧ ∀ t, (t, id) ∉ s.handed
  | .single => ∀ t c, x.lease? t = some c → c.id ≠ id

/-- One step of the loop, or something that happens while no task is at work. -/
inductive Desk.Step (M : Nat) (way : Route) (careless : Prop) (x : Desk) : Desk → Prop
  | loop {l' : State} : x.loop.step? = some l' →
      Desk.Step M way careless x ⟨l', x.returned, x.past ++ [x.loop]⟩
  /-- A client makes a call and is at work on it at once. -/
  | enter {s : Shape} {c : Call s} : x.loop.running = none → c.Asked M way →
      Desk.Step M way careless x { x with loop := x.loop.enter c }
  /-- A client makes a task for a call. -/
  | spawn {s : Shape} {c : Call s} : x.loop.running = none → c.Asked M way →
      Desk.Step M way careless x { x with loop := (x.loop.spawn c []).1 }
  /-- A client runs a statement on its connection. -/
  | runs {t : Nat} {c : Lease} (d : Database) (s : Statement) (m : Access.Mode) :
      x.loop.running = none → careless ∨ x.Keeps t c ∨ x.Inside M t c →
      Desk.Step M way careless x { x with loop := x.loop.enter (.run d c.handle s m) }
  | plans {t : Nat} {c : Lease} (d : Database) (s : Statement) (m : Access.Mode) :
      x.loop.running = none → careless ∨ x.Keeps t c →
      Desk.Step M way careless x { x with loop := (x.loop.spawn (.run d c.handle s m) []).1 }
  | giveBack {t : Nat} {c : Lease} : x.loop.running = none → x.Keeps t c →
      careless ∨ x.Unplanned c.handle →
      Desk.Step M way careless x
        { x with loop := (x.loop.giveBack M (some c)).1, returned := t :: x.returned }
  | cancel (t : Nat) : x.loop.running = none →
      Desk.Step M way careless x { x with loop := x.loop.cancel t }
  | answer {t : Nat} {k : Task} {st : Stack .unit} : x.loop.running = none →
      x.loop.tasks[t]? = some k → k.status = .paused .held st →
      Desk.Step M way careless x { x with loop := x.loop.answerHeld t }
  /-- The engine is going to answer otherwise. -/
  | engine (rules : List Engine.Rule) (openings : List Engine.Opening) (closings : List Engine.Closing) :
      x.loop.running = none → Desk.Step M way careless x
        { x with loop := x.loop.modifyEngine fun e => { e with rules, openings, closings } }
  | tick (now : Float) : x.loop.running = none →
      Desk.Step M way careless x { x with loop := { x.loop with clock := now } }
  /-- A careless client forgets about the connection that it has. -/
  | forget {t : Nat} {c : Lease} : careless → x.loop.running = none → x.Keeps t c →
      Desk.Step M way careless x { x with returned := t :: x.returned }
  /-- A careless client gives back what nobody has. -/
  | release (c : Lease) : careless → x.loop.running = none → x.Unclaimed c.id way →
      Desk.Step M way careless x { x with loop := (x.loop.giveBack M (some c)).1 }
  /-- A careless client destroys what nobody has. -/
  | destroy {p : Nat} {d : Database} (id : Nat) : careless → x.loop.running = none →
      way = .pool p d → x.Unclaimed id way →
      Desk.Step M way careless x { x with loop := x.loop.enter (.destroy p id) }

abbrev Desk.Steps (M : Nat) (way : Route) (careless : Prop) : Desk → Desk → Prop :=
  Relation.ReflTransGen (Desk.Step M way careless)

def State.Idle (l : State) : Prop :=
  l.running = none ∧ ∀ (i : Nat) (k : Task), l.tasks[i]? = some k →
    (∃ s o, k.status = .finished s o) ∧ k.status.lease? = none ∧ ∀ t, .resume t ∉ k.followers

def State.SetUp (M : Nat) (l : State) : Route → Prop
  | .pool p d => (∃ k, l.manager? M = some k ∧ k.database = some d ∧ k.pool = some p ∧ k.single = none) ∧
      ∃ settings, l.pool? p = some { settings, source := .database d }
  | .single => ∃ k id c, l.manager? M = some k ∧ k.enabled = true ∧ k.pool = none ∧ k.single = some id ∧
      k.lock = {} ∧ l.standalone? id = some c ∧ c.inUse = false

/-- What a manager's clients and its engine can bring about, in one use of it. -/
structure State.Reaches (M : Nat) (way : Route) (careless : Prop) (l : State) (x : Desk) : Prop where
  idle : l.Idle
  setUp : l.SetUp M way
  steps : Desk.Steps M way careless ⟨l, [], []⟩ x

def Desk.settle (x : Desk) : Nat → Desk
  | 0 => x
  | n + 1 =>
    match x.loop.step? with
    | none => x
    | some l => settle ⟨l, x.returned, x.past ++ [x.loop]⟩ n

theorem Desk.settle_steps (M : Nat) (way : Route) (careless : Prop) (n : Nat) (x : Desk) :
    Desk.Steps M way careless x (x.settle n) := by
  induction n generalizing x with
  | zero => exact .refl
  | succ n ih =>
    rw [settle]
    split
    next => exact .refl
    next l hl => exact .head (.loop hl) (ih _)

def Desk.called {s : Shape} (x : Desk) (c : Call s) : Desk :=
  ({ x with loop := (x.loop.spawn c []).1 } : Desk).settle 20

theorem Desk.called_steps {M : Nat} {way : Route} {careless : Prop} {x : Desk} {s : Shape} {c : Call s}
    (hr : x.loop.running = none) (hc : c.Asked M way) : Desk.Steps M way careless x (x.called c) :=
  .head (.spawn hr hc) (Desk.settle_steps ..)

end SqliteAccess.Loop
