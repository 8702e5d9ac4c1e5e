import Mathlib.Logic.Relation
import SqliteAccess.Proofs.Loop.Weight
import SqliteAccess.Session.Pool

/-!
Runs of one pool: steps of the loop, and between them whatever users of the pool and its driver do.
-/

namespace SqliteAccess.Loop

inductive Call.Offered (p : Nat) : {s : Shape} → Call s → Prop
  | acquire : Call.Offered p (.acquire p)
  | destroy (id : Nat) : Call.Offered p (.destroy p id)
  | evict : Call.Offered p (.evict p)
  | closePool : Call.Offered p (.closePool p)

inductive Event where
  /-- A task of a user calls the pool and is at work on it at once. -/
  | enter {s : Shape} (c : Call s)
  /-- A user makes a task for a call. -/
  | spawn {s : Shape} (c : Call s)
  | release (p id : Nat)
  | cancel (t : Nat)
  /-- The driver ends the open, or the close, that a task waits for. -/
  | answerOpen (t : Nat) (signal : Option Failure)
  | answerClose (t : Nat) (signal : Option Failure)
  /-- The driver is going to answer otherwise. -/
  | driver (o : Engine.Opener)
  | tick (now : Float)

def Event.Offered (p : Nat) : Event → Prop
  | .enter c | .spawn c => c.Offered p
  | .release q _ => q = p
  | _ => True

namespace State

def enter {s : Shape} (l : State) (c : Call s) : State :=
  { l with
    tasks := l.tasks ++ [{ status := .running, context := l.context }]
    running := some ⟨l.tasks.length, s, .call c, .done s⟩ }

def answerOpen (l : State) (t : Nat) (signal : Option Failure) : State :=
  match l.tasks[t]? with
  | some { status := .paused (.opening n) _, .. } =>
    (l.modifyOpener fun o => o.dropOpen n).wake t signal
  | _ => l

def answerClose (l : State) (t : Nat) (signal : Option Failure) : State :=
  match l.tasks[t]? with
  | some { status := .paused (.closing h) _, .. } =>
    (l.modifyOpener fun o => o.dropClose h).wake t signal
  | _ => l

def after (l : State) : Event → State
  | .enter c => l.enter c
  | .spawn c => (l.spawn c []).1
  | .release p id => (l.release p id).1
  | .cancel t => l.cancel t
  | .answerOpen t signal => l.answerOpen t signal
  | .answerClose t signal => l.answerClose t signal
  | .driver o => { l with opener := o }
  | .tick now => { l with clock := now }

end State

inductive Step (p : Nat) (allowed : State → Event → Prop) (l : State) : State → Prop
  | loop {l' : State} : l.step? = some l' → Step p allowed l l'
  | event (e : Event) : l.running = none → e.Offered p → allowed l e → Step p allowed l (l.after e)

def Freely (_ : State) (_ : Event) : Prop := True

abbrev Steps (p : Nat) (allowed : State → Event → Prop) : State → State → Prop :=
  Relation.ReflTransGen (Step p allowed)

def State.ofPool (settings : Config.PoolSettings) : State :=
  (Session.Pooling.start settings false false).loop

/-- The states of a pool that its users and its driver can bring about. -/
def Reachable (settings : Config.PoolSettings) (allowed : State → Event → Prop) (l : State) : Prop :=
  Steps Session.Pooling.number allowed (.ofPool settings) l

section Reaching

variable {settings : Config.PoolSettings} {allowed : State → Event → Prop} {l : State}

theorem Reachable.after (h : Reachable settings allowed l) {e : Event} (hr : l.running = none)
    (he : e.Offered Session.Pooling.number) (ha : allowed l e) :
    Reachable settings allowed (l.after e) := h.tail (.event e hr he ha)

theorem Steps.settleWithin (p : Nat) (l : State) (n : Nat) : Steps p allowed l (l.settleWithin n) := by
  induction n generalizing l with
  | zero => exact .refl
  | succ n ih =>
    rw [State.settleWithin]
    cases hl : l.step? with
    | none => exact .refl
    | some l' => exact (ih l').head (.loop hl)

theorem Reachable.settleWithin (h : Reachable settings allowed l) (n : Nat) :
    Reachable settings allowed (l.settleWithin n) := h.trans (Steps.settleWithin _ l n)

def tight : Config.PoolSettings := { maxConnections := .int 1, minConnections := .int 0 }

def firstOpens : State :=
  (((State.ofPool tight).after (.driver { manualOpen := true })).after
    (.enter (.acquire Session.Pooling.number))).settleWithin 3

def secondWaits : State :=
  (firstOpens.after (.enter (.acquire Session.Pooling.number))).settleWithin 1

theorem firstOpens_reachable (hd : ∀ l o, allowed l (.driver o))
    (he : ∀ l, allowed l (.enter (.acquire Session.Pooling.number))) :
    Reachable tight allowed firstOpens := by
  have h : Reachable tight allowed (.ofPool tight) := .refl
  have h₁ := h.after (e := .driver { manualOpen := true }) rfl trivial (hd _ _)
  exact (h₁.after (e := .enter (.acquire _)) rfl Call.Offered.acquire (he _)).settleWithin 3

theorem secondWaits_reachable (hd : ∀ l o, allowed l (.driver o))
    (he : ∀ l, allowed l (.enter (.acquire Session.Pooling.number))) :
    Reachable tight allowed secondWaits := by
  have h := firstOpens_reachable hd he
  exact (h.after (e := .enter (.acquire _)) rfl Call.Offered.acquire (he _)).settleWithin 1

example : secondWaits.running = none := rfl

def thirdWaits : State :=
  (secondWaits.after (.enter (.acquire Session.Pooling.number))).settleWithin 1

theorem thirdWaits_reachable (hd : ∀ l o, allowed l (.driver o))
    (he : ∀ l, allowed l (.enter (.acquire Session.Pooling.number))) :
    Reachable tight allowed thirdWaits := by
  have h := secondWaits_reachable hd he
  exact (h.after (e := .enter (.acquire _)) rfl Call.Offered.acquire (he _)).settleWithin 1

end Reaching

end SqliteAccess.Loop
