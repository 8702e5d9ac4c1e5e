import Mathlib.Data.List.Basic
import SqliteAccess.Proofs.Log.Redacted
import SqliteAccess.Proofs.Loop.Weight

/-!
A loop without what its records mask. Whatever values statements are still to be run with, no step looks at
them: the steps of a loop whose statements have been masked are the steps of the loop, masked.
-/

namespace SqliteAccess.Sql

def Statement.masked (s : Statement) : Statement := { s with params := Log.redact s.params }

end SqliteAccess.Sql

namespace SqliteAccess.Engine

def Request.masked : Request → Request
  | .execute h sql params => .execute h sql (Log.redact params)
  | r => r

namespace State

def masked (s : State) : State := { s with requests := s.requests.map Request.masked }

theorem masked_record (s : State) (r : Request) : s.masked.record r.masked = (s.record r).masked := by
  simp [record, masked]

@[simp] theorem masked_nextOpening (s : State) : s.masked.nextOpening = Prod.map id masked s.nextOpening := by
  obtain ⟨_, openings, _, _, _, _⟩ := s
  cases openings <;> rfl

@[simp] theorem masked_nextClosing (s : State) : s.masked.nextClosing = Prod.map id masked s.nextClosing := by
  obtain ⟨_, _, closings, _, _, _⟩ := s
  cases closings <;> rfl

@[simp] theorem masked_nextRule (s : State) (sql : String) :
    s.masked.nextRule sql = Prod.map id masked (s.nextRule sql) := rfl

end State

end SqliteAccess.Engine

namespace SqliteAccess.Loop

open SqliteAccess.Pool (Handle Lease)
open Access (Database)
open Sql (Statement)

def Call.masked : {s : Shape} → Call s → Call s
  | _, .send h s => .send h s.masked
  | _, .run d h s m => .run d h s.masked m
  | _, .execute m s mode => .execute m s.masked mode
  | _, .executeAll m ss mode => .executeAll m (ss.map Statement.masked) mode
  | _, c => c

def Frame.masked : {s t : Shape} → Frame s t → Frame s t
  | _, _, .start c => .start c.masked
  | _, _, .executing m s mode restores => .executing m s.masked mode restores
  | _, _, .batching m ss mode restores => .batching m (ss.map Statement.masked) mode restores
  | _, _, .batched m lease rest mode done restores =>
    .batched m lease (rest.map Statement.masked) mode done restores
  | _, _, f => f

def Stack.masked : {s : Shape} → Stack s → Stack s
  | _, .done s => .done s
  | _, .push f k => .push f.masked k.masked

def Status.masked : Status → Status
  | .ready signal k => .ready signal k.masked
  | .paused w k => .paused w k.masked
  | .running => .running
  | .finished s o => .finished s o

def Task.masked (k : Task) : Task := { k with status := k.status.masked }

def Control.masked {s : Shape} : Control s → Control s
  | .call c => .call c.masked
  | .give o => .give o

def Running.masked (r : Running) : Running := { r with control := r.control.masked, stack := r.stack.masked }

def State.masked (l : State) : State :=
  { l with
    tasks := l.tasks.map Task.masked
    running := l.running.map Running.masked
    engine := l.engine.masked }

def Next.masked {s : Shape} : Next s → Next s
  | .give o => .give o
  | .call c f => .call c.masked f.masked
  | .jump c => .jump c.masked
  | .pause w f => .pause w f.masked
  | .again f => .again f.masked

def Work.masked {u : Shape} : Work u → Work u
  | .call c => .call c.masked
  | .back f o => .back f.masked o

abbrev maskedBoth {u : Shape} : State × Next u → State × Next u := Prod.map State.masked Next.masked

@[simp] theorem Statement.masked_masked (s : Statement) : s.masked.masked = s.masked := by
  simp [Statement.masked]

@[simp] theorem Statement.masked_comp_masked : Statement.masked ∘ Statement.masked = Statement.masked :=
  funext Statement.masked_masked

@[simp] theorem Call.masked_masked {s : Shape} (c : Call s) : c.masked.masked = c.masked := by
  cases c <;> simp [Call.masked]

@[simp] theorem Frame.masked_masked {s t : Shape} (f : Frame s t) : f.masked.masked = f.masked := by
  cases f <;> simp [Frame.masked]

@[simp] theorem Stack.masked_masked {s : Shape} (k : Stack s) : k.masked.masked = k.masked := by
  induction k with
  | done => rfl
  | push f k ih => simp [Stack.masked, ih]

@[simp] theorem Task.masked_masked (k : Task) : k.masked.masked = k.masked := by
  obtain ⟨status, _, _, _⟩ := k
  cases status <;> simp [Task.masked, Status.masked]

@[simp] theorem Running.masked_masked (r : Running) : r.masked.masked = r.masked := by
  obtain ⟨t, s, control, k⟩ := r
  cases control <;> simp [Running.masked, Control.masked]

@[simp] theorem Request.masked_masked (r : Engine.Request) : r.masked.masked = r.masked := by
  cases r <;> simp [Engine.Request.masked]

@[simp] theorem State.masked_masked (l : State) : l.masked.masked = l.masked := by
  simp [State.masked, Engine.State.masked, Function.comp_def]

@[simp] theorem Next.masked_masked {u : Shape} (n : Next u) : n.masked.masked = n.masked := by
  cases n <;> simp [Next.masked]

@[simp] theorem maskedBoth_maskedBoth {u : Shape} (x : State × Next u) :
    maskedBoth (maskedBoth x) = maskedBoth x := by
  obtain ⟨l, n⟩ := x
  simp

namespace State

variable {l : State} {p t M : Nat} {u : Shape}

@[simp] theorem masked_tasks (l : State) : l.masked.tasks = l.tasks.map Task.masked := rfl
@[simp] theorem masked_running (l : State) : l.masked.running = l.running.map Running.masked := rfl
@[simp] theorem masked_pools (l : State) : l.masked.pools = l.pools := rfl
@[simp] theorem masked_managers (l : State) : l.masked.managers = l.managers := rfl
@[simp] theorem masked_ready (l : State) : l.masked.ready = l.ready := rfl
@[simp] theorem masked_clock (l : State) : l.masked.clock = l.clock := rfl
@[simp] theorem masked_turnLeft (l : State) : l.masked.turnLeft = l.turnLeft := rfl
@[simp] theorem masked_timers (l : State) : l.masked.timers = l.timers := rfl
@[simp] theorem masked_nextTimer (l : State) : l.masked.nextTimer = l.nextTimer := rfl
@[simp] theorem masked_standalone (l : State) : l.masked.standalone = l.standalone := rfl
@[simp] theorem masked_nextConnection (l : State) : l.masked.nextConnection = l.nextConnection := rfl
@[simp] theorem masked_opener (l : State) : l.masked.opener = l.opener := rfl
@[simp] theorem masked_engine (l : State) : l.masked.engine = l.engine.masked := rfl
@[simp] theorem masked_outside (l : State) : l.masked.outside = l.outside := rfl
@[simp] theorem masked_fresh (l : State) : l.masked.fresh = l.fresh := rfl
@[simp] theorem masked_log (l : State) : l.masked.log = l.log := rfl
@[simp] theorem masked_pool? (l : State) (p : Nat) : l.masked.pool? p = l.pool? p := rfl
@[simp] theorem masked_manager? (l : State) (m : Nat) : l.masked.manager? m = l.manager? m := rfl
@[simp] theorem masked_standalone? (l : State) (id : Nat) : l.masked.standalone? id = l.standalone? id := rfl
@[simp] theorem masked_connection? (l : State) (id : Nat) : l.masked.connection? id = l.connection? id := rfl

@[simp] theorem masked_current? (l : State) : l.masked.current? = l.current? := by
  simp [current?, Function.comp_def, Running.masked]

@[simp] theorem masked_currentTask (l : State) : l.masked.currentTask = l.currentTask := by
  simp [currentTask]

@[simp] theorem masked_context (l : State) : l.masked.context = l.context := by
  simp only [context, masked_current?, masked_outside, masked_tasks, List.getElem?_map]
  cases l.current? with
  | none => rfl
  | some t =>
    dsimp only
    cases l.tasks[t]? <;> rfl

@[simp] theorem masked_isFinished (l : State) (t : Nat) : l.masked.isFinished t = l.isFinished t := by
  simp only [isFinished, masked_tasks, List.getElem?_map]
  rcases l.tasks[t]? with _ | ⟨status, _, _, _⟩
  · rfl
  · cases status <;> rfl

@[simp] theorem masked_endOf (l : State) (t : Nat) : l.masked.endOf t = l.endOf t := by
  simp only [endOf, masked_tasks, List.getElem?_map]
  rcases l.tasks[t]? with _ | ⟨status, _, _, _⟩
  · rfl
  · cases status <;> rfl

theorem masked_modifyTask {f g : Task → Task} (hf : ∀ k, g k.masked = (f k).masked) (l : State) (t : Nat) :
    l.masked.modifyTask t g = (l.modifyTask t f).masked := by
  have h : (l.tasks.map Task.masked).modify t g = (l.tasks.modify t f).map Task.masked := by
    refine List.ext_getElem? fun i => ?_
    simp only [List.getElem?_modify, List.getElem?_map]
    split <;> cases l.tasks[i]? <;> simp [hf]
  simp only [modifyTask, masked_tasks, h]
  rfl

@[simp] theorem masked_modifyPool (l : State) (p : Nat) (f : Pool.State → Pool.State) :
    l.masked.modifyPool p f = (l.modifyPool p f).masked := rfl

@[simp] theorem masked_modifyManager (l : State) (m : Nat) (f : Access.Manager → Access.Manager) :
    l.masked.modifyManager m f = (l.modifyManager m f).masked := rfl

@[simp] theorem masked_modifyOpener (l : State) (f : Engine.Opener → Engine.Opener) :
    l.masked.modifyOpener f = (l.modifyOpener f).masked := rfl

@[simp] theorem masked_letGo (l : State) (t : Nat) :
    l.masked.modifyEngine (fun e => e.letGo t) = (l.modifyEngine fun e => e.letGo t).masked := rfl

@[simp] theorem masked_enqueue (l : State) (j : Job) : l.masked.enqueue j = (l.enqueue j).masked := rfl

@[simp] theorem masked_dropTimer (l : State) (n : Nat) : l.masked.dropTimer n = (l.dropTimer n).masked := rfl

@[simp] theorem masked_addTimer (l : State) (d : Float) (t : Nat) :
    l.masked.addTimer d t = ((l.addTimer d t).1.masked, (l.addTimer d t).2) := rfl

@[simp] theorem masked_setStandaloneUse (l : State) (id : Nat) (inUse : Bool) :
    l.masked.setStandaloneUse id inUse = (l.setStandaloneUse id inUse).masked := rfl

@[simp] theorem masked_report (l : State) (r : Log.Record) : l.masked.report r = (l.report r).masked := by
  simp only [report, masked_context, masked_log]
  split <;> rfl

theorem report_of_masked {m : State} (h : m = l.masked) (r : Log.Record) : m.report r = (l.report r).masked :=
  h ▸ masked_report l r

theorem report_both {m : State} {n n' : Next u} (h : m = l.masked) (hn : n' = n.masked) (r : Log.Record) :
    (m.report r, n') = maskedBoth (l.report r, n) :=
  Prod.ext (report_of_masked h r) hn

@[simp] theorem masked_setContext (l : State) (c : Option Log.CorrelationId) :
    l.masked.setContext c = (l.setContext c).masked := by
  simp only [setContext, masked_current?]
  split
  · rfl
  next t _ => exact masked_modifyTask (f := fun k => { k with context := c }) (fun _ => rfl) l t

@[simp] theorem masked_requestCancel (l : State) (t : Nat) : l.masked.requestCancel t = (l.requestCancel t).masked :=
  masked_modifyTask (f := fun k => { k with cancelRequested := true }) (fun _ => rfl) l t

theorem masked_spawn {s : Shape} (l : State) (c : Call s) (fs : List Follower) :
    l.masked.spawn c.masked fs = ((l.spawn c fs).1.masked, (l.spawn c fs).2) := by
  simp only [spawn, masked_context, masked_tasks, List.length_map]
  simp [enqueue, masked, Task.masked, Status.masked, Stack.masked, Frame.masked]

@[simp] theorem masked_wake (l : State) (t : Nat) (signal : Option Failure) :
    l.masked.wake t signal = (l.wake t signal).masked := by
  simp only [wake, masked_tasks, List.getElem?_map]
  rcases l.tasks[t]? with _ | ⟨status, _, _, _⟩
  · rfl
  · cases status with
    | paused w k =>
      have h : l.masked.modifyTask t (fun x => { x with status := .ready signal k.masked }) =
          (l.modifyTask t fun x => { x with status := .ready signal k }).masked :=
        masked_modifyTask (by exact fun _ => rfl) l t
      exact congrArg (·.enqueue (.step t)) h
    | _ => rfl

@[simp] theorem masked_wakeInLine (l : State) (t : Nat) (signal : Option Failure) :
    l.masked.wakeInLine t signal = (l.wakeInLine t signal).masked := by
  simp only [wakeInLine, masked_tasks, List.getElem?_map]
  rcases l.tasks[t]? with _ | ⟨status, _, _, _⟩
  · exact masked_wake l t signal
  · cases status with
    | paused w k =>
      cases w with
      | turn p timer =>
        cases timer with
        | none => exact masked_wake l t signal
        | some n => exact masked_wake (l.dropTimer n) t signal
      | _ => exact masked_wake l t signal
    | _ => exact masked_wake l t signal

theorem masked_foldl {α : Type} {f : State → α → State} (hf : ∀ l a, f l.masked a = (f l a).masked) (l : State)
    (as : List α) : as.foldl f l.masked = (as.foldl f l).masked := by
  induction as generalizing l with
  | nil => rfl
  | cons a as ih => rw [List.foldl_cons, hf, ih, List.foldl_cons]

@[simp] theorem masked_leaseOf (l : State) (p id : Nat) : l.masked.leaseOf p id = l.leaseOf p id := rfl

theorem masked_spawnBackground (l : State) (p : Nat) (c : Call .unit) :
    l.masked.spawnBackground p c.masked = (l.spawnBackground p c).masked := by
  simp only [spawnBackground, masked_spawn, masked_modifyPool]

@[simp] theorem masked_spawnOpens (l : State) (p k : Nat) : l.masked.spawnOpens p k = (l.spawnOpens p k).masked := by
  induction k generalizing l with
  | zero => rfl
  | succ k ih =>
    have h := masked_spawnBackground (l.modifyPool p Pool.State.reserveBackground) p (.openBackground p)
    rw [spawnOpens, spawnOpens, ← ih]
    exact congrArg (·.spawnOpens p k) h

@[simp] theorem masked_grow (l : State) (p : Nat) : l.masked.grow p = Prod.map masked id (l.grow p) := by
  simp only [grow, masked_pool?]
  split
  · rfl
  · split
    · rfl
    · simp

@[simp] theorem masked_ensureMinimum (l : State) (p : Nat) :
    l.masked.ensureMinimum p = Prod.map masked id (l.ensureMinimum p) := by
  simp only [ensureMinimum, masked_pool?]
  split
  · rfl
  · split
    · rfl
    · simp

@[simp] theorem masked_growThen (l : State) (p : Nat) (o : Outcome u) :
    l.masked.growThen p o = maskedBoth (l.growThen p o) := by
  simp only [growThen, masked_grow]
  obtain ⟨m, e | _⟩ := l.grow p <;> rfl

@[simp] theorem masked_checkin (l : State) (p id : Nat) : l.masked.checkin p id = (l.checkin p id).masked := by
  simp only [checkin, masked_pool?, masked_clock, masked_modifyPool]
  split
  · rfl
  · split
    · exact masked_wakeInLine _ _ _
    · rfl

@[simp] theorem masked_failLongestWaiting (l : State) (p : Nat) (e : Failure) :
    l.masked.failLongestWaiting p e = (l.failLongestWaiting p e).masked := by
  simp only [failLongestWaiting, masked_pool?, masked_modifyPool]
  split
  · rfl
  · split
    · exact masked_wakeInLine _ _ _
    · rfl

@[simp] theorem masked_startPool (l : State) (p : Nat) (s : Pool.State) :
    l.masked.startPool p s = (l.startPool p s).masked := by
  have h := masked_spawn l (.reap p) []
  simp only [Call.masked] at h
  simp only [startPool, h]
  split <;> rfl

@[simp] theorem masked_release (l : State) (p i : Nat) :
    l.masked.release p i = Prod.map masked id (l.release p i) := by
  simp only [release, masked_pool?, masked_modifyPool, masked_checkin]
  split
  · rfl
  · split
    · rfl
    · split
      · exact congrArg (·, _) (masked_spawnBackground _ p (.destroy p i))
      · rfl

@[simp] theorem masked_abandonWait (l : State) (t : Nat) (w : Wait) :
    l.masked.abandonWait t w = (l.abandonWait t w).masked := by
  cases w <;> rfl

@[simp] theorem masked_cancelWithin (l : State) (t depth : Nat) :
    l.masked.cancelWithin t depth = (l.cancelWithin t depth).masked := by
  induction depth generalizing l t with
  | zero => exact masked_requestCancel l t
  | succ depth ih =>
    simp only [cancelWithin, masked_tasks, List.getElem?_map]
    rcases l.tasks[t]? with _ | ⟨status, _, _, _⟩
    · rfl
    · cases status with
      | ready | running => exact masked_requestCancel l t
      | finished => rfl
      | paused w k =>
        cases w with
        | task j =>
          simp only [Option.map_some, Task.masked, Status.masked, masked_isFinished, ih, masked_requestCancel]
          split <;> rfl
        | tasks ts b =>
          have h : l.masked.modifyTask t (fun x => { x with status := .paused (.tasks ts true) k.masked }) =
              (l.modifyTask t fun x => { x with status := .paused (.tasks ts true) k }).masked :=
            masked_modifyTask (by exact fun _ => rfl) l t
          simp only [Option.map_some, Task.masked, Status.masked, h]
          exact masked_foldl (fun l j => ih l j) _ ts
        | _ =>
          simp only [Option.map_some, Task.masked, Status.masked, masked_abandonWait]
          exact masked_wakeInLine _ t _

@[simp] theorem masked_cancel (l : State) (t : Nat) : l.masked.cancel t = (l.cancel t).masked := by
  simp [cancel]

end State

end SqliteAccess.Loop
