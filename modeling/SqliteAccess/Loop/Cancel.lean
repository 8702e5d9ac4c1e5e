import SqliteAccess.Loop.State

/-!
Cancellation. A task that is paused stops waiting and goes on with the failure; one that waits for
other tasks passes the request on to them and keeps waiting; any other task meets the failure when it
next goes on.
-/

namespace SqliteAccess.Loop.State

def requestCancel (l : State) (t : Nat) : State :=
  l.modifyTask t fun k => { k with cancelRequested := true }

def wakeInLine (l : State) (t : Nat) (signal : Option Failure) : State :=
  match l.tasks[t]? with
  | some { status := .paused (.turn _ (some n)) _, .. } => (l.dropTimer n).wake t signal
  | _ => l.wake t signal

def abandonWait (l : State) (t : Nat) : Wait → State
  | .turn p _ => l.modifyPool p fun s => s.giveUp t
  | .givenUp _ => l
  | .opening n => l.modifyOpener fun o => o.dropOpen n
  | .closing h => l.modifyOpener fun o => o.dropClose h
  | .held => l.modifyEngine fun e => e.letGo t
  | .sleep n => l.dropTimer n
  | .lock m => l.modifyManager m fun k => { k with lock := k.lock.mark t .cancelled }
  | .task _ => l
  | .tasks _ _ => l

/-- `depth` bounds how far a request is passed on from task to task. -/
def cancelWithin (l : State) (t : Nat) : Nat → State
  | 0 => l.requestCancel t
  | depth + 1 =>
    match l.tasks[t]? with
    | none => l
    | some task =>
      match task.status with
      | .finished _ _ => l
      | .ready _ _ | .running => l.requestCancel t
      | .paused (.task k) _ =>
        if l.isFinished k then l.requestCancel t else l.cancelWithin k depth
      | .paused (.tasks remaining _) stack =>
        let l := l.modifyTask t fun k => { k with status := .paused (.tasks remaining true) stack }
        remaining.foldl (fun l k => l.cancelWithin k depth) l
      | .paused w _ => (l.abandonWait t w).wakeInLine t (some .cancelled)

def cancel (l : State) (t : Nat) : State := l.cancelWithin t l.tasks.length

end SqliteAccess.Loop.State
