import SqliteAccess.Session.Basic

/-!
One run of the demonstration over a scripted engine, up to its end.
-/

namespace SqliteAccess.Session.Demonstration

structure Report where
  outcome : Loop.Outcome .reply
  requests : List Engine.Request
  log : List Log.Entry

def runUntil (l : Loop.State) (t : Nat) : Nat → Loop.State
  | 0 => l
  | n + 1 =>
    if l.isFinished t then l
    else
      match l.step? with
      | none => l
      | some l => runUntil l t n

def run (url : String) (rules : List Engine.Rule) (openings : List Engine.Opening) :
    Option Report :=
  let (l, t) := Loop.State.spawn { engine := { rules, openings } } (.demonstrate url) []
  let l := runUntil l t Loop.State.patience
  match l.tasks[t]? with
  | some { status := .finished .reply o, .. } => some ⟨o, l.engine.requests, l.log⟩
  | _ => none

end SqliteAccess.Session.Demonstration
