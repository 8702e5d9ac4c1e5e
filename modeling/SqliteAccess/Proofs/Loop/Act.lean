import SqliteAccess.Proofs.Loop.CallStack
import SqliteAccess.Proofs.Pool.Operations

/-!
What one step of a task can do to a pool, to the tasks that it makes, and to itself. All invariants
of a pool are shown over these acts.
-/

namespace SqliteAccess.Loop

open Pool (Handle)

def opens : Except Failure Nat → Nat
  | .ok n => n
  | .error _ => 0

def orFailure {u : Shape} (r : Except Failure Nat) (o : Outcome u) : Outcome u :=
  match r with
  | .error e => .error e
  | .ok _ => o

def starters (p : Nat) (s : Pool.State) : List (Call .unit) := if s.started then [] else [.reap p]

def openers (p : Nat) (r : Except Failure Nat) : List (Call .unit) :=
  List.replicate (opens r) (.openBackground p)

inductive Stands (p t : Nat) (s : Pool.State) (r : Except Failure Nat) :
    Pool.State → Next .lease → Prop
  | waits (timer : Option Nat) : Stands p t s r s (.pause (.turn p timer) (.inLine p))
  | givesUp : Stands p t s r (s.giveUp t) (.pause (.givenUp p) (.inLine p))
  | fails (e : Failure) :
      r = .error e ∨ Config.optionalSeconds s.settings.acquireTimeoutMs = .error e →
      Stands p t s r s (.give (.error e))

inductive Sweeps (p : Nat) (s : Pool.State) : Next .count → Prop
  | evicts {id : Nat} (rest : List Nat) (n : Nat) : id ∈ s.idle → s.hasSpare = true →
      Sweeps p s (.call (.destroy p id) (.evicting p rest n))
  | ends (o : Outcome .count) : Sweeps p s (.give o)

inductive Rests (p : Nat) : Next .unit → Prop
  | again (i : Float) : Rests p (.again (.rested p i))
  | sleeps (timer : Nat) (i : Float) : Rests p (.pause (.sleep timer) (.rested p i))

inductive Drains (p : Nat) (s : Pool.State) : List Nat → Next .unit → Prop
  | destroys (id : Nat) (rest : List Nat) :
      Drains p s (id :: rest) (.call (.destroy p id) (.draining p rest))
  | waits : Drains p s [] (.pause (.tasks s.background false) (.backgroundEnded p))
  | ends : Drains p s [] (.give (.ok ()))

/-- What a step of task `t` does to a pool `s`, where `T` is the number of the next task and `N` that
of the next connection: the pool and the number after it, the calls of the tasks that it makes, and
what comes next. -/
inductive Act (p t T N : Nat) (s : Pool.State) :
    {u : Shape} → Work u → Pool.State → Nat → List (Call .unit) → Next u → Prop
  | started {u : Shape} (c : Call u) : Act p t T N s (.back (.start c) (.ok ())) s N [] (.jump c)
  | neverStarted {u : Shape} (c : Call u) (e : Failure) :
      Act p t T N s (.back (.start c) (.error e)) s N [] (.give (.error e))
  -- acquire
  | refused : s.closed = true → Act p t T N s (.call (.acquire p)) s N [] (.give (.error .poolClosed))
  | takes {s' : Pool.State} {id : Nat} : s.closed = false → (s.awake T).takeIdle? = some (s', id) →
      Act p t T N s (.call (.acquire p)) s' N (starters p s) (.give (.ok (s'.leaseOf id)))
  | opens : s.closed = false → s.idle = [] → s.mayOpen = true →
      Act p t T N s (.call (.acquire p)) (s.awake T).reserve N (starters p s)
        (.call (.openSlot p) (.opened p))
  | lines {s₁ s' : Pool.State} {n : Next .lease} : s.closed = false → s.idle = [] →
      s.mayOpen = false → s₁ = (s.awake T).enqueue t →
      Stands p t (s₁.expand (T + (starters p s).length) (Loop.opens s₁.growth)) s₁.growth s' n →
      Act p t T N s (.call (.acquire p)) s' N (starters p s ++ openers p s₁.growth) n
  | openFailed (e : Failure) :
      Act p t T N s (.back (.opened p) (.error e)) (s.expand T (Loop.opens s.growth)) N
        (openers p s.growth) (.give (orFailure s.growth (.error e)))
  | openDone {n : Nat} (c : Pool.Lease) : s.shortfall = .ok n →
      Act p t T N s (.back (.opened p) (.ok c)) ((s.expand T n).checkout c.id) N
        (openers p s.shortfall) (.give (.ok c))
  | openSpoilt {e : Failure} (c : Pool.Lease) : s.shortfall = .error e →
      Act p t T N s (.back (.opened p) (.ok c)) s N [] (.give (.error e))
  | served {id : Nat} : s.handedTo? t = some id →
      Act p t T N s (.back (.inLine p) (.ok ())) (s.takeUp t) N []
        (.give (.ok ((s.takeUp t).leaseOf id)))
  | misled : s.handedTo? t = none →
      Act p t T N s (.back (.inLine p) (.ok ())) (s.takeUp t) N [] (.give (.error .missingPart))
  | leaves (e : Failure) : s.handedTo? t = none →
      Act p t T N s (.back (.inLine p) (.error e)) ((s.takeUp t).leaveLine t) N []
        (.give (.error e))
  | passesOn {id : Nat} (e : Failure) (now : Float) : s.handedTo? t = some id →
      Act p t T N s (.back (.inLine p) (.error e)) (((s.takeUp t).leaveLine t).checkin id now).1 N []
        (.give (.error e))
  -- opening
  | asks : Act p t T N s (.call (.openSlot p)) s N [] (.call .askOpen (.registering p))
  | askWaits (n : Nat) : Act p t T N s (.call .askOpen) s N [] (.pause (.opening n) (.askedOpen n))
  | askEnds (o : Outcome .handle) : o ≠ .error .cancelled →
      Act p t T N s (.call .askOpen) s N [] (.give o)
  | answered (n : Nat) (o : Outcome .unit) :
      Act p t T N s (.back (.askedOpen n) o) s N [] (.give (o.map fun _ => Handle.numbered n))
  | registers (h : Handle) (now : Float) :
      Act p t T N s (.back (.registering p) (.ok h)) (s.freeSlot.register N h now) (N + 1) []
        (.give (.ok ⟨N, h⟩))
  | frees (e : Failure) :
      Act p t T N s (.back (.registering p) (.error e)) s.freeSlot N []
        (.give (.error (State.creationFailure e)))
  | opensBackground :
      Act p t T N s (.call (.openBackground p)) s N [] (.call (.openSlot p) (.openedBackground p))
  | backgroundFailed {e : Failure} {s₁ : Pool.State} : e.isConnection = true →
      s₁ = s.endBackground.failFirst.1 →
      Act p t T N s (.back (.openedBackground p) (.error e)) (s₁.expand T (Loop.opens s₁.growth)) N
        (openers p s₁.growth) (.give (orFailure s₁.growth (.ok ())))
  | backgroundCut {e : Failure} : e.isConnection = false →
      Act p t T N s (.back (.openedBackground p) (.error e)) s.endBackground N [] (.give (.error e))
  | backgroundLate (c : Pool.Lease) : s.closed = true →
      Act p t T N s (.back (.openedBackground p) (.ok c)) s.endBackground N []
        (.jump (.destroy p c.id))
  | backgroundDone (c : Pool.Lease) (now : Float) : s.closed = false →
      Act p t T N s (.back (.openedBackground p) (.ok c)) (s.endBackground.checkin c.id now).1 N []
        (.give (.ok ()))
  -- destroy
  | gone {id : Nat} : s.remove? id = none →
      Act p t T N s (.call (.destroy p id)) s N [] (.give (.ok ()))
  | removes {id : Nat} {s' : Pool.State} {h : Handle} : s.remove? id = some (s', h) →
      Act p t T N s (.call (.destroy p id)) s' N [] (.call (.askClose h) (.destroyed p id))
  | closeWaits (h : Handle) (fault : Option Fault) :
      Act p t T N s (.call (.askClose h)) s N [] (.pause (.closing h) (.askedClose fault))
  | closeEnds (h : Handle) (o : Outcome .unit) : Act p t T N s (.call (.askClose h)) s N [] (.give o)
  | closeAnswered (fault : Option Fault) (o o' : Outcome .unit) :
      Act p t T N s (.back (.askedClose fault) o) s N [] (.give o')
  | destroyed (id : Nat) (o : Outcome .unit) :
      Act p t T N s (.back (.destroyed p id) o) (s.expand T (Loop.opens s.growth)) N
        (openers p s.growth) (.give (orFailure s.growth o))
  -- the sweep
  | evicts {n : Next .count} : Sweeps p s n → Act p t T N s (.call (.evict p)) s N [] n
  | evictsOn (rest : List Nat) (k : Nat) (o : Outcome .unit) {n : Next .count} : Sweeps p s n →
      Act p t T N s (.back (.evicting p rest k) o) s N [] n
  | reaps {n : Next .unit} : Rests p n → Act p t T N s (.call (.reap p)) s N [] n
  | reapFails {e : Failure} : Config.seconds s.settings.reapIntervalMs = .error e →
      Act p t T N s (.call (.reap p)) s N [] (.give (.error e))
  | restCut (i : Float) (e : Failure) :
      Act p t T N s (.back (.rested p i) (.error e)) s N [] (.give (.error e))
  | restOver (i : Float) :
      Act p t T N s (.back (.rested p i) (.ok ())) s N [] (.call (.evict p) (.swept p i))
  | sweptCut (i : Float) :
      Act p t T N s (.back (.swept p i) (.error .cancelled)) s N [] (.give (.error .cancelled))
  | sweptOver (i : Float) (o : Outcome .count) {n : Next .unit} {m : Nat} : s.shortfall = .ok m →
      Rests p n → Act p t T N s (.back (.swept p i) o) (s.expand T m) N (openers p s.shortfall) n
  | sweptFails (i : Float) (o : Outcome .count) {e : Failure} : s.shortfall = .error e →
      Act p t T N s (.back (.swept p i) o) s N [] (.give (.error e))
  -- closing
  | shutBefore : s.closed = true → Act p t T N s (.call (.closePool p)) s N [] (.give (.ok ()))
  | shuts {r : Nat} : s.closed = false → s.reaper = some r →
      Act p t T N s (.call (.closePool p)) s.shut N [] (.pause (.task r) (.reaperEnded p))
  | shutsAtOnce {n : Next .unit} : s.closed = false → Drains p s.shut.cleared s.idle n →
      Act p t T N s (.call (.closePool p)) s.shut.cleared N [] n
  | shutFails (e : Failure) : s.closed = false →
      Act p t T N s (.call (.closePool p)) s.shut N [] (.give (.error e))
  | clears (o : Outcome .unit) {n : Next .unit} : Drains p s.cleared s.idle n →
      Act p t T N s (.back (.reaperEnded p) o) s.cleared N [] n
  | clearFails {e : Failure} : e ≠ .cancelled →
      Act p t T N s (.back (.reaperEnded p) (.error e)) s N [] (.give (.error e))
  | drains {rest : List Nat} {n : Next .unit} : Drains p s rest n →
      Act p t T N s (.back (.draining p rest) (.ok ())) s N [] n
  | drainFails (rest : List Nat) (e : Failure) :
      Act p t T N s (.back (.draining p rest) (.error e)) s N [] (.give (.error e))
  | gathers (o : Outcome .unit) : Act p t T N s (.back (.backgroundEnded p) o) s N [] (.give o)

theorem Stands.keeps {p t : Nat} {s s' : Pool.State} {r : Except Failure Nat} {n : Next .lease}
    (h : Stands p t s r s' n) : n.Keeps p (.acquire p) := by
  cases h with
  | waits timer => exact .pause (.turn p timer) .inLine
  | givesUp => exact .pause (.givenUp p) .inLine
  | fails _ _ => exact .give _ _

theorem Sweeps.keeps {p : Nat} {s : Pool.State} {n : Next .count} (h : Sweeps p s n) :
    n.Keeps p (.evict p) := by
  cases h with
  | evicts rest k _ _ => exact .call (.evicting _ rest k) (.evicting rest k)
  | ends o => exact .give o _

theorem Rests.keeps {p : Nat} {n : Next .unit} (h : Rests p n) : n.Keeps p (.reap p) := by
  cases h with
  | again i => exact .again (.sleep p i 0) (.rested i)
  | sleeps timer i => exact .pause (.sleep p i timer) (.rested i)

theorem Drains.keeps {p : Nat} {s : Pool.State} {rest : List Nat} {n : Next .unit}
    (h : Drains p s rest n) : n.Keeps p (.closePool p) := by
  cases h with
  | destroys id rest => exact .call (.draining id rest) (.draining rest)
  | waits => exact .pause (.tasks p _ _) .backgroundEnded
  | ends => exact .give _ _

theorem Act.keeps {p t T N N' : Nat} {s s' : Pool.State} {u : Shape} {w : Work u}
    {cs : List (Call .unit)} {n : Next u} {d : Call u} (h : Act p t T N s w s' N' cs n)
    (hw : w.Of p d) : n.Keeps p d := by
  cases h
  case started c => cases hw with | back _ hf => cases hf with | start hc => exact .jump hc
  case lines _ _ _ _ hs => cases hw; exact hs.keeps
  case opens => cases hw; exact .call .opened .opened
  case asks => cases hw; exact .call .registering .registering
  case askWaits n => cases hw; exact .pause (.opening n) (.askedOpen n)
  case opensBackground => cases hw; exact .call .openedBackground .openedBackground
  case backgroundLate c _ => cases hw with | back _ hf => cases hf; exact .late c.id
  case removes id h _ => cases hw; exact .call (.destroyed id h) (.destroyed id)
  case closeWaits h fault => cases hw; exact .pause (.closing fault h) (.askedClose fault h)
  case evicts hs => cases hw; exact hs.keeps
  case evictsOn hs => cases hw with | back _ hf => cases hf; exact hs.keeps
  case reaps hr => cases hw; exact hr.keeps
  case restOver i => cases hw with | back _ hf => cases hf; exact .call (.swept i) (.swept i)
  case sweptOver hr => cases hw with | back _ hf => cases hf; exact hr.keeps
  case shuts r _ _ => cases hw; exact .pause (.task p r) .reaperEnded
  case shutsAtOnce hd => cases hw; exact hd.keeps
  case clears hd => cases hw with | back _ hf => cases hf; exact hd.keeps
  case drains hd => cases hw with | back _ hf => cases hf; exact hd.keeps
  all_goals exact .give _ _

end SqliteAccess.Loop
