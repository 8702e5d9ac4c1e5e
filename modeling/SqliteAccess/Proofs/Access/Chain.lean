import SqliteAccess.Proofs.Loop.Weight

/-!
The stacks of the tasks of a manager are chains of callers too: those of clients reach down from a call
of the manager to a statement of the engine, those of its pool from a call of the pool.
-/

namespace SqliteAccess.Loop

open Pool (Handle Lease)
open Access (Database)
open Sql (Statement)

/-- How a manager reaches its database: through a pool, or through one connection under its lock. -/
inductive Route where
  | pool (p : Nat) (d : Database)
  | single

/-- What the tasks of a manager are made for: the calls of its clients, and those of its pool. -/
inductive Call.Served (M : Nat) : Route → {s : Shape} → Call s → Prop
  | execute (way : Route) (s : Statement) (mode : Value) : Call.Served M way (.execute M s mode)
  | executeAll (way : Route) (ss : List Statement) (mode : Value) :
      Call.Served M way (.executeAll M ss mode)
  | block (way : Route) (hold fail : Bool) : Call.Served M way (.block M hold fail)
  | borrow (way : Route) : Call.Served M way (.borrow M)
  | shutDown (way : Route) : Call.Served M way (.shutDown M)
  | within (way : Route) (fail : Bool) : Call.Served M way (.within M fail)
  | run (way : Route) (d : Database) (h : Handle) (s : Statement) (m : Access.Mode) :
      Call.Served M way (.run d h s m)
  | evict (p : Nat) (d : Database) : Call.Served M (.pool p d) (.evict p)
  | reap (p : Nat) (d : Database) : Call.Served M (.pool p d) (.reap p)
  | openBackground (p : Nat) (d : Database) : Call.Served M (.pool p d) (.openBackground p)
  | destroy (p : Nat) (d : Database) (id : Nat) : Call.Served M (.pool p d) (.destroy p id)

/-- The frame is what is left of the second call, which has made the first one. -/
inductive Frame.Links (M : Nat) : Route → {s t : Shape} → Frame s t → Call s → Call t → Prop
  | opened (p : Nat) (d : Database) : Frame.Links M (.pool p d) (.opened p) (.openSlot p) (.acquire p)
  | registering (p : Nat) (d : Database) :
      Frame.Links M (.pool p d) (.registering p) (.connect d true) (.openSlot p)
  | openedBackground (p : Nat) (d : Database) :
      Frame.Links M (.pool p d) (.openedBackground p) (.openSlot p) (.openBackground p)
  | destroyed (p : Nat) (d : Database) (id : Nat) (h : Handle) :
      Frame.Links M (.pool p d) (.destroyed p id) (.hangUp h) (.destroy p id)
  | evicting (p : Nat) (d : Database) (id : Nat) (rest : List Nat) (n : Nat) :
      Frame.Links M (.pool p d) (.evicting p rest n) (.destroy p id) (.evict p)
  | swept (p : Nat) (d : Database) (i : Float) :
      Frame.Links M (.pool p d) (.swept p i) (.evict p) (.reap p)
  | draining (p : Nat) (d : Database) (id : Nat) (rest : List Nat) :
      Frame.Links M (.pool p d) (.draining p rest) (.destroy p id) (.closePool p)
  | connected (p : Nat) (d : Database) :
      Frame.Links M (.pool p d) (.connected d true) (.dial d) (.connect d true)
  | foreignKeysSet (p : Nat) (d : Database) (h : Handle) :
      Frame.Links M (.pool p d) (.foreignKeysSet d h true) (.send h ⟨Sql.foreignKeysPragma, []⟩)
        (.connect d true)
  | journalSet (p : Nat) (d : Database) (h : Handle) :
      Frame.Links M (.pool p d) (.journalSet d h) (.send h ⟨Sql.journalPragma, []⟩) (.connect d true)
  | ran (way : Route) (d : Database) (h : Handle) (s : Statement) (m : Access.Mode) (start : Float) :
      Frame.Links M way (.ran d s.sql m start) (.send h s) (.run d h s m)
  | leased (p : Nat) (d : Database) : Frame.Links M (.pool p d) .leased (.acquire p) (.borrow M)
  | lockedToUse : Frame.Links M .single (.lockedToUse M) (.lock M) (.borrow M)
  | executing (way : Route) (s : Statement) (m : Access.Mode) (mode : Value) (restores : Bool) :
      Frame.Links M way (.executing M s m restores) (.borrow M) (.execute M s mode)
  | executed (way : Route) (c : Lease) (d : Database) (s s' : Statement) (m : Access.Mode)
      (mode : Value) (restores : Bool) :
      Frame.Links M way (.executed M (some c) restores) (.run d c.handle s m) (.execute M s' mode)
  | batching (way : Route) (ss : List Statement) (m : Access.Mode) (mode : Value) (restores : Bool) :
      Frame.Links M way (.batching M ss m restores) (.borrow M) (.executeAll M ss mode)
  | batched (way : Route) (c : Lease) (d : Database) (s : Statement) (rest ss : List Statement)
      (m : Access.Mode) (mode : Value) (done : List Access.Answer) (restores : Bool) :
      Frame.Links M way (.batched M (some c) rest m done restores) (.run d c.handle s m)
        (.executeAll M ss mode)
  | blockEntered (way : Route) (hold fail : Bool) :
      Frame.Links M way (.blockEntered M hold fail) (.borrow M) (.block M hold fail)
  | poolShut (p : Nat) (d : Database) :
      Frame.Links M (.pool p d) (.poolShut M) (.closePool p) (.shutDown M)
  | lockedToClose : Frame.Links M .single (.lockedToClose M) (.lock M) (.shutDown M)
  | singleClosed (h : Handle) : Frame.Links M .single (.singleClosed M) (.hangUp h) (.shutDown M)
  | withinLeft (way : Route) (fail : Bool) :
      Frame.Links M way (.withinLeft fail) (.shutDown M) (.within M fail)

/-- The frame is what is left of the call, which has paused. -/
inductive Frame.Rests (M : Nat) : Route → {t : Shape} → Frame .unit t → Wait → Call t → Prop
  | turn (p : Nat) (d : Database) (timer : Option Nat) :
      Frame.Rests M (.pool p d) (.inLine p) (.turn p timer) (.acquire p)
  | givenUp (p : Nat) (d : Database) : Frame.Rests M (.pool p d) (.inLine p) (.givenUp p) (.acquire p)
  | sleep (p : Nat) (d : Database) (i : Float) (timer : Nat) :
      Frame.Rests M (.pool p d) (.rested p i) (.sleep timer) (.reap p)
  | task (p : Nat) (d : Database) (r : Nat) :
      Frame.Rests M (.pool p d) (.reaperEnded p) (.task r) (.closePool p)
  | tasks (p : Nat) (d : Database) (ts : List Nat) (b : Bool) :
      Frame.Rests M (.pool p d) (.backgroundEnded p) (.tasks ts b) (.closePool p)
  | dialled (p : Nat) (d : Database) (fault : Option Fault) :
      Frame.Rests M (.pool p d) (.dialled fault) .held (.dial d)
  | sent (way : Route) (r : Engine.Rule) (h : Handle) (s : Statement) :
      Frame.Rests M way (.sent r) .held (.send h s)
  | asked (way : Route) (fault : Option Fault) (h : Handle) :
      Frame.Rests M way (.askedClose fault) .held (.hangUp h)
  | letIn : Frame.Rests M .single (.letIn M) (.lock M) (.lock M)
  | blockHeld (way : Route) (lease : Option Lease) (hold fail : Bool) :
      Frame.Rests M way (.blockHeld M lease fail) .held (.block M hold fail)

inductive Frame.PartOf (M : Nat) (way : Route) : {s t : Shape} → Frame s t → Call t → Prop
  | start {t : Shape} {d : Call t} : d.Served M way → Frame.PartOf M way (.start d) d
  | called {s t : Shape} {f : Frame s t} {c : Call s} {d : Call t} :
      f.Links M way c d → Frame.PartOf M way f d
  | paused {t : Shape} {f : Frame .unit t} {w : Wait} {d : Call t} :
      f.Rests M way w d → Frame.PartOf M way f d

inductive Stack.Bears (M : Nat) (way : Route) : {s : Shape} → Stack s → Call s → Prop
  | done {s : Shape} {c : Call s} : c.Served M way → Stack.Bears M way (.done s) c
  | push {s t : Shape} {f : Frame s t} {k : Stack t} {c : Call s} {d : Call t} :
      f.Links M way c d → k.Bears M way d → Stack.Bears M way (.push f k) c

inductive Stack.Chained (M : Nat) (way : Route) : {s : Shape} → Stack s → Prop
  | done (s : Shape) : Stack.Chained M way (.done s)
  | push {s t : Shape} {f : Frame s t} {k : Stack t} {d : Call t} :
      f.PartOf M way d → k.Bears M way d → Stack.Chained M way (.push f k)

inductive Status.Chained (M : Nat) (way : Route) : Status → Prop
  | made {s : Shape} {c : Call s} : c.Served M way →
      Status.Chained M way (.ready none (.push (.start c) (.done s)))
  | ready {t : Shape} (signal : Option Failure) {f : Frame .unit t} {k : Stack t} {w : Wait} {d : Call t} :
      f.Rests M way w d → k.Bears M way d → Status.Chained M way (.ready signal (.push f k))
  | paused {t : Shape} {f : Frame .unit t} {k : Stack t} {w : Wait} {d : Call t} :
      f.Rests M way w d → k.Bears M way d → Status.Chained M way (.paused w (.push f k))
  | running : Status.Chained M way .running
  | finished {s : Shape} (o : Outcome s) : Status.Chained M way (.finished s o)

def Running.Chained (M : Nat) (way : Route) (r : Running) : Prop :=
  match r.control with
  | .call c => r.stack.Bears M way c
  | .give _ => r.stack.Chained M way

inductive Work.PartOf (M : Nat) (way : Route) {u : Shape} : Work u → Call u → Prop
  | call (c : Call u) : Work.PartOf M way (.call c) c
  | back {s : Shape} {f : Frame s u} {d : Call u} (o : Outcome s) :
      f.PartOf M way d → Work.PartOf M way (.back f o) d

inductive Next.Continues (M : Nat) (way : Route) : {u : Shape} → Next u → Call u → Prop
  | give {u : Shape} (o : Outcome u) (d : Call u) : Next.Continues M way (.give o) d
  | call {t u : Shape} {c : Call t} {f : Frame t u} {d : Call u} :
      f.Links M way c d → Next.Continues M way (.call c f) d
  | jump {u : Shape} (d : Call u) : Next.Continues M way (.jump d) d
  | late (p id : Nat) : Next.Continues M way (.jump (.destroy p id)) (.openBackground p)
  | pause {u : Shape} {f : Frame .unit u} {w : Wait} {d : Call u} :
      f.Rests M way w d → Next.Continues M way (.pause w f) d
  | again {u : Shape} {f : Frame .unit u} {w : Wait} {d : Call u} :
      f.Rests M way w d → Next.Continues M way (.again f) d

structure Tended (M : Nat) (way : Route) (l : State) : Prop where
  running : ∀ r, l.running = some r →
    r.Chained M way ∧ ∃ k, l.tasks[r.task]? = some k ∧ k.status = .running
  tasks : ∀ (i : Nat) (k : Task), l.tasks[i]? = some k → k.status.Chained M way

end SqliteAccess.Loop
