import SqliteAccess.Proofs.Access.Chain

/-!
What one step of a manager, or of the database under it, does: most steps only pass control on. Those
of the lock and of the pool, and those that give a connection back, are told of apart.
-/

namespace SqliteAccess.Loop

open Pool (Handle Lease)
open Access (Database Answer)
open Sql (Statement)

/-- A step of a manager that only passes control on, with the number of handles that the engine has
given out before and after it. -/
inductive Deed (M : Nat) (O : Nat) : Route → {u : Shape} → Work u → Nat → Next u → Prop
  | starts (way : Route) {u : Shape} (c : Call u) :
      Deed M O way (.back (.start c) (.ok ())) O (.jump c)
  | neverStarts (way : Route) {u : Shape} (c : Call u) (e : Failure) :
      Deed M O way (.back (.start c) (.error e)) O (.give (.error e))
  -- opening
  | connects (p : Nat) (d : Database) : Deed M O (.pool p d) (.call (.connect d true)) O
      (.call (.dial d) (.connected d true))
  | dialWaits (p : Nat) (d : Database) (fault : Option Fault) :
      Deed M O (.pool p d) (.call (.dial d)) O (.pause .held (.dialled fault))
  | dials (p : Nat) (d : Database) :
      Deed M O (.pool p d) (.call (.dial d)) (O + 1) (.give (.ok (.numbered (O + 1))))
  | dialFails (p : Nat) (d : Database) (e : Failure) :
      Deed M O (.pool p d) (.call (.dial d)) O (.give (.error e))
  | dialEnds (p : Nat) (d : Database) (fault : Option Fault) :
      Deed M O (.pool p d) (.back (.dialled fault) (.ok ())) (O + 1) (.give (.ok (.numbered (O + 1))))
  | dialledFails (p : Nat) (d : Database) (fault : Option Fault) (o : Outcome .unit) (e : Failure) :
      Deed M O (.pool p d) (.back (.dialled fault) o) O (.give (.error e))
  | connectFails (p : Nat) (d : Database) (e e' : Failure) :
      Deed M O (.pool p d) (.back (.connected d true) (.error e)) O (.give (.error e'))
  | setsForeignKeys (p : Nat) (d : Database) (h : Handle) :
      Deed M O (.pool p d) (.back (.connected d true) (.ok h)) O
        (.call (.send h ⟨Sql.foreignKeysPragma, []⟩) (.foreignKeysSet d h true))
  | setsJournal (p : Nat) (d : Database) (h : Handle) (c : Access.Cursor) :
      Deed M O (.pool p d) (.back (.foreignKeysSet d h true) (.ok c)) O
        (.call (.send h ⟨Sql.journalPragma, []⟩) (.journalSet d h))
  | foreignKeysFail (p : Nat) (d : Database) (h : Handle) (e : Failure) :
      Deed M O (.pool p d) (.back (.foreignKeysSet d h true) (.error e)) O (.give (.error e))
  | connectEnds (p : Nat) (d : Database) (h : Handle) (c : Access.Cursor) :
      Deed M O (.pool p d) (.back (.journalSet d h) (.ok c)) O (.give (.ok h))
  | journalFails (p : Nat) (d : Database) (h : Handle) (e : Failure) :
      Deed M O (.pool p d) (.back (.journalSet d h) (.error e)) O (.give (.error e))
  -- statements
  | runs (way : Route) (d : Database) (h : Handle) (s : Statement) (m : Access.Mode) (start : Float) :
      Deed M O way (.call (.run d h s m)) O (.call (.send h s) (.ran d s.sql m start))
  | ran (way : Route) (d : Database) (sql : String) (m : Access.Mode) (start : Float)
      (o : Outcome .cursor) (o' : Outcome .answer) :
      Deed M O way (.back (.ran d sql m start) o) O (.give o')
  | sendWaits (way : Route) (h : Handle) (s : Statement) (r : Engine.Rule) :
      Deed M O way (.call (.send h s)) O (.pause .held (.sent r))
  | sendEnds (way : Route) (h : Handle) (s : Statement) (o : Outcome .cursor) :
      Deed M O way (.call (.send h s)) O (.give o)
  | sentEnds (way : Route) (r : Engine.Rule) (o : Outcome .unit) (o' : Outcome .cursor) :
      Deed M O way (.back (.sent r) o) O (.give o')
  | hangUpWaits (way : Route) (h : Handle) (fault : Option Fault) :
      Deed M O way (.call (.hangUp h)) O (.pause .held (.askedClose fault))
  | hangsUp (way : Route) (h : Handle) (o : Outcome .unit) : Deed M O way (.call (.hangUp h)) O (.give o)
  | hungUp (way : Route) (fault : Option Fault) (o o' : Outcome .unit) :
      Deed M O way (.back (.askedClose fault) o) O (.give o')
  -- calls of clients
  | executes (way : Route) (s : Statement) (m : Access.Mode) (mode : Value) (restores : Bool) :
      Deed M O way (.call (.execute M s mode)) O (.call (.borrow M) (.executing M s m restores))
  | executeEnds (way : Route) (s : Statement) (mode : Value) (o : Outcome .reply) :
      Deed M O way (.call (.execute M s mode)) O (.give o)
  | batches (way : Route) (ss : List Statement) (m : Access.Mode) (mode : Value) (restores : Bool) :
      Deed M O way (.call (.executeAll M ss mode)) O (.call (.borrow M) (.batching M ss m restores))
  | batchEnds (way : Route) (ss : List Statement) (mode : Value) (o : Outcome .answers) :
      Deed M O way (.call (.executeAll M ss mode)) O (.give o)
  | blocks (way : Route) (hold fail : Bool) :
      Deed M O way (.call (.block M hold fail)) O (.call (.borrow M) (.blockEntered M hold fail))
  | leaves (way : Route) (fail : Bool) :
      Deed M O way (.call (.within M fail)) O (.call (.shutDown M) (.withinLeft fail))
  | left (way : Route) (fail : Bool) (o : Outcome .unit) (o' : Outcome .flag) :
      Deed M O way (.back (.withinLeft fail) o) O (.give o')
  | borrowsPooled (p : Nat) (d : Database) :
      Deed M O (.pool p d) (.call (.borrow M)) O (.call (.acquire p) .leased)
  | borrowsSingle : Deed M O .single (.call (.borrow M)) O (.call (.lock M) (.lockedToUse M))
  | borrowsNone : Deed M O .single (.call (.borrow M)) O (.give (.ok none))
  -- with a connection
  | executingFails (way : Route) (s : Statement) (m : Access.Mode) (restores : Bool) (e : Failure) :
      Deed M O way (.back (.executing M s m restores) (.error e)) O (.give (.error e))
  | executingRuns (way : Route) (c : Lease) (d : Database) (s : Statement) (m : Access.Mode)
      (restores : Bool) :
      Deed M O way (.back (.executing M s m restores) (.ok (some c))) O
        (.call (.run d c.handle s m) (.executed M (some c) restores))
  | batchingFails (way : Route) (ss : List Statement) (m : Access.Mode) (restores : Bool) (e : Failure) :
      Deed M O way (.back (.batching M ss m restores) (.error e)) O (.give (.error e))
  | batchingRuns (way : Route) (c : Lease) (d : Database) (s : Statement) (rest : List Statement)
      (m : Access.Mode) (restores : Bool) :
      Deed M O way (.back (.batching M (s :: rest) m restores) (.ok (some c))) O
        (.call (.run d c.handle s m) (.batched M (some c) rest m [] restores))
  | batchedRuns (way : Route) (c : Lease) (d : Database) (s : Statement) (rest : List Statement)
      (m : Access.Mode) (done : List Answer) (a : Answer) (restores : Bool) :
      Deed M O way (.back (.batched M (some c) (s :: rest) m done restores) (.ok a)) O
        (.call (.run d c.handle s m) (.batched M (some c) rest m (done ++ [a]) restores))
  | blockFails (way : Route) (hold fail : Bool) (e : Failure) :
      Deed M O way (.back (.blockEntered M hold fail) (.error e)) O (.give (.error e))
  | blockHolds (way : Route) (lease : Option Lease) (hold fail : Bool) :
      Deed M O way (.back (.blockEntered M hold fail) (.ok lease)) O
        (.pause .held (.blockHeld M lease fail))
  -- shutting down
  | shutsPool (p : Nat) (d : Database) :
      Deed M O (.pool p d) (.call (.shutDown M)) O (.call (.closePool p) (.poolShut M))
  | poolShut (p : Nat) (d : Database) (o o' : Outcome .unit) :
      Deed M O (.pool p d) (.back (.poolShut M) o) O (.give o')
  | shutsSingle : Deed M O .single (.call (.shutDown M)) O (.call (.lock M) (.lockedToClose M))
  | shutsNothing (o : Outcome .unit) : Deed M O .single (.call (.shutDown M)) O (.give o)

inductive Work.Returns (M : Nat) : {u : Shape} → Work u → Option Lease → Prop
  | executing (s : Statement) (m : Access.Mode) (restores : Bool) (lease : Option Lease) :
      Work.Returns M (.back (.executing M s m restores) (.ok lease)) lease
  | executed (lease : Option Lease) (restores : Bool) (o : Outcome .answer) :
      Work.Returns M (.back (.executed M lease restores) o) lease
  | batching (ss : List Statement) (m : Access.Mode) (restores : Bool) (lease : Option Lease) :
      Work.Returns M (.back (.batching M ss m restores) (.ok lease)) lease
  | batched (lease : Option Lease) (rest : List Statement) (m : Access.Mode) (done : List Answer)
      (restores : Bool) (o : Outcome .answer) :
      Work.Returns M (.back (.batched M lease rest m done restores) o) lease
  | blockEntered (hold fail : Bool) (lease : Option Lease) :
      Work.Returns M (.back (.blockEntered M hold fail) (.ok lease)) lease
  | blockHeld (lease : Option Lease) (fail : Bool) (o : Outcome .unit) :
      Work.Returns M (.back (.blockHeld M lease fail) o) lease

structure Task.Same (k k' : Task) : Prop where
  status : k'.status = k.status
  flag : k'.cancelRequested = k.cancelRequested
  followers : k'.followers = k.followers

structure Still (M : Nat) (l m : State) : Prop where
  tasks : List.Forall₂ Task.Same l.tasks m.tasks
  running : m.running = l.running
  pools : m.pools = l.pools
  next : m.nextConnection = l.nextConnection
  standalone : m.standalone = l.standalone
  managers : ∃ f : Access.Manager → Access.Manager, m.managers = l.managers.modify M f ∧
    ∀ k, (f k).pool = k.pool ∧ (f k).single = k.single ∧ (f k).lock = k.lock

def State.Takes (M : Nat) (l : State) : Route → Prop
  | .pool p d => (∃ k, l.manager? M = some k ∧ k.pool = some p ∧ k.single = none) ∧
      ∃ s, l.pool? p = some s ∧ s.source = .database d
  | .single => ∃ k, l.manager? M = some k ∧ k.pool = none

namespace Still

variable {M : Nat} {l m n : State}

theorem of (ht : m.tasks = l.tasks) (hr : m.running = l.running) (hp : m.pools = l.pools)
    (hn : m.nextConnection = l.nextConnection) (hs : m.standalone = l.standalone)
    (hm : m.managers = l.managers) : Still M l m := by
  refine ⟨?_, hr, hp, hn, hs, id, ?_, fun _ => ⟨rfl, rfl, rfl⟩⟩
  · rw [ht]
    exact List.forall₂_same.mpr fun _ _ => ⟨rfl, rfl, rfl⟩
  · rw [hm, List.modify_id]

theorem refl (l : State) : Still M l l := .of rfl rfl rfl rfl rfl rfl

theorem trans (h : Still M l m) (h' : Still M m n) : Still M l n := by
  obtain ⟨f, hf, hk⟩ := h.managers
  obtain ⟨g, hg, hk'⟩ := h'.managers
  refine ⟨?_, h'.running.trans h.running, h'.pools.trans h.pools, h'.next.trans h.next,
    h'.standalone.trans h.standalone, g ∘ f, ?_, fun k => ?_⟩
  · refine List.forall₂_iff_get.mpr ⟨h.tasks.length_eq.trans h'.tasks.length_eq, fun i hi hi' => ?_⟩
    have hm : i < m.tasks.length := h.tasks.length_eq ▸ hi
    obtain ⟨hs, hf, hfo⟩ := h.tasks.get hi hm
    obtain ⟨hs', hf', hfo'⟩ := h'.tasks.get hm hi'
    exact ⟨hs'.trans hs, hf'.trans hf, hfo'.trans hfo⟩
  · rw [hg, hf, List.modify_modify_eq]
  · obtain ⟨hp, hs, hl⟩ := hk k
    obtain ⟨hp', hs', hl'⟩ := hk' (f k)
    exact ⟨hp'.trans hp, hs'.trans hs, hl'.trans hl⟩

theorem report (h : Still M l m) (r : Log.Record) : Still M l (m.report r) := by
  unfold State.report
  split
  · exact h.trans (.of rfl rfl rfl rfl rfl rfl)
  · exact h

theorem setContext (h : Still M l m) (c : Option Log.CorrelationId) : Still M l (m.setContext c) := by
  unfold State.setContext
  split
  · exact h.trans (.of rfl rfl rfl rfl rfl rfl)
  next t _ =>
    refine h.trans ⟨?_, rfl, rfl, rfl, rfl, id, (List.modify_id ..).symm, fun _ => ⟨rfl, rfl, rfl⟩⟩
    refine List.forall₂_iff_get.mpr ⟨by simp [State.modifyTask], fun i hi hi' => ?_⟩
    simp only [State.modifyTask, List.get_eq_getElem, List.getElem_modify]
    split
    · exact ⟨rfl, rfl, rfl⟩
    · exact ⟨rfl, rfl, rfl⟩

theorem enterScope (h : Still M l m) : Still M l m.enterScope.1 := by
  have hf : Still M l { m with fresh := (Log.Scope.enter m.context none m.fresh).2 } :=
    h.trans (.of rfl rfl rfl rfl rfl rfl)
  exact hf.setContext _

theorem leaveScope (h : Still M l m) (restores : Bool) : Still M l (m.leaveScope restores) := by
  unfold State.leaveScope
  split
  · exact h.setContext none
  · exact h

end Still

end SqliteAccess.Loop
