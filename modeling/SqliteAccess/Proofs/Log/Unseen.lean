import SqliteAccess.Proofs.Log.Masking

/-!
What statements are run with is not seen by any step. Each operation gives the same on the masked loop, masked;
where a step makes statements of its own, the two agree once these are masked as well.
-/

namespace SqliteAccess.Loop

open SqliteAccess.Pool (Handle Lease)
open Access (Database)
open Sql (Statement)

namespace State

variable {l : State} {p t M : Nat} {u : Shape}

theorem masked_standInLine (l : State) (p : Nat) (s : Pool.State) :
    l.masked.standInLine p s = maskedBoth (l.standInLine p s) := by
  simp only [standInLine, masked_currentTask, masked_modifyPool, masked_grow]
  obtain ⟨m, e | _⟩ := (l.modifyPool p fun s => s.enqueue l.currentTask).grow p
  · rfl
  · simp only [Prod.map_apply, id]
    split
    · rfl
    · rfl
    · split <;> rfl

theorem masked_acquire (l : State) (p : Nat) : l.masked.acquire p = maskedBoth (l.acquire p) := by
  simp only [acquire, masked_pool?, masked_startPool]
  split
  · rfl
  next s _ =>
    split
    · rfl
    · split
      · rfl
      · split
        · rfl
        · exact masked_standInLine _ p s

theorem masked_opened (l : State) (p : Nat) (o : Outcome .lease) :
    l.masked.opened p o = maskedBoth (l.opened p o) := by
  simp only [opened, masked_growThen, masked_ensureMinimum]
  cases o with
  | error e => rfl
  | ok c => obtain ⟨m, e | _⟩ := l.ensureMinimum p <;> rfl

theorem masked_openSlot (l : State) (p : Nat) : l.masked.openSlot p = maskedBoth (l.openSlot p) := by
  simp only [openSlot, masked_pool?]
  split
  · rfl
  · split <;> rfl

theorem masked_registering (l : State) (p : Nat) (o : Outcome .handle) :
    l.masked.registering p o = maskedBoth (l.registering p o) := by
  cases o with
  | error e => rfl
  | ok h =>
    simp only [registering]
    split
    next hn =>
      split
      · rfl
      next hs => cases hn.symm.trans hs
    next s hs =>
      split
      next hn => cases hs.symm.trans hn
      next s' hs' =>
        cases hs.symm.trans hs'
        exact report_both (by rfl) (by rfl) _

theorem masked_inLine (l : State) (p : Nat) (o : Outcome .unit) :
    l.masked.inLine p o = maskedBoth (l.inLine p o) := by
  simp only [inLine, masked_currentTask, masked_pool?, masked_modifyPool, masked_checkin]
  split
  · rfl
  · rfl
  · split <;> rfl

theorem masked_openedBackground (l : State) (p : Nat) (o : Outcome .lease) :
    l.masked.openedBackground p o = maskedBoth (l.openedBackground p o) := by
  simp only [openedBackground, masked_modifyPool, masked_pool?, masked_report, masked_failLongestWaiting,
    masked_growThen, masked_checkin]
  split
  · split <;> rfl
  · split
    · split <;> rfl
    · rfl

theorem masked_destroy (l : State) (p i : Nat) : l.masked.destroy p i = maskedBoth (l.destroy p i) := by
  have closing : ∀ (s : Pool.State) h, (closeHandle s h).masked = closeHandle s h := by
    intro s h
    unfold closeHandle
    split <;> rfl
  simp only [destroy, masked_pool?, masked_modifyPool]
  split
  · rfl
  · split
    · rfl
    · simp only [Prod.map_apply, Next.masked, closing]
      rfl

theorem masked_endEviction (l : State) (k : Nat) : l.masked.endEviction k = maskedBoth (l.endEviction k) := by
  simp only [endEviction, masked_report]
  split <;> rfl

theorem masked_evictFrom (l : State) (p : Nat) (s : Pool.State) (k : Nat) (ids : List Nat) :
    l.masked.evictFrom p s k ids = maskedBoth (l.evictFrom p s k ids) := by
  induction ids with
  | nil => exact masked_endEviction l k
  | cons i ids ih =>
    simp only [evictFrom, masked_endEviction, ih]
    split
    · split <;> rfl
    · rfl

theorem masked_evict (l : State) (p : Nat) : l.masked.evict p = maskedBoth (l.evict p) := by
  simp only [evict, masked_pool?, masked_clock, masked_evictFrom]
  split
  · rfl
  · split <;> rfl

theorem masked_evicting (l : State) (p : Nat) (rest : List Nat) (k : Nat) (o : Outcome .unit) :
    l.masked.evicting p rest k o = maskedBoth (l.evicting p rest k o) := by
  simp only [evicting, masked_pool?, masked_evictFrom]
  split <;> rfl

theorem masked_sleep (l : State) (d : Float) (p : Nat) (interval : Float) :
    l.masked.sleep d (.rested p interval) = maskedBoth (l.sleep d (.rested p interval)) := by
  simp only [sleep, masked_currentTask, masked_addTimer]
  split <;> rfl

theorem masked_reap (l : State) (p : Nat) : l.masked.reap p = maskedBoth (l.reap p) := by
  simp only [reap, masked_pool?, masked_sleep]
  split
  · rfl
  · split <;> rfl

theorem masked_swept (l : State) (p : Nat) (i : Float) (o : Outcome .count) :
    l.masked.swept p i o = maskedBoth (l.swept p i o) := by
  have goOn : ∀ l : State, l.masked.swept p i (.ok 0) = maskedBoth (l.swept p i (.ok 0)) := by
    intro l
    simp only [swept, masked_ensureMinimum]
    obtain ⟨m, e | _⟩ := l.ensureMinimum p
    · rfl
    · exact masked_sleep m i p i
  cases o with
  | ok k => exact goOn l
  | error e =>
    cases e with
    | cancelled => rfl
    | _ =>
      have h := goOn (l.report (poolRecord Log.error "Idle eviction failed"))
      rw [← masked_report] at h
      exact h

theorem masked_endClose (l : State) (p : Nat) : l.masked.endClose p = maskedBoth (l.endClose p) := by
  simp only [endClose, masked_pool?, masked_report]
  rfl

theorem masked_awaitTasks (l : State) (ts : List Nat) (p : Nat) :
    l.masked.awaitTasks ts (.backgroundEnded p) = maskedBoth (l.awaitTasks ts (.backgroundEnded p)) := by
  simp only [awaitTasks, masked_currentTask]
  refine congrArg (·, _) (masked_foldl (fun l k => ?_) l ts)
  rw [masked_isFinished]
  split
  · rfl
  · exact masked_modifyTask (by exact fun _ => rfl) l k

theorem masked_drainFrom (l : State) (p : Nat) (ids : List Nat) :
    l.masked.drainFrom p ids = maskedBoth (l.drainFrom p ids) := by
  cases ids with
  | cons i ids => rfl
  | nil =>
    simp only [drainFrom, masked_pool?, masked_endClose, masked_awaitTasks]
    split
    · rfl
    · split <;> rfl

theorem masked_clearLine (l : State) (p : Nat) : l.masked.clearLine p = maskedBoth (l.clearLine p) := by
  simp only [clearLine, masked_pool?, masked_modifyPool]
  split
  · rfl
  · rw [masked_foldl (fun l t => masked_wakeInLine l t _), masked_drainFrom]

theorem masked_reaperEnded (l : State) (p : Nat) (o : Outcome .unit) :
    l.masked.reaperEnded p o = maskedBoth (l.reaperEnded p o) := by
  simp only [reaperEnded, masked_clearLine]
  split
  · rfl
  · split <;> rfl

theorem masked_closePool (l : State) (p : Nat) : l.masked.closePool p = maskedBoth (l.closePool p) := by
  simp only [closePool, masked_pool?, masked_modifyPool, masked_reaperEnded, masked_cancel, masked_isFinished,
    masked_endOf, masked_currentTask]
  split
  · rfl
  · split
    · rfl
    · split
      · rfl
      · split
        · rfl
        · exact congrArg (·, _) (masked_modifyTask (by exact fun _ => rfl) _ _)

theorem masked_askOpen (l : State) : l.masked.askOpen = maskedBoth l.askOpen := by
  simp only [askOpen, masked_opener, masked_currentTask]
  split <;> rfl

theorem masked_askClose (l : State) (h : Handle) : l.masked.askClose h = maskedBoth (l.askClose h) := by
  simp only [askClose, masked_opener, masked_currentTask]
  split <;> rfl

theorem masked_endDial {m : State} (h : m = l.masked) (fault : Option Fault) :
    m.endDial fault = maskedBoth (l.endDial fault) := by
  subst h
  unfold endDial
  split <;> rfl

theorem masked_dial (l : State) (d : Database) : l.masked.dial d = maskedBoth (l.dial d) := by
  have hr : l.masked.engine.record (.open d.location.filename d.timeout) =
      (l.engine.record (.open d.location.filename d.timeout)).masked :=
    Engine.State.masked_record l.engine (.open d.location.filename d.timeout)
  simp only [dial, hr, Engine.State.masked_nextOpening, masked_currentTask, Prod.map_fst, Prod.map_snd, id]
  split
  · rfl
  · exact masked_endDial (by rfl) _

theorem masked_send (l : State) (h : Handle) (s : Statement) :
    l.masked.send h s.masked = maskedBoth (l.send h s) := by
  have hr : l.masked.engine.record (.execute h s.masked.sql s.masked.params) =
      (l.engine.record (.execute h s.sql s.params)).masked :=
    Engine.State.masked_record l.engine (.execute h s.sql s.params)
  have hs : s.masked.sql = s.sql := rfl
  simp only [send, hr]
  simp only [hs, Engine.State.masked_nextRule, masked_currentTask, Prod.map_fst, Prod.map_snd, id]
  split <;> rfl

theorem masked_hangUp (l : State) (h : Handle) : l.masked.hangUp h = maskedBoth (l.hangUp h) := by
  have hr : l.masked.engine.record (.close h) = (l.engine.record (.close h)).masked :=
    Engine.State.masked_record l.engine (.close h)
  simp only [hangUp, hr, Engine.State.masked_nextClosing, masked_currentTask, Prod.map_fst, Prod.map_snd, id]
  split <;> rfl

@[simp] theorem masked_endConnect (l : State) (d : Database) (h : Handle) :
    l.masked.endConnect d h = maskedBoth (l.endConnect d h) := by
  simp only [endConnect, masked_report]
  rfl

theorem masked_lock (l : State) (M : Nat) : l.masked.lock M = maskedBoth (l.lock M) := by
  simp only [lock, masked_manager?, masked_modifyManager, masked_currentTask]
  split
  · rfl
  · split <;> rfl

@[simp] theorem masked_setLock (l : State) (M : Nat) (f : Access.Lock → Access.Lock × Option Nat) :
    l.masked.setLock M f = (l.setLock M f).masked := by
  simp only [setLock, masked_manager?, masked_modifyManager]
  split
  · rfl
  · split
    · exact masked_wake _ _ _
    · rfl

theorem masked_letIn (l : State) (M : Nat) (o : Outcome .unit) : l.masked.letIn M o = maskedBoth (l.letIn M o) := by
  simp only [letIn, masked_currentTask, masked_modifyManager, masked_setLock]
  split <;> rfl

theorem masked_setUp (l : State) (M : Nat) (location : Option Config.Location) (reach : Access.Reach) :
    l.masked.setUp M location reach = maskedBoth (l.setUp M location reach) := by
  have use : ∀ (l : State) d s, l.masked.usePool M d s = (l.usePool M d s).masked := fun _ _ _ =>
    report_of_masked (by rfl) _
  simp only [setUp, masked_report, masked_manager?, masked_modifyManager, use]
  split
  · rfl
  · rfl
  · split
    · rfl
    · split <;> rfl

theorem masked_singleOpened (l : State) (M : Nat) (d : Database) (o : Outcome .handle) :
    l.masked.singleOpened M d o = maskedBoth (l.singleOpened M d o) := by
  cases o with
  | error e => rfl
  | ok h =>
    unfold singleOpened
    exact report_both (by rfl) (by rfl) _

theorem masked_shutSingle (l : State) (M : Nat) : l.masked.shutSingle M = maskedBoth (l.shutSingle M) := by
  simp only [shutSingle, masked_manager?, masked_modifyManager]
  split
  · rfl
  · split <;> rfl

theorem masked_lockedToClose (l : State) (M : Nat) (o : Outcome .unit) :
    l.masked.lockedToClose M o = maskedBoth (l.lockedToClose M o) := by
  simp only [lockedToClose, masked_manager?, masked_standalone?, unlock, masked_setLock]
  split
  · rfl
  · split <;> rfl

theorem masked_singleClosed (l : State) (M : Nat) (o : Outcome .unit) :
    l.masked.singleClosed M o = maskedBoth (l.singleClosed M o) := by
  simp only [singleClosed, unlock, masked_setLock, masked_modifyManager]
  split <;> rfl

theorem masked_lockedToUse (l : State) (M : Nat) (o : Outcome .unit) :
    l.masked.lockedToUse M o = maskedBoth (l.lockedToUse M o) := by
  simp only [lockedToUse, masked_manager?, masked_setStandaloneUse, masked_standalone?]
  split
  · rfl
  · split <;> rfl

theorem masked_releaseSingle (l : State) (M i : Nat) :
    l.masked.releaseSingle M i = Prod.map masked id (l.releaseSingle M i) := by
  simp only [releaseSingle, masked_standalone?, masked_manager?, masked_setStandaloneUse, unlock, masked_setLock]
  split
  · rfl
  · split
    · split <;> rfl
    · rfl

@[simp] theorem masked_giveBack (l : State) (M : Nat) (lease : Option Lease) :
    l.masked.giveBack M lease = Prod.map masked id (l.giveBack M lease) := by
  simp only [giveBack, masked_manager?, masked_release, masked_releaseSingle]
  split
  · rfl
  · split <;> rfl

@[simp] theorem masked_endBlock (l : State) (M : Nat) (lease : Option Lease) (o : Outcome u) :
    l.masked.endBlock M lease o = Prod.map masked id (l.endBlock M lease o) := by
  simp only [endBlock, masked_giveBack]
  obtain ⟨m, e | _⟩ := l.giveBack M lease <;> rfl

theorem masked_leaveBlock (l : State) (M : Nat) (lease : Option Lease) (fail : Bool) :
    l.masked.leaveBlock M lease fail = maskedBoth (l.leaveBlock M lease fail) := by
  have sees : ∀ c, l.masked.sight c = l.sight c := fun _ => rfl
  simp only [leaveBlock, masked_endBlock, funext sees]
  rfl

@[simp] theorem masked_enterScope (l : State) : l.masked.enterScope = Prod.map masked id l.enterScope := by
  simp only [enterScope, masked_context, masked_fresh]
  exact Prod.ext (masked_setContext { l with fresh := (Log.Scope.enter l.context none l.fresh).2 } _) rfl

@[simp] theorem masked_leaveScope (l : State) (restores : Bool) :
    l.masked.leaveScope restores = (l.leaveScope restores).masked := by
  simp only [leaveScope, masked_setContext]
  split <;> rfl

theorem masked_endCall (l : State) (M : Nat) (lease : Option Lease) (restores : Bool) (o : Outcome u) :
    l.masked.endCall M lease restores o = maskedBoth (l.endCall M lease restores o) := by
  simp only [endCall, masked_endBlock, Prod.map_fst, Prod.map_snd, masked_leaveScope]
  rfl

@[simp] theorem masked_target? (l : State) (M : Nat) (lease : Option Lease) :
    l.masked.target? M lease = l.target? M lease := rfl

theorem masked_execute (l : State) (M : Nat) (s : Statement) (mode : Value) :
    l.masked.execute M s.masked mode = maskedBoth (l.execute M s mode) := by
  simp only [execute, masked_manager?, masked_enterScope, masked_report]
  split
  · rfl
  · split
    · split <;> rfl
    · rfl

theorem masked_executing (l : State) (M : Nat) (s : Statement) (mode : Access.Mode) (restores : Bool)
    (o : Outcome .borrowed) :
    l.masked.executing M s.masked mode restores o = maskedBoth (l.executing M s mode restores o) := by
  simp only [executing, masked_leaveScope, masked_target?, masked_endCall]
  split
  · rfl
  · split <;> rfl

theorem masked_executeAll (l : State) (M : Nat) (ss : List Statement) (mode : Value) :
    l.masked.executeAll M (ss.map Statement.masked) mode = maskedBoth (l.executeAll M ss mode) := by
  simp only [executeAll, masked_manager?, masked_enterScope, masked_report]
  split
  · rfl
  · split
    · split <;> rfl
    · rfl

theorem masked_batchFrom (l : State) (M : Nat) (lease : Option Lease) (mode : Access.Mode)
    (done : List Access.Answer) (restores : Bool) (ss : List Statement) :
    l.masked.batchFrom M lease mode done restores (ss.map Statement.masked) =
      maskedBoth (l.batchFrom M lease mode done restores ss) := by
  cases ss with
  | nil => exact masked_endCall l M lease restores _
  | cons s rest =>
    simp only [List.map_cons, batchFrom, masked_target?, masked_endCall]
    split <;> rfl

theorem masked_batched (l : State) (M : Nat) (lease : Option Lease) (rest : List Statement) (mode : Access.Mode)
    (done : List Access.Answer) (restores : Bool) (o : Outcome .answer) :
    l.masked.batched M lease (rest.map Statement.masked) mode done restores o =
      maskedBoth (l.batched M lease rest mode done restores o) := by
  cases o with
  | error e => exact masked_endCall l M lease restores _
  | ok a => exact masked_batchFrom l M lease mode _ restores rest

theorem masked_batching (l : State) (M : Nat) (ss : List Statement) (mode : Access.Mode) (restores : Bool)
    (o : Outcome .borrowed) :
    l.masked.batching M (ss.map Statement.masked) mode restores o =
      maskedBoth (l.batching M ss mode restores o) := by
  cases o with
  | error e => exact Prod.ext (masked_leaveScope l restores) rfl
  | ok lease => exact masked_batchFrom l M lease mode [] restores ss

theorem masked_blockEntered (l : State) (M : Nat) (hold fail : Bool) (o : Outcome .borrowed) :
    l.masked.blockEntered M hold fail o = maskedBoth (l.blockEntered M hold fail o) := by
  cases o with
  | error e => rfl
  | ok lease =>
    simp only [blockEntered, masked_currentTask, masked_leaveBlock]
    split <;> rfl

theorem masked_blockHeld (l : State) (M : Nat) (lease : Option Lease) (fail : Bool) (o : Outcome .unit) :
    l.masked.blockHeld M lease fail o = maskedBoth (l.blockHeld M lease fail o) := by
  cases o with
  | error e =>
    simp only [blockHeld, masked_endBlock]
    rfl
  | ok _ => exact masked_leaveBlock l M lease fail

theorem masked_reportAll (l : State) (rs : List Log.Record) : l.masked.reportAll rs = (l.reportAll rs).masked :=
  masked_foldl masked_report l rs

theorem masked_build (l : State) (M : Nat) (w : Sql.Writer) (b : Schema.Blueprint) (changes : List Schema.Revision) :
    l.masked.build M w b changes = Prod.map masked id (l.build M w b changes) := by
  simp only [build, masked_reportAll]
  split
  · rfl
  · split
    · rfl
    · simp only [masked_report]
      rfl

theorem masked_writersRead (l : State) (M : Nat) (writers : Option Access.Answer) (o : Outcome .reply) :
    l.masked.writersRead M writers o = Prod.map masked id (l.writersRead M writers o) := by
  unfold writersRead
  split
  · rfl
  · split <;> rfl
  · rfl

theorem maskedBoth_map_id (x : State × Next u) : maskedBoth (Prod.map masked id x) = maskedBoth x :=
  Prod.ext (masked_masked x.1) rfl

end State

theorem begin_masked (l : State) {u : Shape} (c : Call u) :
    maskedBoth (begin l.masked c.masked) = maskedBoth (begin l c) := by
  suffices h : begin l.masked c.masked = maskedBoth (begin l c) ∨
      maskedBoth (begin l.masked c.masked) = maskedBoth (begin l c) from
    h.elim (fun h => by rw [h, maskedBoth_maskedBoth]) id
  cases c with
  | askOpen => exact .inl (State.masked_askOpen l)
  | askClose h => exact .inl (State.masked_askClose l h)
  | dial d => exact .inl (State.masked_dial l d)
  | send h s => exact .inl (State.masked_send l h s)
  | hangUp h => exact .inl (State.masked_hangUp l h)
  | connect d wal => exact .inl rfl
  | run d h s m =>
    refine .inl ?_
    simp only [begin, Call.masked, State.run, State.masked_report, Statement.masked, Log.redact_redact]
    rfl
  | acquire p => exact .inl (State.masked_acquire l p)
  | openSlot p => exact .inl (State.masked_openSlot l p)
  | openBackground p => exact .inl rfl
  | destroy p id => exact .inl (State.masked_destroy l p id)
  | evict p => exact .inl (State.masked_evict l p)
  | reap p => exact .inl (State.masked_reap l p)
  | closePool p => exact .inl (State.masked_closePool l p)
  | lock M => exact .inl (State.masked_lock l M)
  | setUp M location reach => exact .inl (State.masked_setUp l M location reach)
  | shutDown M =>
    refine .inl ?_
    simp only [begin, Call.masked, State.shutDown, State.masked_manager?, State.masked_shutSingle]
    split <;> rfl
  | borrow M =>
    refine .inl ?_
    simp only [begin, Call.masked, State.borrow, State.masked_manager?]
    split <;> rfl
  | execute M s mode => exact .inl (State.masked_execute l M s mode)
  | executeAll M ss mode => exact .inl (State.masked_executeAll l M ss mode)
  | block M hold fail => exact .inl rfl
  | within M fail => exact .inl rfl
  | build M w b changes =>
    exact .inr ((congrArg _ (State.masked_build l M w b changes)).trans (State.maskedBoth_map_id _))
  | hasTable M table => exact .inr (State.maskedBoth_map_id (l.hasTable M table))
  | bootstrap url =>
    refine .inl ?_
    simp only [begin, Call.masked, State.bootstrap]
    split <;> rfl
  | seed M =>
    refine .inr ?_
    simp only [begin, Call.masked, State.seed]
    split <;> exact State.maskedBoth_map_id (l, _)
  | fetch M => exact .inr (State.maskedBoth_map_id (l.fetch M))
  | reset M => exact .inr (State.maskedBoth_map_id (l.reset M))
  | demonstrate url => exact .inl rfl

theorem resume_masked (l : State) {s u : Shape} (f : Frame s u) (o : Outcome s) :
    maskedBoth (resume l.masked f.masked o) = maskedBoth (resume l f o) := by
  suffices h : resume l.masked f.masked o = maskedBoth (resume l f o) ∨
      maskedBoth (resume l.masked f.masked o) = maskedBoth (resume l f o) from
    h.elim (fun h => by rw [h, maskedBoth_maskedBoth]) id
  cases f with
  | start c => cases o <;> exact .inl rfl
  | askedOpen n => exact .inl rfl
  | askedClose fault => cases o <;> exact .inl rfl
  | dialled fault =>
    cases o with
    | error e => exact .inl rfl
    | ok _ => exact .inl (State.masked_endDial rfl fault)
  | sent r => cases o <;> exact .inl rfl
  | connected d wal => cases o <;> exact .inl rfl
  | foreignKeysSet d h wal =>
    cases o with
    | error e => exact .inl rfl
    | ok _ =>
      simp only [resume, Frame.masked, State.foreignKeysSet, State.masked_endConnect]
      split <;> exact .inl rfl
  | journalSet d h =>
    cases o with
    | error e => exact .inl rfl
    | ok _ => exact .inl (State.masked_endConnect l d h)
  | ran d sql m start =>
    refine .inl ?_
    simp only [resume, Frame.masked, State.ran, State.masked_clock, State.masked_report]
    cases o <;> rfl
  | opened p => exact .inl (State.masked_opened l p o)
  | registering p => exact .inl (State.masked_registering l p o)
  | inLine p => exact .inl (State.masked_inLine l p o)
  | openedBackground p => exact .inl (State.masked_openedBackground l p o)
  | destroyed p id =>
    refine .inl ?_
    simp only [resume, Frame.masked, State.destroyed, State.masked_report, State.masked_growThen]
  | evicting p rest k => exact .inl (State.masked_evicting l p rest k o)
  | rested p i => cases o <;> exact .inl rfl
  | swept p i => exact .inl (State.masked_swept l p i o)
  | reaperEnded p => exact .inl (State.masked_reaperEnded l p o)
  | draining p rest =>
    cases o with
    | error e => exact .inl rfl
    | ok _ => exact .inl (State.masked_drainFrom l p rest)
  | backgroundEnded p =>
    cases o with
    | error e => exact .inl rfl
    | ok _ => exact .inl (State.masked_endClose l p)
  | letIn M => exact .inl (State.masked_letIn l M o)
  | singleOpened M d => exact .inl (State.masked_singleOpened l M d o)
  | poolShut M =>
    cases o with
    | error e => exact .inl rfl
    | ok _ => exact .inl (State.masked_shutSingle l M)
  | lockedToClose M => exact .inl (State.masked_lockedToClose l M o)
  | singleClosed M => exact .inl (State.masked_singleClosed l M o)
  | leased => exact .inl rfl
  | lockedToUse M => exact .inl (State.masked_lockedToUse l M o)
  | executing M s mode restores => exact .inl (State.masked_executing l M s mode restores o)
  | executed M lease restores => exact .inl (State.masked_endCall l M lease restores _)
  | batching M ss mode restores => exact .inl (State.masked_batching l M ss mode restores o)
  | batched M lease rest mode done restores => exact .inl (State.masked_batched l M lease rest mode done restores o)
  | blockEntered M hold fail => exact .inl (State.masked_blockEntered l M hold fail o)
  | blockHeld M lease fail => exact .inl (State.masked_blockHeld l M lease fail o)
  | withinLeft fail => cases o <;> exact .inl rfl
  | built ss => exact .inl rfl
  | sought => exact .inl rfl
  | started M => cases o <;> exact .inl rfl
  | tableKnown M =>
    cases o with
    | error e => exact .inl rfl
    | ok found => cases found <;> exact .inl rfl
  | writersMade M => cases o <;> exact .inl rfl
  | booksMade M => exact .inl rfl
  | writersWritten M =>
    cases o with
    | error e => exact .inl rfl
    | ok writers => exact .inr (State.maskedBoth_map_id (l.writersWritten M (.ok writers)))
  | writersRead M writers =>
    exact .inr ((congrArg _ (State.masked_writersRead l M writers o)).trans (State.maskedBoth_map_id _))
  | booksWritten writers =>
    refine .inl ?_
    simp only [resume, Frame.masked, State.booksWritten]
    split
    · rfl
    · split <;> rfl
  | emptied => exact .inl rfl
  | demoStarted => cases o <;> exact .inl rfl
  | demoEmptied M => cases o <;> exact .inl rfl
  | demoSeeded M => cases o <;> exact .inl rfl
  | demoFetched M => exact .inl rfl
  | demoEnded result => cases o <;> exact .inl rfl

end SqliteAccess.Loop
