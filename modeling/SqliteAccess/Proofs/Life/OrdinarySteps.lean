import SqliteAccess.Proofs.Life.Unmoved

/-!
Every step of a call but a few is mild: it leaves alone what managers are attached to and what
connections there are, and it hands no new handle on.
-/

namespace SqliteAccess.Loop

open Access (Database)
open SqliteAccess.Pool (Handle Lease)

def Frame.Plain : {s t : Shape} → Frame s t → Prop
  | _, _, .start _ | _, _, .askedOpen _ | _, _, .foreignKeysSet _ _ _ | _, _, .journalSet _ _
  | _, _, .registering _ | _, _, .singleOpened _ _ | _, _, .singleClosed _ => False
  | _, _, _ => True

def Call.Plain : {s : Shape} → Call s → Prop
  | _, .askOpen | _, .hangUp _ => False
  | _, _ => True

def Next.Plain {u : Shape} : Next u → Prop
  | .give o => arrived o = []
  | .call c f => c.Plain ∧ f.Plain
  | .jump c => c.Plain
  | .pause _ f | .again f => f.Plain

structure Mild {u : Shape} (l : State) (x : State × Next u) : Prop where
  tame : Tame l x.1
  plain : x.2.Plain

def Work.Singular : {u : Shape} → Work u → Prop
  | _, .call .askOpen | _, .call (.dial _) | _, .call (.hangUp _) | _, .call (.openSlot _)
  | _, .call (.destroy _ _) | _, .call (.setUp _ _ _) | _, .call (.shutDown _)
  | _, .call (.bootstrap _) => True
  | _, .back (.start _) _ | _, .back (.askedOpen _) _ | _, .back (.dialled _) _
  | _, .back (.connected _ _) _ | _, .back (.foreignKeysSet _ _ _) _ | _, .back (.journalSet _ _) _
  | _, .back (.registering _) _ | _, .back (.singleOpened _ _) _ | _, .back (.poolShut _) _
  | _, .back (.lockedToClose _) _ | _, .back (.singleClosed _) _ => True
  | _, _ => False

variable {l m : State} {p M : Nat} {u : Shape}

theorem Mild.of {x : Next u} (h : Tame l m) (hx : x.Plain) : Mild l (m, x) := ⟨h, hx⟩

theorem arrived_error (e : Failure) : arrived (.error e : Outcome u) = [] := by
  cases u <;> rfl

theorem State.growThen_mild (h : Tame l m) (p : Nat) {o : Outcome u} (ho : arrived o = []) :
    Mild l (m.growThen p o) := by
  have hg := h.grow p
  unfold State.growThen
  generalize m.grow p = x at hg ⊢
  obtain ⟨m', e | x⟩ := x
  · exact ⟨hg, arrived_error e⟩
  · exact ⟨hg, ho⟩

theorem State.standInLine_mild (h : Tame l m) (p : Nat) (s : Pool.State) : Mild l (m.standInLine p s) := by
  have hg := (h.modifyPool p (fun s => s.enqueue m.currentTask) fun _ => ⟨rfl, rfl, id⟩).grow p
  unfold State.standInLine
  dsimp only
  generalize (m.modifyPool p fun s => s.enqueue m.currentTask).grow p = x at hg ⊢
  obtain ⟨m', e | x⟩ := x
  · exact ⟨hg, rfl⟩
  · dsimp only
    split
    · exact ⟨hg, rfl⟩
    · exact ⟨hg, trivial⟩
    · split
      · have hp : Tame l (m'.modifyPool p fun s => s.giveUp m.currentTask) :=
          hg.modifyPool p _ fun _ => ⟨rfl, rfl, id⟩
        exact ⟨hp.enqueue _, trivial⟩
      · exact ⟨hg.addTimer _ _, trivial⟩

theorem State.acquire_mild (l : State) (p : Nat) : Mild l (l.acquire p) := by
  unfold State.acquire
  split
  · exact ⟨.refl l, rfl⟩
  next s _ =>
    split
    · exact ⟨.refl l, rfl⟩
    · have hs := (Tame.refl l).startPool p s
      dsimp only
      split
      next s' id ht =>
        obtain ⟨x, hx, hid⟩ := Option.bind_eq_some_iff.mp ht
        exact ⟨hs.setPool hx (.takeIdle hid), rfl⟩
      next =>
        split
        · exact ⟨hs.modifyPool p Pool.State.reserve fun _ => ⟨rfl, rfl, id⟩, trivial, trivial⟩
        · exact State.standInLine_mild hs p s

theorem State.opened_mild (l : State) (p : Nat) (o : Outcome .lease) : Mild l (l.opened p o) := by
  cases o with
  | error e => exact State.growThen_mild (.refl l) p rfl
  | ok c =>
    have hm := (Tame.refl l).ensureMinimum p
    unfold State.opened
    dsimp only
    generalize l.ensureMinimum p = x at hm ⊢
    obtain ⟨m', e | x⟩ := x
    · exact ⟨hm, rfl⟩
    · exact ⟨hm.modifyPool p _ fun s => (Pool.State.Abides.refl s).checkout c.id, rfl⟩

theorem State.inLine_mild (l : State) (p : Nat) (o : Outcome .unit) : Mild l (l.inLine p o) := by
  have ht : Tame l (l.modifyPool p fun s => s.takeUp l.currentTask) :=
    (Tame.refl l).modifyPool p _ fun _ => ⟨rfl, rfl, id⟩
  have hl : Tame l ((l.modifyPool p fun s => s.takeUp l.currentTask).modifyPool p fun s =>
      s.leaveLine l.currentTask) := ht.modifyPool p _ fun _ => ⟨rfl, rfl, id⟩
  unfold State.inLine
  dsimp only
  split
  · exact ⟨ht, rfl⟩
  · exact ⟨ht, rfl⟩
  · split
    · exact ⟨hl.checkin p _, rfl⟩
    · exact ⟨hl, rfl⟩

theorem State.openedBackground_mild (l : State) (p : Nat) (o : Outcome .lease) :
    Mild l (l.openedBackground p o) := by
  have he : Tame l (l.modifyPool p Pool.State.endBackground) :=
    (Tame.refl l).modifyPool p _ fun _ => ⟨rfl, rfl, id⟩
  unfold State.openedBackground
  dsimp only
  split
  · split
    · exact State.growThen_mild ((he.report _).failLongestWaiting p _) p rfl
    · exact ⟨he, rfl⟩
  · split
    · split
      · exact ⟨he, trivial⟩
      · exact ⟨he.checkin p _, rfl⟩
    · exact ⟨he, rfl⟩

theorem State.endEviction_mild (h : Tame l m) (k : Nat) : Mild l (m.endEviction k) := by
  unfold State.endEviction
  split
  · exact ⟨h, rfl⟩
  · exact .of (h.report _) rfl

theorem State.evictFrom_mild (h : Tame l m) (p : Nat) (s : Pool.State) (k : Nat) (ids : List Nat) :
    Mild l (m.evictFrom p s k ids) := by
  induction ids with
  | nil => exact State.endEviction_mild h k
  | cons id ids ih =>
    unfold State.evictFrom
    split
    · split
      · exact ⟨h, trivial, trivial⟩
      · exact State.endEviction_mild h k
    · exact ih

theorem State.evict_mild (l : State) (p : Nat) : Mild l (l.evict p) := by
  unfold State.evict
  split
  · exact ⟨.refl l, rfl⟩
  · split
    · exact ⟨.refl l, rfl⟩
    · exact State.evictFrom_mild (.refl l) p _ _ _

theorem State.evicting_mild (l : State) (p : Nat) (rest : List Nat) (k : Nat) (o : Outcome .unit) :
    Mild l (l.evicting p rest k o) := by
  unfold State.evicting
  split
  · exact ⟨.refl l, rfl⟩
  · exact ⟨.refl l, rfl⟩
  · exact State.evictFrom_mild (.refl l) p _ _ _

theorem State.sleep_mild (h : Tame l m) (d : Float) {f : Frame .unit .unit} (hf : f.Plain) :
    Mild l (m.sleep d f) := by
  unfold State.sleep
  split
  · exact ⟨h, hf⟩
  · exact ⟨h.addTimer _ _, hf⟩

theorem State.reap_mild (l : State) (p : Nat) : Mild l (l.reap p) := by
  unfold State.reap
  split
  · exact ⟨.refl l, rfl⟩
  · split
    · exact ⟨.refl l, rfl⟩
    · exact State.sleep_mild (.refl l) _ trivial

theorem State.rested_mild (l : State) (p : Nat) (i : Float) (o : Outcome .unit) :
    Mild l (l.rested p i o) := by
  cases o with
  | error e => exact ⟨.refl l, rfl⟩
  | ok => exact ⟨.refl l, trivial, trivial⟩

theorem State.swept_mild (l : State) (p : Nat) (i : Float) (o : Outcome .count) :
    Mild l (l.swept p i o) := by
  have go : ∀ {m : State}, Tame l m → Mild l (m.swept p i (.ok 0)) := by
    intro m h
    have hm := h.ensureMinimum p
    unfold State.swept
    dsimp only
    generalize m.ensureMinimum p = x at hm ⊢
    obtain ⟨m', e | x⟩ := x
    · exact ⟨hm, rfl⟩
    · exact State.sleep_mild hm i trivial
  rcases o with e | k
  · by_cases hc : e = .cancelled
    · subst hc
      exact ⟨.refl l, rfl⟩
    · have hr := go ((Tame.refl l).report (State.poolRecord Log.error "Idle eviction failed"))
      cases e <;> first | exact hr | exact absurd rfl hc
  · exact go (.refl l)

theorem State.drainFrom_mild (h : Tame l m) (p : Nat) (ids : List Nat) : Mild l (m.drainFrom p ids) := by
  unfold State.drainFrom
  split
  · exact ⟨h, trivial, trivial⟩
  · split
    · exact ⟨h, rfl⟩
    · split
      · exact .of (h.report _) rfl
      · exact ⟨h.awaitTasks _ _, trivial⟩

theorem State.draining_mild (l : State) (p : Nat) (rest : List Nat) (o : Outcome .unit) :
    Mild l (l.draining p rest o) := by
  cases o with
  | error e => exact ⟨.refl l, rfl⟩
  | ok => exact State.drainFrom_mild (.refl l) p rest

theorem State.backgroundEnded_mild (l : State) (p : Nat) (o : Outcome .unit) :
    Mild l (l.backgroundEnded p o) := by
  cases o with
  | error e => exact ⟨.refl l, rfl⟩
  | ok => exact .of ((Tame.refl l).report _) rfl

theorem State.clearLine_mild (h : Tame l m) (p : Nat) : Mild l (m.clearLine p) := by
  unfold State.clearLine
  split
  · exact ⟨h, rfl⟩
  next s hs =>
    have hp : Tame l (m.modifyPool p fun _ => { s with reaper := none }.failAll.1) :=
      h.setPool hs ⟨rfl, rfl, id⟩
    exact State.drainFrom_mild (hp.wakeAll _ _) p _

theorem State.reaperEnded_mild (h : Tame l m) (p : Nat) (o : Outcome .unit) : Mild l (m.reaperEnded p o) := by
  unfold State.reaperEnded
  split
  · exact State.clearLine_mild h p
  · split
    · exact State.clearLine_mild h p
    · exact ⟨h, rfl⟩

theorem State.closePool_mild (l : State) (p : Nat) : Mild l (l.closePool p) := by
  have hc : Tame l (l.modifyPool p fun s => { s with closed := true }) :=
    (Tame.refl l).modifyPool p _ fun _ => ⟨rfl, rfl, fun _ => rfl⟩
  unfold State.closePool
  split
  · exact ⟨.refl l, rfl⟩
  · split
    · exact ⟨.refl l, rfl⟩
    · dsimp only
      split
      · exact State.reaperEnded_mild hc p _
      next r _ =>
        have hr := hc.cancel r
        split
        · exact State.reaperEnded_mild hr p _
        · exact ⟨hr.modifyTask r fun _ _ => .same _, trivial⟩

theorem State.askClose_mild (l : State) (h : Handle) : Mild l (l.askClose h) := by
  have ho : ∀ o, Tame l { l with opener := o } := fun _ => (Tame.refl l).quiet rfl rfl rfl rfl rfl rfl rfl
  unfold State.askClose
  dsimp only
  split
  · exact ⟨ho _, trivial⟩
  · exact ⟨ho _, rfl⟩

theorem State.send_mild (l : State) (h : Handle) (s : Sql.Statement) : Mild l (l.send h s) := by
  have he : ∀ e : Engine.State, e.opened = l.engine.opened → e.closes = l.engine.closes →
      Tame l { l with engine := e } := fun e ho hc => (Tame.refl l).quiet rfl rfl (Prod.ext rfl ho) hc rfl rfl rfl
  have hr := l.engine.closes_record_execute h s.sql s.params
  unfold State.send
  dsimp only
  split
  · exact ⟨he _ rfl hr, trivial⟩
  · exact ⟨(he ((l.engine.record (.execute h s.sql s.params)).nextRule s.sql).2 rfl hr).quiet
      rfl rfl rfl rfl rfl rfl rfl, rfl⟩

theorem State.sent_mild (l : State) (r : Engine.Rule) (o : Outcome .unit) : Mild l (l.sent r o) := by
  cases o with
  | error e => exact ⟨.refl l, rfl⟩
  | ok => exact ⟨(Tame.refl l).quiet rfl rfl rfl rfl rfl rfl rfl, rfl⟩

theorem State.ran_mild (l : State) (d : Database) (sql : String) (k : Access.Mode) (start : Float)
    (o : Outcome .cursor) : Mild l (l.ran d sql k start o) := by
  cases o with
  | error e => exact .of ((Tame.refl l).report _) rfl
  | ok => exact .of ((Tame.refl l).report _) rfl

theorem State.lock_mild (l : State) (M : Nat) : Mild l (l.lock M) := by
  unfold State.lock
  split
  · exact ⟨.refl l, rfl⟩
  · split
    · exact ⟨(Tame.refl l).modifyLock M fun k => k.lock.take, rfl⟩
    · exact ⟨(Tame.refl l).modifyLock M fun k => k.lock.enqueue l.currentTask, trivial⟩

theorem State.letIn_mild (l : State) (M : Nat) (o : Outcome .unit) : Mild l (l.letIn M o) := by
  have hl := (Tame.refl l).modifyLock M fun k => k.lock.leave l.currentTask
  cases o with
  | error e => exact .of (hl.setLock M _) rfl
  | ok => exact ⟨hl.modifyLock M fun k => k.lock.take, rfl⟩

theorem State.borrow_mild (l : State) (M : Nat) : Mild l (l.borrow M) := by
  unfold State.borrow
  split
  · exact ⟨.refl l, trivial, trivial⟩
  · exact ⟨.refl l, trivial, trivial⟩
  · exact ⟨.refl l, rfl⟩

theorem State.lockedToUse_mild (l : State) (M : Nat) (o : Outcome .unit) : Mild l (l.lockedToUse M o) := by
  unfold State.lockedToUse
  split
  · exact ⟨.refl l, rfl⟩
  · split
    · exact ⟨.refl l, rfl⟩
    · exact ⟨(Tame.refl l).setStandaloneUse _ true, rfl⟩

theorem State.endCall_mild (h : Tame l m) (M : Nat) (lease : Option Lease) (restores : Bool) (hu : u ≠ .handle)
    (o : Outcome u) : Mild l (m.endCall M lease restores o) := by
  obtain ⟨o', ho⟩ := m.endBlock_eq M lease o
  rw [State.endCall, ho]
  exact ⟨(h.giveBack M lease).leaveScope restores, arrived_of_ne hu o'⟩

theorem State.execute_mild (l : State) (M : Nat) (s : Sql.Statement) (mode : Value) :
    Mild l (l.execute M s mode) := by
  unfold State.execute
  split
  · exact ⟨.refl l, rfl⟩
  · split
    · split
      · exact ⟨.refl l, rfl⟩
      · exact ⟨(Tame.refl l).enterScope, trivial, trivial⟩
    · exact .of ((Tame.refl l).report _) rfl

theorem State.executing_mild (l : State) (M : Nat) (s : Sql.Statement) (k : Access.Mode) (restores : Bool)
    (o : Outcome .borrowed) : Mild l (l.executing M s k restores o) := by
  unfold State.executing
  split
  · exact ⟨(Tame.refl l).leaveScope restores, rfl⟩
  · split
    · exact State.endCall_mild (.refl l) M _ restores (by decide) _
    · exact ⟨.refl l, trivial, trivial⟩

theorem State.executeAll_mild (l : State) (M : Nat) (ss : List Sql.Statement) (mode : Value) :
    Mild l (l.executeAll M ss mode) := by
  unfold State.executeAll
  split
  · exact ⟨.refl l, rfl⟩
  · split
    · split
      · exact ⟨.refl l, rfl⟩
      · exact ⟨(Tame.refl l).enterScope, trivial, trivial⟩
    · exact .of ((Tame.refl l).report _) rfl

theorem State.batchFrom_mild (l : State) (M : Nat) (lease : Option Lease) (k : Access.Mode)
    (done : List Access.Answer) (restores : Bool) (ss : List Sql.Statement) :
    Mild l (l.batchFrom M lease k done restores ss) := by
  cases ss with
  | nil => exact State.endCall_mild (.refl l) M lease restores (by decide) _
  | cons s rest =>
    rw [State.batchFrom]
    cases l.target? M lease with
    | none => exact State.endCall_mild (.refl l) M lease restores (by decide) _
    | some x => exact ⟨.refl l, trivial, trivial⟩

theorem State.batching_mild (l : State) (M : Nat) (ss : List Sql.Statement) (k : Access.Mode) (restores : Bool)
    (o : Outcome .borrowed) : Mild l (l.batching M ss k restores o) := by
  cases o with
  | error e => exact ⟨(Tame.refl l).leaveScope restores, rfl⟩
  | ok lease => exact l.batchFrom_mild M lease k [] restores ss

theorem State.batched_mild (l : State) (M : Nat) (lease : Option Lease) (rest : List Sql.Statement)
    (k : Access.Mode) (done : List Access.Answer) (restores : Bool) (o : Outcome .answer) :
    Mild l (l.batched M lease rest k done restores o) := by
  cases o with
  | error e => exact State.endCall_mild (.refl l) M lease restores (by decide) _
  | ok a => exact l.batchFrom_mild M lease k (done ++ [a]) restores rest

theorem State.leaveBlock_mild (l : State) (M : Nat) (lease : Option Lease) (fail : Bool) :
    Mild l (l.leaveBlock M lease fail) :=
  ⟨(Tame.refl l).endBlock M lease _, rfl⟩

theorem State.blockEntered_mild (l : State) (M : Nat) (hold fail : Bool) (o : Outcome .borrowed) :
    Mild l (l.blockEntered M hold fail o) := by
  unfold State.blockEntered
  split
  · exact ⟨.refl l, rfl⟩
  · split
    · exact .of ((Tame.refl l).modifyEngine (fun e => e.hold l.currentTask "scope") rfl rfl) trivial
    · exact l.leaveBlock_mild M _ fail

theorem State.blockHeld_mild (l : State) (M : Nat) (lease : Option Lease) (fail : Bool) (o : Outcome .unit) :
    Mild l (l.blockHeld M lease fail o) := by
  cases o with
  | error e => exact ⟨(Tame.refl l).endBlock M lease _, rfl⟩
  | ok => exact l.leaveBlock_mild M lease fail

theorem State.build_mild (l : State) (M : Nat) (w : Sql.Writer) (b : Schema.Blueprint)
    (changes : List Schema.Revision) : Mild l (l.build M w b changes) := by
  unfold State.build
  split
  · exact ⟨.refl l, rfl⟩
  · dsimp only
    split
    · exact ⟨(Tame.refl l).reportAll _, rfl⟩
    · exact .of (((Tame.refl l).reportAll _).report _) ⟨trivial, trivial⟩

variable {w : Work u}

theorem Work.mild (hw : ¬ w.Singular) (l : State) : Mild l (w.perform l) := by
  have same : ∀ {n : Next u}, n.Plain → Mild l (l, n) := fun hn => ⟨.refl l, hn⟩
  cases w with
  | call c =>
    cases c with
    | askOpen | dial | hangUp | openSlot | destroy | setUp | shutDown | bootstrap =>
      exact absurd trivial hw
    | askClose h => exact l.askClose_mild h
    | send h s => exact l.send_mild h s
    | connect | openBackground | block | within | hasTable | reset | demonstrate =>
      exact same ⟨trivial, trivial⟩
    | run d h s k => exact .of ((Tame.refl l).report _) ⟨trivial, trivial⟩
    | acquire p => exact l.acquire_mild p
    | evict p => exact l.evict_mild p
    | reap p => exact l.reap_mild p
    | closePool p => exact l.closePool_mild p
    | lock m => exact l.lock_mild m
    | borrow m => exact l.borrow_mild m
    | execute m s mode => exact l.execute_mild m s mode
    | executeAll m ss mode => exact l.executeAll_mild m ss mode
    | build m w b changes => exact l.build_mild m w b changes
    | seed m =>
      simp only [Work.perform, begin, State.seed]
      split
      · exact same rfl
      · exact same ⟨trivial, trivial⟩
    | fetch => exact same trivial
  | back f o =>
    cases f with
    | start | askedOpen | dialled | connected | foreignKeysSet | journalSet | registering | singleOpened
    | poolShut | lockedToClose | singleClosed => exact absurd trivial hw
    | askedClose fault => cases o <;> exact same rfl
    | sent r => exact l.sent_mild r o
    | ran d sql k start => exact l.ran_mild d sql k start o
    | opened p => exact l.opened_mild p o
    | inLine p => exact l.inLine_mild p o
    | openedBackground p => exact l.openedBackground_mild p o
    | destroyed p id => exact State.growThen_mild ((Tame.refl l).report _) p rfl
    | evicting p rest k => exact l.evicting_mild p rest k o
    | rested p i => exact l.rested_mild p i o
    | swept p i => exact l.swept_mild p i o
    | reaperEnded p => exact State.reaperEnded_mild (.refl l) p o
    | draining p rest => exact l.draining_mild p rest o
    | backgroundEnded p => exact l.backgroundEnded_mild p o
    | letIn m => exact l.letIn_mild m o
    | leased | built | sought | booksMade | emptied => exact same rfl
    | lockedToUse m => exact l.lockedToUse_mild m o
    | executing m s k restores => exact l.executing_mild m s k restores o
    | executed m lease restores => exact State.endCall_mild (.refl l) m lease restores (by decide) _
    | batching m ss k restores => exact l.batching_mild m ss k restores o
    | batched m lease rest k done restores => exact l.batched_mild m lease rest k done restores o
    | blockEntered m hold fail => exact l.blockEntered_mild m hold fail o
    | blockHeld m lease fail => exact l.blockHeld_mild m lease fail o
    | withinLeft | demoEnded => cases o <;> exact same rfl
    | started | writersMade | writersWritten | demoStarted =>
      cases o with
      | error => exact same rfl
      | ok => exact same ⟨trivial, trivial⟩
    | tableKnown m =>
      cases o with
      | error => exact same rfl
      | ok found => cases found <;> first | exact same ⟨trivial, trivial⟩ | exact same rfl
    | writersRead m writers =>
      simp only [Work.perform, resume, State.writersRead]
      split
      · exact same rfl
      · split
        · exact same rfl
        · exact same ⟨trivial, trivial⟩
      · exact same rfl
    | booksWritten writers =>
      simp only [Work.perform, resume, State.booksWritten]
      split
      · exact same rfl
      · split <;> exact same rfl
    | demoEmptied m => cases o <;> exact same ⟨trivial, trivial⟩
    | demoSeeded m => cases o <;> exact same ⟨trivial, trivial⟩
    | demoFetched m => exact same ⟨trivial, trivial⟩

theorem Placid.report (h : Placid l m) (r : Log.Record) : Placid l (m.report r) :=
  h.trans ((Tame.refl m).report r).toPlacid

theorem Work.placid (w : Work u) (l : State) : Placid l (w.perform l).1 := by
  have same : ∀ {m : State}, m.running = l.running → m.tasks = l.tasks → Placid l m := .of_eq
  have closed : ∀ M o, Placid l (l.singleClosed M o).1 := by
    intro M o
    have hu := ((Tame.refl l).setLock M Access.Lock.release).toPlacid
    cases o with
    | error e => exact hu
    | ok => exact hu.trans (.of_eq rfl rfl)
  have shut : ∀ M, Placid l (l.shutSingle M).1 := by
    intro M
    unfold State.shutSingle
    split
    · exact .refl l
    · split <;> exact same rfl rfl
  by_cases hw : w.Singular
  · cases w with
    | call c =>
      cases c with
      | askOpen =>
        simp only [Work.perform, begin, State.askOpen]
        split <;> exact same rfl rfl
      | dial d =>
        simp only [Work.perform, begin, State.dial]
        split
        · exact same rfl rfl
        · unfold State.endDial
          split <;> exact same rfl rfl
      | hangUp h => exact same (l.hangUp_running h) (l.hangUp_tasks h)
      | openSlot p =>
        simp only [Work.perform, begin, State.openSlot]
        split
        · exact same rfl rfl
        · split <;> exact same rfl rfl
      | destroy p id =>
        simp only [Work.perform, begin, State.destroy]
        split
        · exact same rfl rfl
        · split <;> exact same rfl rfl
      | setUp M location reach =>
        have used : ∀ (m : State) d s, m.running = l.running → m.tasks = l.tasks →
            Placid l (m.usePool M d s) := by
          intro m d s hr ht
          refine .report ?_ _
          exact same hr ht
        simp only [Work.perform, begin, State.setUp]
        split
        · dsimp only
          exact (Placid.refl l).report _
        · exact same rfl rfl
        · split
          · exact same rfl rfl
          · split
            · exact same rfl rfl
            · exact used _ _ _ rfl rfl
      | shutDown M =>
        simp only [Work.perform, begin, State.shutDown]
        split
        · exact same rfl rfl
        · exact shut M
      | bootstrap url =>
        simp only [Work.perform, begin, State.bootstrap]
        split <;> exact same rfl rfl
      | _ => cases hw
    | back f o =>
      cases f with
      | start c => cases o <;> exact same rfl rfl
      | askedOpen => exact same rfl rfl
      | dialled fault =>
        cases o with
        | error => exact same rfl rfl
        | ok => cases fault <;> exact same rfl rfl
      | connected => cases o <;> exact same rfl rfl
      | foreignKeysSet d h wal =>
        cases o with
        | error => exact same rfl rfl
        | ok =>
          cases wal with
          | true => exact same rfl rfl
          | false =>
            simp only [Work.perform, resume, State.foreignKeysSet, Bool.false_eq_true, if_false,
              State.endConnect]
            exact (Placid.refl l).report _
      | journalSet =>
        cases o with
        | error => exact same rfl rfl
        | ok =>
          dsimp only [Work.perform, resume, State.journalSet, State.endConnect]
          exact (Placid.refl l).report _
      | registering p =>
        cases o with
        | error => exact same rfl rfl
        | ok h =>
          simp only [Work.perform, resume, State.registering]
          split
          · exact same rfl rfl
          · dsimp only
            refine .report ?_ _
            exact same rfl rfl
      | singleOpened =>
        cases o with
        | error => exact same rfl rfl
        | ok =>
          dsimp only [Work.perform, resume, State.singleOpened]
          refine .report ?_ _
          exact same rfl rfl
      | poolShut M =>
        cases o with
        | error => exact same rfl rfl
        | ok => exact shut M
      | lockedToClose M =>
        cases o with
        | error => exact same rfl rfl
        | ok =>
          simp only [Work.perform, resume, State.lockedToClose]
          split
          · exact same rfl rfl
          · exact ((Tame.refl l).setLock M Access.Lock.release).toPlacid
      | singleClosed M => exact closed M o
      | _ => cases hw
  · exact (Work.mild hw l).tame.toPlacid

end SqliteAccess.Loop
