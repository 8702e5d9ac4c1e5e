import SqliteAccess.Proofs.Life.Resting

/-!
Most steps of calls have nothing to do with how connections are opened and who has them: pools keep what they
have, and what comes next is neither a connection nor a step towards one.
-/

namespace SqliteAccess.Loop

open SqliteAccess.Pool (Handle Lease)

def leasesOf : {s : Shape} → Outcome s → List Lease
  | .lease, .ok c => [c]
  | .borrowed, .ok lease => lease.toList
  | _, _ => []

def Call.Safe : {s : Shape} → Call s → Prop
  | _, .askOpen | _, .dial _ | _, .send _ _ | _, .connect _ _ | _, .run _ _ _ _ | _, .openSlot _
  | _, .acquire _ => False
  | _, _ => True

def Frame.Safe : {s t : Shape} → Frame s t → Prop
  | _, _, .start _ | _, _, .askedOpen _ | _, _, .dialled _ | _, _, .connected _ _ | _, _, .foreignKeysSet _ _ _
  | _, _, .journalSet _ _ | _, _, .registering _ | _, _, .opened _ | _, _, .inLine _ | _, _, .executed _ _ _
  | _, _, .batched _ _ _ _ _ _ | _, _, .blockHeld _ _ _ => False
  | _, _, _ => True

def Next.Bland {u : Shape} : Next u → Prop
  | .give o => arrived o = [] ∧ leasesOf o = []
  | .call c f => c.Safe ∧ f.Safe
  | .jump c => c.Safe
  | .pause _ f | .again f => f.Safe

structure Routine {u : Shape} (l : State) (x : State × Next u) : Prop where
  stock : x.1.stock = l.stock
  bland : x.2.Bland

def Work.Delicate : {u : Shape} → Work u → Prop
  | _, .call .askOpen | _, .call (.dial _) | _, .call (.send _ _) | _, .call (.connect _ _)
  | _, .call (.run _ _ _ _) | _, .call (.openSlot _) | _, .call (.openBackground _) | _, .call (.acquire _)
  | _, .call (.destroy _ _) | _, .call (.closePool _) | _, .call (.setUp _ _ _) | _, .call (.borrow _) => True
  | _, .back (.start _) _ | _, .back (.askedOpen _) _ | _, .back (.dialled _) _ | _, .back (.connected _ _) _
  | _, .back (.foreignKeysSet _ _ _) _ | _, .back (.journalSet _ _) _ | _, .back (.opened _) _
  | _, .back (.registering _) _ | _, .back (.inLine _) _ | _, .back (.openedBackground _) _
  | _, .back .leased _ | _, .back (.lockedToUse _) _ | _, .back (.executing _ _ _ _) _
  | _, .back (.executed _ _ _) _ | _, .back (.batching _ _ _ _) _ | _, .back (.batched _ _ _ _ _ _) _
  | _, .back (.blockEntered _ _ _) _ | _, .back (.blockHeld _ _ _) _ => True
  | _, _ => False

variable {l m : State} {p M : Nat} {u : Shape} {n : Next u} {w : Work u}

theorem leasesOf_error (e : Failure) : leasesOf (.error e : Outcome u) = [] := by
  cases u <;> rfl

theorem Next.bland_error (e : Failure) : (.give (.error e) : Next u).Bland := ⟨arrived_error e, leasesOf_error e⟩

theorem State.growThen_bland (l : State) (p : Nat) {o : Outcome u} (ho : (.give o : Next u).Bland) :
    (l.growThen p o).2.Bland := by
  unfold State.growThen
  generalize l.grow p = x
  obtain ⟨m, e | _⟩ := x
  · exact Next.bland_error e
  · exact ho

namespace State

theorem endEviction_routine (h : m.stock = l.stock) (k : Nat) : Routine l (m.endEviction k) := by
  unfold endEviction
  split
  · exact ⟨h, rfl, rfl⟩
  · exact ⟨(m.stock_report _).trans h, rfl, rfl⟩

theorem evictFrom_routine (h : m.stock = l.stock) (p : Nat) (s : Pool.State) (k : Nat) (ids : List Nat) :
    Routine l (m.evictFrom p s k ids) := by
  induction ids with
  | nil => exact endEviction_routine h k
  | cons id ids ih =>
    unfold evictFrom
    split
    · split
      · exact ⟨h, trivial, trivial⟩
      · exact endEviction_routine h k
    · exact ih

theorem evict_routine (l : State) (p : Nat) : Routine l (l.evict p) := by
  unfold evict
  split
  · exact ⟨rfl, rfl, rfl⟩
  · split
    · exact ⟨rfl, rfl, rfl⟩
    · exact evictFrom_routine rfl p _ _ _

theorem evicting_routine (l : State) (p : Nat) (rest : List Nat) (k : Nat) (o : Outcome .unit) :
    Routine l (l.evicting p rest k o) := by
  unfold evicting
  split
  · exact ⟨rfl, rfl, rfl⟩
  · exact ⟨rfl, rfl, rfl⟩
  · exact evictFrom_routine rfl p _ _ _

theorem sleep_routine (h : m.stock = l.stock) (d : Float) {f : Frame .unit .unit} (hf : f.Safe) :
    Routine l (m.sleep d f) := by
  unfold sleep
  split
  · exact ⟨h, hf⟩
  · exact ⟨h, hf⟩

theorem reap_routine (l : State) (p : Nat) : Routine l (l.reap p) := by
  unfold reap
  split
  · exact ⟨rfl, rfl, rfl⟩
  · split
    · exact ⟨rfl, rfl, rfl⟩
    · exact sleep_routine rfl _ trivial

theorem swept_routine (l : State) (p : Nat) (i : Float) (o : Outcome .count) : Routine l (l.swept p i o) := by
  have go : ∀ {m : State}, m.stock = l.stock → Routine l (m.swept p i (.ok 0)) := by
    intro m h
    have hm := (m.stock_ensureMinimum p).trans h
    unfold swept
    dsimp only
    generalize m.ensureMinimum p = x at hm ⊢
    obtain ⟨m', e | _⟩ := x
    · exact ⟨hm, rfl, rfl⟩
    · exact sleep_routine hm i trivial
  rcases o with e | k
  · by_cases hc : e = .cancelled
    · subst hc
      exact ⟨rfl, rfl, rfl⟩
    · have hr := go (l.stock_report (poolRecord Log.error "Idle eviction failed"))
      cases e <;> first | exact hr | exact absurd rfl hc
  · exact go rfl

theorem drainFrom_routine (h : m.stock = l.stock) (p : Nat) (ids : List Nat) : Routine l (m.drainFrom p ids) := by
  unfold drainFrom
  split
  · exact ⟨h, trivial, trivial⟩
  · split
    · exact ⟨h, rfl, rfl⟩
    · split
      · exact ⟨(m.stock_report _).trans h, rfl, rfl⟩
      · exact ⟨(m.stock_awaitTasks _ _).trans h, trivial⟩

theorem clearLine_routine (h : m.stock = l.stock) (p : Nat) : Routine l (m.clearLine p) := by
  unfold clearLine
  split
  · exact ⟨h, rfl, rfl⟩
  next s hs =>
    have hp : (m.modifyPool p fun _ => { s with reaper := none }.failAll.1).stock = l.stock := by
      rw [← h]
      exact stock_setPool hs rfl
    exact drainFrom_routine ((stock_wakeAll _ _ _).trans hp) p _

theorem reaperEnded_routine (h : m.stock = l.stock) (p : Nat) (o : Outcome .unit) :
    Routine l (m.reaperEnded p o) := by
  unfold reaperEnded
  split
  · exact clearLine_routine h p
  · split
    · exact clearLine_routine h p
    · exact ⟨h, rfl, rfl⟩

theorem closePool_routine (l : State) (p : Nat) :
    Routine (l.modifyPool p fun s => { s with closed := true }) (l.closePool p) := by
  have same : (∀ s, l.pool? p = some s → s.closed = true) →
      l.stock = (l.modifyPool p fun s => { s with closed := true }).stock := by
    intro h
    refine List.ext_getElem (by simp [stock, modifyPool]) fun i hi _ => ?_
    simp only [stock, modifyPool, List.getElem_map, List.getElem_modify]
    split
    next hp =>
      subst hp
      have hc := h _ (List.getElem?_eq_getElem (by simpa [stock] using hi))
      simp [Pool.State.stock, hc]
    next => rfl
  unfold closePool
  split
  next hnone => exact ⟨same fun s hs => (by cases hnone.symm.trans hs), rfl, rfl⟩
  next s hs =>
    split
    next hc =>
      refine ⟨same fun s' hs' => ?_, rfl, rfl⟩
      cases hs.symm.trans hs'
      exact hc
    · dsimp only
      split
      · exact reaperEnded_routine rfl p _
      next r _ =>
        have hr := stock_cancel (l.modifyPool p fun s => { s with closed := true }) r
        split
        · exact reaperEnded_routine hr p _
        · exact ⟨hr, trivial⟩

theorem lock_routine (l : State) (M : Nat) : Routine l (l.lock M) := by
  unfold lock
  split
  · exact ⟨rfl, rfl, rfl⟩
  · split
    · exact ⟨rfl, rfl, rfl⟩
    · exact ⟨rfl, trivial⟩

theorem letIn_routine (l : State) (M : Nat) (o : Outcome .unit) : Routine l (l.letIn M o) := by
  cases o with
  | error e => exact ⟨stock_setLock _ M _, rfl, rfl⟩
  | ok => exact ⟨rfl, rfl, rfl⟩

theorem shutSingle_routine (l : State) (M : Nat) : Routine l (l.shutSingle M) := by
  unfold shutSingle
  split
  · exact ⟨rfl, rfl, rfl⟩
  · split
    · exact ⟨rfl, trivial, trivial⟩
    · exact ⟨rfl, rfl, rfl⟩

theorem shutDown_routine (l : State) (M : Nat) : Routine l (l.shutDown M) := by
  unfold shutDown
  split
  · exact ⟨rfl, trivial, trivial⟩
  · exact l.shutSingle_routine M

theorem lockedToClose_routine (l : State) (M : Nat) (o : Outcome .unit) : Routine l (l.lockedToClose M o) := by
  cases o with
  | error e => exact ⟨rfl, rfl, rfl⟩
  | ok =>
    unfold lockedToClose
    dsimp only
    split
    · exact ⟨rfl, trivial, trivial⟩
    · exact ⟨stock_setLock l M _, rfl, rfl⟩

theorem singleClosed_routine (l : State) (M : Nat) (o : Outcome .unit) : Routine l (l.singleClosed M o) := by
  cases o with
  | error e => exact ⟨stock_setLock l M _, rfl, rfl⟩
  | ok => exact ⟨stock_setLock l M _, rfl, rfl⟩

theorem execute_routine (l : State) (M : Nat) (s : Sql.Statement) (mode : Value) :
    Routine l (l.execute M s mode) := by
  unfold execute
  split
  · exact ⟨rfl, rfl, rfl⟩
  · split
    · split
      · exact ⟨rfl, rfl, rfl⟩
      · exact ⟨l.stock_enterScope, trivial, trivial⟩
    · exact ⟨l.stock_report _, rfl, rfl⟩

theorem executeAll_routine (l : State) (M : Nat) (ss : List Sql.Statement) (mode : Value) :
    Routine l (l.executeAll M ss mode) := by
  unfold executeAll
  split
  · exact ⟨rfl, rfl, rfl⟩
  · split
    · split
      · exact ⟨rfl, rfl, rfl⟩
      · exact ⟨l.stock_enterScope, trivial, trivial⟩
    · exact ⟨l.stock_report _, rfl, rfl⟩

theorem build_routine (l : State) (M : Nat) (w : Sql.Writer) (b : Schema.Blueprint)
    (changes : List Schema.Revision) : Routine l (l.build M w b changes) := by
  unfold build
  split
  · exact ⟨rfl, rfl, rfl⟩
  · dsimp only
    split
    · exact ⟨l.stock_reportAll _, rfl, rfl⟩
    · exact ⟨(stock_report _ _).trans (l.stock_reportAll _), trivial, trivial⟩

theorem sent_routine (l : State) (r : Engine.Rule) (o : Outcome .unit) : Routine l (l.sent r o) := by
  cases o with
  | error e => exact ⟨rfl, rfl, rfl⟩
  | ok => exact ⟨rfl, rfl, rfl⟩

end State

theorem Work.routine (hw : ¬ w.Delicate) (l : State) : Routine l (w.perform l) := by
  have same : ∀ {n : Next u}, n.Bland → Routine l (l, n) := fun hn => ⟨rfl, hn⟩
  cases w with
  | call c =>
    cases c with
    | askOpen | dial | send | connect | run | openSlot | openBackground | acquire | destroy | closePool | setUp
    | borrow =>
      exact absurd trivial hw
    | askClose h =>
      simp only [Work.perform, begin, State.askClose]
      split
      · exact ⟨rfl, trivial⟩
      · exact ⟨rfl, rfl, rfl⟩
    | hangUp h =>
      obtain ⟨e, _, ⟨_, he⟩ | ⟨o, he⟩⟩ := l.hangUp_cases h <;> simp only [Work.perform, begin, he]
      · exact ⟨rfl, trivial⟩
      · exact ⟨rfl, rfl, rfl⟩
    | block | within | hasTable | reset | demonstrate => exact same ⟨trivial, trivial⟩
    | evict p => exact l.evict_routine p
    | reap p => exact l.reap_routine p
    | lock M => exact l.lock_routine M
    | shutDown M => exact l.shutDown_routine M
    | execute M s mode => exact l.execute_routine M s mode
    | executeAll M ss mode => exact l.executeAll_routine M ss mode
    | build M w b changes => exact l.build_routine M w b changes
    | bootstrap url =>
      simp only [Work.perform, begin, State.bootstrap]
      split
      · exact same ⟨rfl, rfl⟩
      · exact ⟨rfl, trivial, trivial⟩
    | seed M =>
      simp only [Work.perform, begin, State.seed]
      split
      · exact same ⟨rfl, rfl⟩
      · exact same ⟨trivial, trivial⟩
    | fetch => exact same trivial
  | back f o =>
    cases f with
    | start | askedOpen | dialled | connected | foreignKeysSet | journalSet | opened | registering | inLine
    | openedBackground | leased | lockedToUse | executing | executed | batching | batched | blockEntered
    | blockHeld => exact absurd trivial hw
    | askedClose fault => cases o <;> exact same ⟨rfl, rfl⟩
    | sent r => exact l.sent_routine r o
    | ran d sql k start => cases o <;> exact ⟨l.stock_report _, rfl, rfl⟩
    | destroyed p id =>
      exact ⟨(State.stock_growThen _ p _).trans (l.stock_report _), State.growThen_bland _ p ⟨rfl, rfl⟩⟩
    | evicting p rest k => exact l.evicting_routine p rest k o
    | rested p i =>
      cases o with
      | error => exact same ⟨rfl, rfl⟩
      | ok => exact same ⟨trivial, trivial⟩
    | swept p i => exact l.swept_routine p i o
    | reaperEnded p => exact State.reaperEnded_routine rfl p o
    | draining p rest =>
      cases o with
      | error => exact same ⟨rfl, rfl⟩
      | ok => exact State.drainFrom_routine rfl p rest
    | backgroundEnded p =>
      cases o with
      | error => exact same ⟨rfl, rfl⟩
      | ok => exact ⟨l.stock_report _, rfl, rfl⟩
    | letIn M => exact l.letIn_routine M o
    | singleOpened M d =>
      cases o with
      | error => exact same ⟨rfl, rfl⟩
      | ok => exact ⟨State.stock_report _ _, rfl, rfl⟩
    | poolShut M =>
      cases o with
      | error => exact same ⟨rfl, rfl⟩
      | ok => exact l.shutSingle_routine M
    | lockedToClose M => exact l.lockedToClose_routine M o
    | singleClosed M => exact l.singleClosed_routine M o
    | built | sought | booksMade | emptied => exact same ⟨rfl, rfl⟩
    | withinLeft | demoEnded => cases o <;> exact same ⟨rfl, rfl⟩
    | started | writersMade | writersWritten | demoStarted =>
      cases o with
      | error => exact same ⟨rfl, rfl⟩
      | ok => exact same ⟨trivial, trivial⟩
    | tableKnown M =>
      cases o with
      | error => exact same ⟨rfl, rfl⟩
      | ok found => cases found <;> first | exact same ⟨trivial, trivial⟩ | exact same ⟨rfl, rfl⟩
    | writersRead M writers =>
      simp only [Work.perform, resume, State.writersRead]
      split
      · exact same ⟨rfl, rfl⟩
      · split
        · exact same ⟨rfl, rfl⟩
        · exact same ⟨trivial, trivial⟩
      · exact same ⟨rfl, rfl⟩
    | booksWritten writers =>
      simp only [Work.perform, resume, State.booksWritten]
      split
      · exact same ⟨rfl, rfl⟩
      · split <;> exact same ⟨rfl, rfl⟩
    | demoEmptied M => cases o <;> exact same ⟨trivial, trivial⟩
    | demoSeeded M => cases o <;> exact same ⟨trivial, trivial⟩
    | demoFetched => exact same ⟨trivial, trivial⟩

end SqliteAccess.Loop
