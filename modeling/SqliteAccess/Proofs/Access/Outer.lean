import SqliteAccess.Proofs.Access.LoopSteps

/-!
The procedures of a pool know nothing of managers, and do not have the engine open anything by
themselves.
-/

namespace SqliteAccess.Loop.State

def outer (l : State) : List Access.Manager × Nat :=
  (l.managers.map fun k => { k with lock := {} }, l.engine.opened)

section Operations

variable (l : State) (p t : Nat)

@[simp] theorem outer_modifyTask (f : Task → Task) : (l.modifyTask t f).outer = l.outer := rfl

@[simp] theorem outer_modifyPool (f : Pool.State → Pool.State) : (l.modifyPool p f).outer = l.outer :=
  rfl

@[simp] theorem outer_enqueue (j : Job) : (l.enqueue j).outer = l.outer := rfl

@[simp] theorem outer_dropTimer : (l.dropTimer t).outer = l.outer := rfl

@[simp] theorem outer_addTimer (d : Float) : (l.addTimer d t).1.outer = l.outer := rfl

@[simp] theorem outer_spawn {s : Shape} (c : Call s) (fs : List Follower) :
    (l.spawn c fs).1.outer = l.outer := rfl

@[simp] theorem outer_spawnBackground (c : Call .unit) : (l.spawnBackground p c).outer = l.outer := rfl

@[simp] theorem outer_report (r : Log.Record) : (l.report r).outer = l.outer := by
  unfold report
  split <;> rfl

@[simp] theorem outer_wake (signal : Option Failure) : (l.wake t signal).outer = l.outer := by
  unfold wake
  split <;> rfl

@[simp] theorem outer_modifyLock (f : Access.Manager → Access.Lock) :
    (l.modifyManager p fun k => { k with lock := f k }).outer = l.outer := by
  refine Prod.ext (List.ext_getElem? fun i => ?_) rfl
  simp only [outer, modifyManager, List.getElem?_map, List.getElem?_modify]
  split
  · cases l.managers[i]? <;> rfl
  · cases l.managers[i]? <;> rfl

@[simp] theorem outer_setLock (f : Access.Lock → Access.Lock × Option Nat) :
    (l.setLock p f).outer = l.outer := by
  unfold setLock
  split
  · rfl
  · dsimp only
    split
    · rw [outer_wake, outer_modifyLock]
    · rw [outer_modifyLock]

@[simp] theorem outer_wakeInLine (signal : Option Failure) : (l.wakeInLine t signal).outer = l.outer := by
  unfold wakeInLine
  split <;> simp

@[simp] theorem outer_spawnOpens (n : Nat) : (l.spawnOpens p n).outer = l.outer := by
  induction n generalizing l with
  | zero => rfl
  | succ n ih => exact ih _

@[simp] theorem outer_grow : (l.grow p).1.outer = l.outer := by
  unfold grow
  split
  · rfl
  · split <;> simp

@[simp] theorem outer_ensureMinimum : (l.ensureMinimum p).1.outer = l.outer := by
  unfold ensureMinimum
  split
  · rfl
  · split <;> simp

@[simp] theorem outer_growThen {s : Shape} (o : Outcome s) : (l.growThen p o).1.outer = l.outer := by
  have h := l.outer_grow p
  unfold growThen
  generalize l.grow p = x at h ⊢
  obtain ⟨m, e | x⟩ := x <;> exact h

@[simp] theorem outer_checkin (id : Nat) : (l.checkin p id).outer = l.outer := by
  unfold checkin
  split
  · rfl
  · dsimp only
    split <;> simp

@[simp] theorem outer_failLongestWaiting (e : Failure) : (l.failLongestWaiting p e).outer = l.outer := by
  unfold failLongestWaiting
  split
  · rfl
  · dsimp only
    split <;> simp

@[simp] theorem outer_startPool (s : Pool.State) : (l.startPool p s).outer = l.outer := by
  unfold startPool
  split <;> simp

@[simp] theorem outer_release : (l.release p t).1.outer = l.outer := by
  unfold release
  split
  · rfl
  · split
    · rfl
    · split <;> simp

theorem outer_abandonWait (w : Wait) : (l.abandonWait t w).outer = l.outer := by
  cases w with
  | lock m =>
    refine Prod.ext (List.ext_getElem (by simp [outer, abandonWait, modifyManager]) ?_) rfl
    intro i hi hi'
    simp only [outer, abandonWait, modifyManager, List.getElem_map, List.getElem_modify]
    split <;> rfl
  | _ => rfl

theorem outer_cancelWithin (depth : Nat) : (l.cancelWithin t depth).outer = l.outer := by
  induction depth generalizing l t with
  | zero => rfl
  | succ depth ih =>
    have hall : ∀ (ts : List Nat) (m : State),
        (ts.foldl (fun l k => l.cancelWithin k depth) m).outer = m.outer := by
      intro ts
      induction ts with
      | nil => exact fun _ => rfl
      | cons k ts ih' => exact fun m => (ih' _).trans (ih m k)
    unfold cancelWithin
    split
    · rfl
    · split
      · rfl
      · rfl
      · rfl
      · split
        · rfl
        · exact ih l _
      · exact hall _ _
      · exact (outer_wakeInLine _ t _).trans (outer_abandonWait l t _)

@[simp] theorem outer_cancel : (l.cancel t).outer = l.outer := outer_cancelWithin l t _

end Operations

section Procedures

variable (l : State) (p : Nat)

theorem outer_standInLine (s : Pool.State) : (l.standInLine p s).1.outer = l.outer := by
  have h := (l.modifyPool p fun s => s.enqueue l.currentTask).outer_grow p
  unfold standInLine
  dsimp only
  generalize (l.modifyPool p fun s => s.enqueue l.currentTask).grow p = x at h ⊢
  obtain ⟨m, e | x⟩ := x
  · exact h
  · dsimp only
    split
    · exact h
    · exact h
    · split
      · exact h
      · exact h

theorem outer_acquire : (l.acquire p).1.outer = l.outer := by
  unfold acquire
  split
  · rfl
  · split
    · rfl
    · dsimp only
      split
      · simp
      · split
        · simp
        · rw [outer_standInLine, outer_startPool]

theorem outer_opened (o : Outcome .lease) : (l.opened p o).1.outer = l.outer := by
  cases o with
  | error e => exact l.outer_growThen p _
  | ok c =>
    have h := l.outer_ensureMinimum p
    unfold opened
    dsimp only
    generalize l.ensureMinimum p = x at h ⊢
    obtain ⟨m, e | x⟩ := x <;> exact h

theorem outer_openSlot : (l.openSlot p).1.outer = l.outer := by
  unfold openSlot
  split
  · rfl
  · split <;> rfl

theorem outer_registering (o : Outcome .handle) : (l.registering p o).1.outer = l.outer := by
  cases o with
  | error e => rfl
  | ok h =>
    unfold registering
    dsimp only
    split
    · rfl
    · exact outer_report _ _

theorem outer_inLine (o : Outcome .unit) : (l.inLine p o).1.outer = l.outer := by
  unfold inLine
  dsimp only
  split
  · rfl
  · rfl
  · split <;> simp

theorem outer_openedBackground (o : Outcome .lease) : (l.openedBackground p o).1.outer = l.outer := by
  unfold openedBackground
  dsimp only
  split
  · split <;> simp
  · split
    · split <;> simp
    · rfl

theorem outer_destroy (id : Nat) : (l.destroy p id).1.outer = l.outer := by
  unfold destroy
  split
  · rfl
  · split <;> rfl

theorem outer_endEviction (n : Nat) : (l.endEviction n).1.outer = l.outer := by
  unfold endEviction
  split <;> simp

theorem outer_evictFrom (s : Pool.State) (n : Nat) (ids : List Nat) :
    (l.evictFrom p s n ids).1.outer = l.outer := by
  induction ids with
  | nil => exact l.outer_endEviction n
  | cons id ids ih =>
    unfold evictFrom
    split
    · split
      · rfl
      · exact l.outer_endEviction n
    · exact ih

theorem outer_evict : (l.evict p).1.outer = l.outer := by
  unfold evict
  split
  · rfl
  · split
    · rfl
    · exact l.outer_evictFrom p _ _ _

theorem outer_evicting (rest : List Nat) (n : Nat) (o : Outcome .unit) :
    (l.evicting p rest n o).1.outer = l.outer := by
  unfold evicting
  split
  · rfl
  · rfl
  · exact l.outer_evictFrom p _ _ _

theorem outer_sleep (d : Float) (f : Frame .unit .unit) : (l.sleep d f).1.outer = l.outer := by
  unfold sleep
  split <;> rfl

theorem outer_reap : (l.reap p).1.outer = l.outer := by
  unfold reap
  split
  · rfl
  · split
    · rfl
    · exact l.outer_sleep _ _

theorem outer_rested (i : Float) (o : Outcome .unit) : (l.rested p i o).1.outer = l.outer := by
  unfold rested
  split <;> rfl

theorem outer_swept (i : Float) (o : Outcome .count) : (l.swept p i o).1.outer = l.outer := by
  have go : ∀ m : State, (m.swept p i (.ok 0)).1.outer = m.outer := by
    intro m
    have h := m.outer_ensureMinimum p
    unfold swept
    dsimp only
    generalize m.ensureMinimum p = x at h ⊢
    obtain ⟨m', e | x⟩ := x
    · exact h
    · exact (outer_sleep m' i _).trans h
  rcases o with e | n
  · by_cases hc : e = .cancelled
    · subst hc
      rfl
    · refine Eq.trans ?_ ((go (l.report (poolRecord Log.error "Idle eviction failed"))).trans
        (outer_report _ _))
      cases e <;> first | rfl | exact absurd rfl hc
  · exact go l

theorem outer_awaitTasks (ts : List Nat) (f : Frame .unit .unit) :
    (l.awaitTasks ts f).1.outer = l.outer := by
  unfold awaitTasks
  dsimp only
  generalize l.currentTask = t
  induction ts generalizing l with
  | nil => rfl
  | cons k ts ih =>
    refine (ih _).trans ?_
    dsimp only
    split <;> rfl

theorem outer_drainFrom (ids : List Nat) : (l.drainFrom p ids).1.outer = l.outer := by
  unfold drainFrom
  split
  · rfl
  · split
    · rfl
    · split
      · exact outer_report _ _
      · exact l.outer_awaitTasks _ _

theorem outer_draining (rest : List Nat) (o : Outcome .unit) :
    (l.draining p rest o).1.outer = l.outer := by
  unfold draining
  split
  · rfl
  · exact l.outer_drainFrom p rest

theorem outer_backgroundEnded (o : Outcome .unit) : (l.backgroundEnded p o).1.outer = l.outer := by
  unfold backgroundEnded
  split
  · rfl
  · exact outer_report _ _

theorem outer_clearLine : (l.clearLine p).1.outer = l.outer := by
  have hall : ∀ (ts : List Nat) (m : State),
      (ts.foldl (fun l t => l.wakeInLine t (some .poolClosed)) m).outer = m.outer := by
    intro ts
    induction ts with
    | nil => exact fun _ => rfl
    | cons t ts ih => exact fun m => (ih _).trans (m.outer_wakeInLine t _)
  unfold clearLine
  split
  · rfl
  · exact (outer_drainFrom _ p _).trans (hall _ _)

theorem outer_reaperEnded (o : Outcome .unit) : (l.reaperEnded p o).1.outer = l.outer := by
  unfold reaperEnded
  split
  · exact l.outer_clearLine p
  · split
    · exact l.outer_clearLine p
    · rfl

theorem outer_closePool : (l.closePool p).1.outer = l.outer := by
  unfold closePool
  split
  · rfl
  · split
    · rfl
    · dsimp only
      split
      · exact outer_reaperEnded _ p _
      · split
        · exact (outer_reaperEnded _ p _).trans (outer_cancel _ _)
        · exact outer_cancel _ _

end Procedures

end SqliteAccess.Loop.State

namespace SqliteAccess.Loop

theorem Work.Pooled.outer {l : State} {u : Shape} {w : Work u} (h : w.Pooled) :
    (w.perform l).1.outer = l.outer := by
  cases w with
  | call c =>
    cases c with
    | acquire p => exact l.outer_acquire p
    | openSlot p => exact l.outer_openSlot p
    | openBackground p => rfl
    | destroy p id => exact l.outer_destroy p id
    | evict p => exact l.outer_evict p
    | reap p => exact l.outer_reap p
    | closePool p => exact l.outer_closePool p
    | _ => cases h
  | back f o =>
    cases f with
    | opened p => exact l.outer_opened p o
    | registering p => exact l.outer_registering p o
    | inLine p => exact l.outer_inLine p o
    | openedBackground p => exact l.outer_openedBackground p o
    | destroyed p id => exact (State.outer_growThen _ p o).trans (l.outer_report _)
    | evicting p rest n => exact l.outer_evicting p rest n o
    | rested p i => exact l.outer_rested p i o
    | swept p i => exact l.outer_swept p i o
    | reaperEnded p => exact l.outer_reaperEnded p o
    | draining p rest => exact l.outer_draining p rest o
    | backgroundEnded p => exact l.outer_backgroundEnded p o
    | _ => cases h

end SqliteAccess.Loop
