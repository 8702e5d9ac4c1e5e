import SqliteAccess.Proofs.Pool.Rousing

/-!
Each step of a call of a pool rouses nobody but callers in line, unless it shuts the pool.
-/

namespace SqliteAccess.Loop

namespace Rouses

variable {p t : Nat} {A : Nat → Option Failure → Prop} {C : Nat → Prop} {E : Nat → Follower → Prop}
  {l l' : State} {s : Pool.State}

theorem startPool (h : Rouses p A C E l l') (s : Pool.State) : Rouses p A C E l (l'.startPool p s) := by
  unfold State.startPool
  split
  · exact h
  · exact (h.spawn (.reap p) (by simp)).tidy p fun _ _ => rfl

theorem standInLine (h : Rouses p A C E l l') (hd : ¬ l'.Dozes p l'.currentTask) (s : Pool.State) :
    Rouses p A C E l (l'.standInLine p s).1 := by
  have hq : Rouses p A C E l' (l'.modifyPool p fun s => s.enqueue l'.currentTask) := by
    refine Rouses.refl.modifyPool p fun s _ _ i _ haw => ?_
    obtain ⟨w, hw, haw⟩ := haw
    exact ⟨w, List.mem_append_left _ hw, haw⟩
  have hg := hq.grow
  unfold State.standInLine
  dsimp only
  generalize State.grow _ p = x at hg ⊢
  obtain ⟨m, e | _⟩ := x
  · exact h.trans hg
  · dsimp only
    split
    · exact h.trans hg
    · exact h.trans hg
    · split
      · -- Whoever gives up at once is at work, and not asleep.
        have hu := hg.giveUp (fun hi => hd (hg.dozes hi)) p
        exact h.trans (hu.apart rfl (List.prefix_append _ _) rfl rfl (List.suffix_refl _))
      · exact h.trans (hg.apart rfl (List.prefix_refl _) rfl rfl (List.suffix_refl _))

theorem acquire (hd : ¬ l.Dozes p l.currentTask) : Rouses p A C E l (l.acquire p).1 := by
  unfold State.acquire
  split
  · exact .refl
  next s hp =>
    split
    · exact .refl
    · have hs : Rouses p A C E l (l.startPool p s) := Rouses.refl.startPool s
      have hc : (l.startPool p s).currentTask = l.currentTask := by
        rw [State.currentTask, State.current?, hs.running]
        rfl
      dsimp only
      split
      next s' id ht =>
        refine hs.tidy p fun s₁ hs₁ => ?_
        rw [hs₁] at ht
        rw [(Pool.State.takeIdle?_eq ht).2]
        rfl
      next =>
        split
        · exact hs.tidy p fun _ _ => rfl
        · exact hs.standInLine (by rw [hc]; exact fun hi => hd (hs.dozes hi)) s

theorem opened (h : Rouses p A C E l l') (o : Outcome .lease) : Rouses p A C E l (l'.opened p o).1 := by
  cases o with
  | error e => exact h.growThen _
  | ok c =>
    have hm := h.ensureMinimum
    unfold State.opened
    dsimp only
    generalize l'.ensureMinimum p = x at hm ⊢
    obtain ⟨m, e | _⟩ := x
    · exact hm
    · exact hm.tidy p fun _ _ => rfl

theorem openSlot (h : Rouses p A C E l l') : Rouses p A C E l (l'.openSlot p).1 := by
  unfold State.openSlot
  split
  · exact h
  · split <;> exact h

theorem askOpen (h : Rouses p A C E l l') : Rouses p A C E l l'.askOpen.1 := by
  unfold State.askOpen
  dsimp only
  split <;> exact h.apart rfl (List.prefix_refl _) rfl rfl (List.suffix_refl _)

theorem registering (h : Rouses p A C E l l') (o : Outcome .handle) :
    Rouses p A C E l (l'.registering p o).1 := by
  have hf : Rouses p A C E l (l'.modifyPool p Pool.State.freeSlot) := h.tidy p fun _ _ => rfl
  unfold State.registering
  cases o with
  | error e => exact hf
  | ok c =>
    dsimp only
    generalize l'.modifyPool p Pool.State.freeSlot = m at hf ⊢
    have hn : Rouses p A C E l { m with nextConnection := m.nextConnection + 1 } :=
      hf.apart rfl (List.prefix_refl _) rfl rfl (List.suffix_refl _)
    have hreg := hn.tidy p (f := fun s => s.register m.nextConnection c m.clock) fun _ _ => rfl
    split
    · exact hreg
    · dsimp only
      exact hreg.report _

theorem inLine (hd : ¬ l.Dozes p l.currentTask) (hp : l.pool? p = some s) (o : Outcome .unit)
    (ha : ∀ i ∈ s.line, A i none) : Rouses p A C E l (l.inLine p o).1 := by
  have hu : Rouses p A C E l (l.modifyPool p fun s => s.takeUp l.currentTask) :=
    Rouses.refl.tidy p fun _ _ => rfl
  have hl := hu.leaveLine (fun hi => hd (hu.dozes hi)) p
  unfold State.inLine
  dsimp only
  split
  · exact hu
  · exact hu
  next e _ =>
    cases (l.pool? p).bind fun s => s.handedTo? l.currentTask with
    | none => exact hl
    | some id =>
      have hpool := (((Changed.unbounded hp).modifyPool fun s => s.takeUp l.currentTask).modifyPool
        fun s => s.leaveLine l.currentTask).pool
      refine hl.checkin id fun s' hs' i hi => ha i ?_
      cases hpool.symm.trans hs'
      exact (List.Sublist.map _ List.eraseP_sublist).subset hi

theorem openedBackground (hp : l.pool? p = some s) (o : Outcome .lease)
    (ha : ∀ i ∈ s.line, ∀ signal, A i signal) : Rouses p A C E l (l.openedBackground p o).1 := by
  have hb := (Changed.unbounded hp).modifyPool Pool.State.endBackground
  have he : Rouses p A C E l (l.modifyPool p Pool.State.endBackground) := Rouses.refl.tidy p fun _ _ => rfl
  cases o with
  | error e =>
    simp only [State.openedBackground]
    split
    · have hr := he.report (State.poolRecord Log.warning ("Background connection creation failed: " ++ e.text))
      refine (hr.failLongestWaiting e fun s' hs' i hi => ha i ?_ _).growThen _
      cases (hb.report _).pool.symm.trans hs'
      exact hi
    · exact he
  | ok c =>
    simp only [State.openedBackground, hb.pool]
    split
    · exact he
    · refine he.checkin c.id fun s' hs' i hi => ha i ?_ _
      cases hb.pool.symm.trans hs'
      exact hi

theorem askClose (c : Pool.Handle) : Rouses p A C E l (l.askClose c).1 := by
  unfold State.askClose
  dsimp only
  split <;> exact Rouses.refl.apart rfl (List.prefix_refl _) rfl rfl (List.tail_suffix _)

theorem destroy (id : Nat) : Rouses p A C E l (l.destroy p id).1 := by
  unfold State.destroy
  split
  · exact .refl
  next s hp =>
    split
    · exact .refl
    next s' c hr =>
      refine Rouses.refl.tidy p fun s₁ hs₁ => ?_
      cases hp.symm.trans hs₁
      rw [(Pool.State.remove?_eq hr).2]
      rfl

theorem destroyed (id : Nat) (o : Outcome .unit) : Rouses p A C E l (l.destroyed p id o).1 :=
  (Rouses.refl.report _).growThen o

theorem endEviction (h : Rouses p A C E l l') (n : Nat) : Rouses p A C E l (l'.endEviction n).1 := by
  unfold State.endEviction
  split
  · exact h
  · dsimp only
    exact h.report _

theorem evictFrom (q : Pool.State) (n : Nat) (ids : List Nat) : Rouses p A C E l (l.evictFrom p q n ids).1 := by
  induction ids with
  | nil => exact Rouses.refl.endEviction n
  | cons id ids ih =>
    unfold State.evictFrom
    split
    · split
      · exact .refl
      · exact Rouses.refl.endEviction n
    · exact ih

theorem evict : Rouses p A C E l (l.evict p).1 := by
  unfold State.evict
  split
  · exact .refl
  · split
    · exact .refl
    · exact evictFrom _ 0 _

theorem evicting (rest : List Nat) (n : Nat) (o : Outcome .unit) :
    Rouses p A C E l (l.evicting p rest n o).1 := by
  unfold State.evicting
  split
  · exact .refl
  · exact .refl
  · exact evictFrom _ (n + 1) rest

theorem sleep (h : Rouses p A C E l l') (d : Float) (f : Frame .unit .unit) :
    Rouses p A C E l (l'.sleep d f).1 := by
  unfold State.sleep
  split
  · exact h
  · exact h.apart rfl (List.prefix_refl _) rfl rfl (List.suffix_refl _)

theorem reap : Rouses p A C E l (l.reap p).1 := by
  unfold State.reap
  split
  · exact .refl
  · split
    · exact .refl
    · exact Rouses.refl.sleep _ _

theorem swept (i : Float) (o : Outcome .count) : Rouses p A C E l (l.swept p i o).1 := by
  have goOn : ∀ m : State, Rouses p A C E l m → Rouses p A C E l (m.swept p i (.ok 0)).1 := by
    intro m hm
    have he := hm.ensureMinimum
    unfold State.swept
    dsimp only
    generalize m.ensureMinimum p = x at he ⊢
    obtain ⟨m', e | _⟩ := x
    · exact he
    · exact he.sleep i _
  unfold State.swept
  dsimp only
  split
  · exact .refl
  · exact goOn _ (Rouses.refl.report _)
  · exact goOn _ .refl

theorem awaitTasks (h : Rouses p A C E l l') (hE : ∀ i, E i (.count l'.currentTask)) (ts : List Nat)
    (f : Frame .unit .unit) : Rouses p A C E l (l'.awaitTasks ts f).1 := by
  unfold State.awaitTasks
  dsimp only
  generalize l'.currentTask = t at hE
  induction ts generalizing l' with
  | nil => exact h
  | cons r ts ih =>
    refine ih ?_
    dsimp only
    split
    · exact h.apart rfl (List.prefix_append _ _) rfl rfl (List.suffix_refl _)
    next hf => exact h.modifyTask fun k hk => .follow hk hf (hE r)

theorem endClose (h : Rouses p A C E l l') : Rouses p A C E l (l'.endClose p).1 := by
  unfold State.endClose
  dsimp only
  exact h.report _

theorem drainFrom (h : Rouses p A C E l l') (hE : ∀ i, E i (.count l'.currentTask)) (ids : List Nat) :
    Rouses p A C E l (l'.drainFrom p ids).1 := by
  unfold State.drainFrom
  split
  · exact h
  · split
    · exact h
    · split
      · exact h.endClose
      · exact h.awaitTasks hE _ _

theorem draining (hE : ∀ i, E i (.count l.currentTask)) (ids : List Nat) (o : Outcome .unit) :
    Rouses p A C E l (l.draining p ids o).1 := by
  cases o with
  | error => exact .refl
  | ok => exact Rouses.refl.drainFrom hE ids

theorem backgroundEnded (o : Outcome .unit) : Rouses p A C E l (l.backgroundEnded p o).1 := by
  cases o with
  | error => exact .refl
  | ok => exact Rouses.refl.endClose

theorem clearLine (h : Rouses p A C E l l') (hp : l'.pool? p = some s)
    (ha : ∀ i ∈ s.line, A i (some .poolClosed)) (hE : ∀ i, E i (.count l.currentTask)) :
    Rouses p A C E l (l'.clearLine p).1 := by
  simp only [State.clearLine, hp, Pool.State.failAll]
  have hd := h.dismiss hp { s with reaper := none, waiters := [] } ((s.waiters.filter (·.pending)).map (·.task))
    (fun i hi => ha i ?_) (fun i hi haw => ?_)
  · refine hd.drainFrom ?_ _
    rwa [State.currentTask, State.current?, hd.running]
  · exact (List.filter_sublist.map _).subset hi
  · obtain ⟨w, hw, rfl, hpend⟩ := haw
    exact absurd (List.mem_map.mpr ⟨w, List.mem_filter.mpr ⟨hw, hpend⟩, rfl⟩) hi

theorem reaperEnded (h : Rouses p A C E l l') (hp : l'.pool? p = some s)
    (ha : ∀ i ∈ s.line, A i (some .poolClosed)) (hE : ∀ i, E i (.count l.currentTask)) (o : Outcome .unit) :
    Rouses p A C E l (l'.reaperEnded p o).1 := by
  unfold State.reaperEnded
  split
  · exact h.clearLine hp ha hE
  · split
    · exact h.clearLine hp ha hE
    · exact h

theorem closePool (hp : l.pool? p = some s) (ha : ∀ i signal, A i signal) (hE : ∀ i f, E i f)
    (hC : ∀ r, s.reaper = some r → C r ∧ ∃ k, l.tasks[r]? = some k ∧ k.Alone) :
    Rouses p A C E l (l.closePool p).1 := by
  unfold State.closePool
  rw [hp]
  dsimp only
  have hs : Rouses p A C E l (l.modifyPool p fun s => { s with closed := true }) :=
    Rouses.refl.tidy p fun _ _ => rfl
  split
  · exact .refl
  · split
    · exact hs.reaperEnded ((Changed.unbounded hp).modifyPool _).pool (fun i _ => ha i _) (fun i => hE i _) _
    next r hr =>
      obtain ⟨hc, k, hk, hk'⟩ := hC r hr
      have hr := hs.cancelWithin (t := r) l.tasks.length hc (ha r _) fun k₁ hk₁ hp => by
        cases hk.symm.trans hk₁
        obtain ⟨w, st, hw, hp⟩ := hp
        have halone := hk' w st hw
        cases w <;> first | exact hp.elim | exact halone.elim
      split
      · obtain ⟨s', _, hc⟩ := ((Changed.unbounded hp).modifyPool fun s => { s with closed := true }).cancel
          (t := r) trivial trivial fun _ _ _ _ => ⟨trivial, trivial⟩
        exact hr.reaperEnded hc.pool (fun i _ => ha i _) (fun i => hE i _) _
      next hf => exact hr.modifyTask fun k hk => .follow hk hf (hE r _)

theorem release (hp : l.pool? p = some s) (id : Nat) (ha : ∀ i ∈ s.line, A i none) :
    Rouses p A C E l (l.release p id).1 := by
  unfold State.release
  rw [hp]
  dsimp only
  split
  · exact .refl
  · split
    · have hs : Rouses p A C E l (l.modifyPool p fun s => s.setFree id) := Rouses.refl.tidy p fun _ _ => rfl
      exact hs.spawnBackground _
    · refine Rouses.refl.checkin id fun s' hs' => ?_
      cases hp.symm.trans hs'
      exact ha

end Rouses

section Steps

variable {p : Nat} {A : Nat → Option Failure → Prop} {C : Nat → Prop} {E : Nat → Follower → Prop} {l : State}
  {s : Pool.State} {u : Shape} {w : Work u} {d : Call u} {k : Stack u}

theorem Work.rouses (hw : w.Of p d) (hk : k.Holds p d) (hp : l.pool? p = some s)
    (hd : ¬ l.Dozes p l.currentTask) (ha : ∀ i ∈ s.line, ∀ signal, A i signal)
    (hE : ∀ i, E i (.count l.currentTask))
    (hs : w.Closing → s.closed = true ∨ (∀ i signal, A i signal) ∧ (∀ i f, E i f) ∧
      ∀ r, s.reaper = some r → C r ∧ ∃ k, l.tasks[r]? = some k ∧ k.Alone) :
    Rouses p A C E l (w.perform l).1 := by
  cases hw with
  | call =>
    cases hk with
    | done hd' =>
      cases hd' with
      | acquire => exact .acquire hd
      | openBackground => exact .refl
      | destroy id => exact .destroy id
      | evict => exact .evict
      | reap => exact .reap
      | closePool =>
        rcases hs trivial with hc | ⟨ha, hE, hC⟩
        · simp only [Work.perform, begin, State.closePool, hp, hc, if_true]
          exact .refl
        · exact .closePool hp ha hE hC
    | push hf _ _ =>
      cases hf with
      | opened | openedBackground => exact Rouses.refl.openSlot
      | registering => exact Rouses.refl.askOpen
      | destroyed id c => exact .askClose c
      | evicting id | draining id => exact .destroy id
      | swept => exact .evict
  | back o hf =>
    cases hf with
    | start => cases o <;> exact .refl
    | askedOpen => exact .refl
    | askedClose => cases o <;> exact .refl
    | opened => exact Rouses.refl.opened o
    | inLine => exact .inLine hd hp o fun i hi => ha i hi _
    | registering => exact Rouses.refl.registering o
    | openedBackground => exact .openedBackground hp o ha
    | destroyed id => exact .destroyed id o
    | evicting rest n => exact .evicting rest n o
    | rested => cases o <;> exact .refl
    | swept i => exact .swept i o
    | reaperEnded => exact Rouses.refl.reaperEnded hp (fun i hi => ha i hi _) hE o
    | draining rest => exact .draining hE rest o
    | backgroundEnded => exact .backgroundEnded o

end Steps

end SqliteAccess.Loop
