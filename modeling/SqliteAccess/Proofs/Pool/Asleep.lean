import SqliteAccess.Proofs.Pool.Line
import SqliteAccess.Proofs.Pool.Sizes

/-!
Whoever is pending in the line of an open pool is asleep in it: callers in line are woken only by what
serves or fails them, or by the end of their own wait.
-/

namespace SqliteAccess.Pool.State

variable {s : State} {a id : Nat} {now : Float}

theorem nextWaiter_awaits {ws : List Waiter} (hn : s.line.Nodup)
    (ht : nextWaiter s.waiters = (ws, some a)) : ∀ w ∈ ws, w.task ≠ a := by
  obtain ⟨xs, hl⟩ := Loop.nextWaiter_line ht
  rw [hl] at hn
  have ha := (List.nodup_cons.mp (List.nodup_append.mp hn).2.1).1
  rintro w hw rfl
  exact ha (List.mem_map_of_mem hw)

theorem checkin_awaits (hn : s.line.Nodup) (ha : (s.checkin id now).1.Awaits a) :
    (s.checkin id now).2 ≠ some a := by
  intro hs
  obtain ⟨w, hw, hwa, _⟩ := ha
  unfold checkin at hs hw
  generalize hx : nextWaiter s.waiters = x at hs hw
  obtain ⟨ws, o⟩ := x
  cases o with
  | none => cases hs
  | some t =>
    cases hs
    exact nextWaiter_awaits hn hx w hw hwa

theorem failFirst_awaits (hn : s.line.Nodup) (ha : s.failFirst.1.Awaits a) :
    s.failFirst.2 ≠ some a := by
  intro hs
  obtain ⟨w, hw, hwa, _⟩ := ha
  exact nextWaiter_awaits hn (Prod.ext rfl hs) w hw hwa

theorem giveUp_awaits {t : Nat} (ha : (s.giveUp t).Awaits a) : a ≠ t := by
  rintro rfl
  obtain ⟨w, hw, hwa, hp⟩ := ha
  obtain ⟨v, _, rfl⟩ := List.mem_map.mp hw
  split at hwa <;> simp_all

end SqliteAccess.Pool.State

namespace SqliteAccess.Loop

theorem Changed.unbounded {p : Nat} {l : State} {s : Pool.State} (h : l.pool? p = some s) :
    Changed p (fun _ => True) (fun _ _ => True) (fun _ _ => True) l l s l.nextConnection [] := .refl h

namespace State

variable {t i : Nat}

theorem wake_tasks_ne (l : State) (hi : i ≠ t) (signal : Option Failure) :
    (l.wake t signal).tasks[i]? = l.tasks[i]? := by
  unfold wake
  split
  · exact List.getElem?_modify_ne _ _ hi.symm
  · rfl

theorem wakeInLine_tasks_ne (l : State) (hi : i ≠ t) (signal : Option Failure) :
    (l.wakeInLine t signal).tasks[i]? = l.tasks[i]? := by
  unfold wakeInLine
  split
  next n _ _ _ _ _ => exact (l.dropTimer n).wake_tasks_ne hi signal
  next => exact l.wake_tasks_ne hi signal

theorem wakeInLine_tasks_self {l : State} {k : Task} {w : Wait} {st : Stack .unit}
    (hk : l.tasks[t]? = some k) (hs : k.status = .paused w st) (signal : Option Failure) :
    (l.wakeInLine t signal).tasks[t]? = some { k with status := .ready signal st } := by
  obtain ⟨status, context, flag, followers⟩ := k
  obtain rfl : status = .paused w st := hs
  have woken : ∀ m : State, m.tasks = l.tasks → (m.wake t signal).tasks[t]? =
      some ⟨.ready signal st, context, flag, followers⟩ := by
    intro m hm
    simp [wake, hm, hk, modifyTask, enqueue]
  unfold wakeInLine
  split
  next n _ _ _ _ _ => exact woken (l.dropTimer n) rfl
  next => exact woken l rfl

theorem failLongestWaiting_tasks_ne {p : Nat} {l : State} {s : Pool.State} (hp : l.pool? p = some s)
    (hi : s.failFirst.2 ≠ some i) (e : Failure) :
    (l.failLongestWaiting p e).tasks[i]? = l.tasks[i]? := by
  unfold failLongestWaiting
  rw [hp]
  dsimp only
  split
  next t ht => exact wakeInLine_tasks_ne (l.modifyPool p _) (by rintro rfl; exact hi ht) (some e)
  next => rfl

theorem failLongestWaiting_tasks_self {p : Nat} {l : State} {s : Pool.State} {k : Task} {w : Wait}
    {st : Stack .unit} (hp : l.pool? p = some s) (hi : s.failFirst.2 = some i)
    (hk : l.tasks[i]? = some k) (hs : k.status = .paused w st) (e : Failure) :
    (l.failLongestWaiting p e).tasks[i]? = some { k with status := .ready (some e) st } := by
  unfold failLongestWaiting
  rw [hp]
  dsimp only
  rw [hi]
  exact wakeInLine_tasks_self (l := l.modifyPool p _) hk hs (some e)

theorem report_tasks (l : State) (r : Log.Record) : (l.report r).tasks = l.tasks := by
  unfold report
  split <;> rfl

theorem spawnOpens_tasks (l : State) (p n : Nat) (hi : i < l.tasks.length) :
    (l.spawnOpens p n).tasks[i]? = l.tasks[i]? := by
  induction n generalizing l with
  | zero => rfl
  | succ n ih =>
    obtain ⟨k, hk⟩ : ∃ k, (l.spawnOpen p).tasks = l.tasks ++ [k] := ⟨_, rfl⟩
    have hlt : i < (l.spawnOpen p).tasks.length := by simpa [hk] using Nat.lt_succ_of_lt hi
    exact (ih (l.spawnOpen p) hlt).trans (by rw [hk, List.getElem?_append_left hi])

theorem grow_tasks (l : State) (p : Nat) (hi : i < l.tasks.length) :
    (l.grow p).1.tasks[i]? = l.tasks[i]? := by
  unfold grow
  split
  · rfl
  · split
    · rfl
    · exact l.spawnOpens_tasks p _ hi

theorem ensureMinimum_tasks (l : State) (p : Nat) (hi : i < l.tasks.length) :
    (l.ensureMinimum p).1.tasks[i]? = l.tasks[i]? := by
  unfold ensureMinimum
  split
  · rfl
  · split
    · rfl
    · exact l.spawnOpens_tasks p _ hi

theorem growThen_tasks {u : Shape} (l : State) (p : Nat) (o : Outcome u) (hi : i < l.tasks.length) :
    (l.growThen p o).1.tasks[i]? = l.tasks[i]? := by
  have hg := l.grow_tasks p hi
  unfold growThen
  generalize l.grow p = x at hg ⊢
  obtain ⟨m, e | _⟩ := x <;> exact hg

end State

/-- The task is asleep in the line of the pool. -/
def State.Dozes (l : State) (p t : Nat) : Prop :=
  ∃ k timer st, l.tasks[t]? = some k ∧ k.status = .paused (.turn p timer) st

namespace State.Dozes

variable {p q t a id n : Nat} {l l' : State} {s s' : Pool.State} {signal : Option Failure}

theorem of_eq (h : l.Dozes p a) (ht : l'.tasks[a]? = l.tasks[a]?) : l'.Dozes p a := by
  obtain ⟨k, timer, st, hk, hs⟩ := h
  exact ⟨k, timer, st, ht.trans hk, hs⟩

theorem ne {k : Task} (h : l.Dozes p a) (hk : l.tasks[t]? = some k)
    (hs : ∀ timer st, k.status ≠ .paused (.turn p timer) st) : a ≠ t := by
  rintro rfl
  obtain ⟨k', timer, st, hk', hs'⟩ := h
  cases hk.symm.trans hk'
  exact hs timer st hs'

theorem lt (h : l.Dozes p a) : a < l.tasks.length := by
  obtain ⟨k, _, _, hk, _⟩ := h
  exact (List.getElem?_eq_some_iff.mp hk).1

theorem modifyTask (h : l.Dozes p a) (ha : a ≠ t) (f : Task → Task) : (l.modifyTask t f).Dozes p a :=
  h.of_eq (List.getElem?_modify_ne _ _ ha.symm)

theorem wake (h : l.Dozes p a) (ha : a ≠ t) (signal : Option Failure) : (l.wake t signal).Dozes p a :=
  h.of_eq (l.wake_tasks_ne ha signal)

theorem wakeInLine (h : l.Dozes p a) (ha : a ≠ t) (signal : Option Failure) :
    (l.wakeInLine t signal).Dozes p a := h.of_eq (l.wakeInLine_tasks_ne ha signal)

theorem report (h : l.Dozes p a) (r : Log.Record) : (l.report r).Dozes p a :=
  h.of_eq (by rw [l.report_tasks r])

theorem spawn {u : Shape} (h : l.Dozes p a) (c : Call u) (fs : List Follower) :
    (l.spawn c fs).1.Dozes p a := h.of_eq (List.getElem?_append_left h.lt)

theorem grow (h : l.Dozes p a) (q : Nat) : (l.grow q).1.Dozes p a := h.of_eq (l.grow_tasks q h.lt)

theorem ensureMinimum (h : l.Dozes p a) (q : Nat) : (l.ensureMinimum q).1.Dozes p a :=
  h.of_eq (l.ensureMinimum_tasks q h.lt)

theorem growThen {u : Shape} (h : l.Dozes p a) (q : Nat) (o : Outcome u) :
    (l.growThen q o).1.Dozes p a := h.of_eq (l.growThen_tasks q o h.lt)

theorem checkin (h : l.Dozes p a) (hp : l.pool? p = some s) (hn : s.line.Nodup)
    (hs' : (l.checkin p id).pool? p = some s') (ha : s'.Awaits a) : (l.checkin p id).Dozes p a := by
  have hc : (l.checkin p id).pool? p = some (s.checkin id l.clock).1 :=
    ((Changed.unbounded hp).checkin id).pool
  cases hc.symm.trans hs'
  have hne := Pool.State.checkin_awaits hn ha
  unfold State.checkin
  rw [hp]
  dsimp only
  split
  next t ht => exact Dozes.wakeInLine (l := l.modifyPool p _) h (by rintro rfl; exact hne ht) none
  next => exact h

theorem failLongestWaiting (h : l.Dozes p a) (hp : l.pool? p = some s) (hn : s.line.Nodup)
    (ha : s.failFirst.1.Awaits a) (e : Failure) : (l.failLongestWaiting p e).Dozes p a :=
  h.of_eq (failLongestWaiting_tasks_ne hp (Pool.State.failFirst_awaits hn ha) e)

theorem startPool (h : l.Dozes p a) (q : Nat) (s : Pool.State) : (l.startPool q s).Dozes p a := by
  unfold State.startPool
  split
  · exact h
  · exact h.spawn (.reap q) []

theorem standInLine (h : l.Dozes p a) (q : Nat) (s : Pool.State) : (l.standInLine q s).1.Dozes p a := by
  have hg := Dozes.grow (l := l.modifyPool q fun s => s.enqueue l.currentTask) h q
  unfold State.standInLine
  dsimp only
  generalize State.grow _ q = x at hg ⊢
  obtain ⟨m, e | _⟩ := x
  · exact hg
  · dsimp only
    split
    · exact hg
    · exact hg
    · split <;> exact hg

theorem acquire (h : l.Dozes p a) (q : Nat) : (l.acquire q).1.Dozes p a := by
  unfold State.acquire
  split
  · exact h
  next s _ =>
    split
    · exact h
    · have hs := h.startPool q s
      dsimp only
      split
      · exact hs
      · split
        · exact hs
        · exact hs.standInLine q s

theorem askOpen (h : l.Dozes p a) : l.askOpen.1.Dozes p a := by
  unfold State.askOpen
  dsimp only
  split <;> exact h

theorem openSlot (h : l.Dozes p a) (q : Nat) : (l.openSlot q).1.Dozes p a := by
  unfold State.openSlot
  split
  · exact h
  · split <;> exact h

theorem opened (h : l.Dozes p a) (q : Nat) (o : Outcome .lease) : (l.opened q o).1.Dozes p a := by
  cases o with
  | error e => exact h.growThen q _
  | ok c =>
    have hm := h.ensureMinimum q
    unfold State.opened
    dsimp only
    generalize l.ensureMinimum q = x at hm ⊢
    obtain ⟨m, e | _⟩ := x <;> exact hm

theorem registering (h : l.Dozes p a) (q : Nat) (o : Outcome .handle) :
    (l.registering q o).1.Dozes p a := by
  unfold State.registering
  cases o with
  | error e => exact h
  | ok c =>
    dsimp only
    split
    · exact h
    · refine Dozes.report ?_ _
      exact h

theorem askClose (h : l.Dozes p a) (c : Pool.Handle) : (l.askClose c).1.Dozes p a := by
  unfold State.askClose
  dsimp only
  split <;> exact h

theorem destroy (h : l.Dozes p a) (q id : Nat) : (l.destroy q id).1.Dozes p a := by
  unfold State.destroy
  split
  · exact h
  · split <;> exact h

theorem destroyed (h : l.Dozes p a) (q id : Nat) (o : Outcome .unit) :
    (l.destroyed q id o).1.Dozes p a := (h.report _).growThen q o

theorem endEviction (h : l.Dozes p a) (n : Nat) : (l.endEviction n).1.Dozes p a := by
  unfold State.endEviction
  split
  · exact h
  · exact h.report _

theorem evictFrom (h : l.Dozes p a) (q : Nat) (s : Pool.State) (n : Nat) (ids : List Nat) :
    (l.evictFrom q s n ids).1.Dozes p a := by
  induction ids with
  | nil => exact h.endEviction n
  | cons id ids ih =>
    unfold State.evictFrom
    split
    · split
      · exact h
      · exact h.endEviction n
    · exact ih

theorem evict (h : l.Dozes p a) (q : Nat) : (l.evict q).1.Dozes p a := by
  unfold State.evict
  split
  · exact h
  · split
    · exact h
    · exact h.evictFrom q _ 0 _

theorem evicting (h : l.Dozes p a) (q : Nat) (rest : List Nat) (n : Nat) (o : Outcome .unit) :
    (l.evicting q rest n o).1.Dozes p a := by
  unfold State.evicting
  split
  · exact h
  · exact h
  · exact h.evictFrom q _ (n + 1) rest

theorem sleep (h : l.Dozes p a) (d : Float) (f : Frame .unit .unit) : (l.sleep d f).1.Dozes p a := by
  unfold State.sleep
  split <;> exact h

theorem reap (h : l.Dozes p a) (q : Nat) : (l.reap q).1.Dozes p a := by
  unfold State.reap
  split
  · exact h
  · split
    · exact h
    · exact h.sleep _ _

theorem swept (h : l.Dozes p a) (q : Nat) (i : Float) (o : Outcome .count) :
    (l.swept q i o).1.Dozes p a := by
  have goOn : ∀ m : State, m.Dozes p a → (m.swept q i (.ok 0)).1.Dozes p a := by
    intro m hm
    have he := hm.ensureMinimum q
    unfold State.swept
    dsimp only
    generalize m.ensureMinimum q = x at he ⊢
    obtain ⟨m', e | _⟩ := x
    · exact he
    · exact he.sleep i _
  unfold State.swept
  dsimp only
  split
  · exact h
  · exact goOn _ (h.report _)
  · exact goOn _ h

theorem inLine (h : l.Dozes p a) (hp : l.pool? p = some s) (hn : s.line.Nodup) (o : Outcome .unit)
    (hs' : (l.inLine p o).1.pool? p = some s') (ha : s'.Awaits a) : (l.inLine p o).1.Dozes p a := by
  unfold State.inLine at hs' ⊢
  dsimp only at hs' ⊢
  split
  · exact h
  · exact h
  next e _ =>
    cases hg : (l.pool? p).bind fun s => s.handedTo? l.currentTask with
    | none => exact h
    | some id =>
      rw [hg] at hs'
      have hl := ((Changed.unbounded hp).modifyPool fun s => s.takeUp l.currentTask).modifyPool
        fun s => s.leaveLine l.currentTask
      have hline : ((s.takeUp l.currentTask).leaveLine l.currentTask).line.Nodup :=
        hn.sublist (List.Sublist.map _ List.eraseP_sublist)
      exact Dozes.checkin (l := (l.modifyPool p _).modifyPool p _) h hl.pool hline hs' ha

theorem openedBackground (h : l.Dozes p a) (hp : l.pool? p = some s) (hn : s.line.Nodup)
    (o : Outcome .lease) (hs' : (l.openedBackground p o).1.pool? p = some s') (ha : s'.Awaits a) :
    (l.openedBackground p o).1.Dozes p a := by
  have hb := (Changed.unbounded hp).modifyPool Pool.State.endBackground
  cases o with
  | error e =>
    simp only [State.openedBackground] at hs' ⊢
    split
    next hc =>
      rw [if_pos hc] at hs'
      have hr := hb.report (poolRecord Log.warning ("Background connection creation failed: " ++ e.text))
      obtain ⟨m, hm, hg⟩ := (hr.failLongestWaiting (e := e) fun _ _ => trivial).growThen
        (Except.ok () : Outcome .unit)
      rw [hm] at hs'
      cases hg.pool.symm.trans hs'
      have hd : (State.report (l.modifyPool p Pool.State.endBackground) (poolRecord Log.warning
          ("Background connection creation failed: " ++ e.text))).Dozes p a :=
        Dozes.report (l := l.modifyPool p _) h _
      exact (hd.failLongestWaiting hr.pool hn ha e).growThen p _
    next => exact h
  | ok c =>
    simp only [State.openedBackground, hb.pool] at hs' ⊢
    split
    · exact h
    next hc =>
      rw [if_neg hc] at hs'
      exact Dozes.checkin (l := l.modifyPool p _) h hb.pool hn hs' ha

theorem carryOn {u : Shape} (h : l.Dozes p a) (ha : a ≠ t) (n : Next u) (k : Stack u) :
    (l.carryOn t n k).Dozes p a := by
  cases n with
  | give | call | jump => exact h
  | pause | again => exact h.modifyTask ha _

theorem followAll (h : l.Dozes p a) {fs : List Follower} (hf : ∀ r, .resume r ∉ fs) :
    (fs.foldl (fun l f => l.follow t f) l).Dozes p a := by
  induction fs generalizing l with
  | nil => exact h
  | cons f fs ih =>
    refine ih ?_ fun r hr => hf r (List.mem_cons_of_mem f hr)
    cases f with
    | dropBackground | count => exact h
    | resume r => exact absurd List.mem_cons_self (hf r)

theorem finish {u : Shape} (h : l.Dozes p a) (ha : a ≠ t) (o : Outcome u)
    (hf : ∀ k, l.tasks[t]? = some k → ∀ r, .resume r ∉ k.followers) : (l.finish t o).Dozes p a := by
  refine Dozes.followAll (l := { l.modifyTask t _ with running := none }) (h.modifyTask ha _) ?_
  cases hk : l.tasks[t]? with
  | none => simp
  | some k => exact hf k hk

end State.Dozes

section Steps

variable {p t a : Nat} {l l' : State} {s s' : Pool.State} {u : Shape} {w : Work u} {d : Call u}
  {k : Stack u}

theorem Work.perform_dozes (hw : w.Of p d) (hk : k.Holds p d) (hp : l.pool? p = some s)
    (hn : s.line.Nodup) (hc : ¬ w.Closing) (hs' : (w.perform l).1.pool? p = some s')
    (ha : s'.Awaits a) (hl : l.Dozes p a) : (w.perform l).1.Dozes p a := by
  cases hw with
  | call =>
    cases hk with
    | done hd =>
      cases hd with
      | acquire => exact hl.acquire p
      | openBackground => exact hl
      | destroy id => exact hl.destroy p id
      | evict => exact hl.evict p
      | reap => exact hl.reap p
      | closePool => exact absurd trivial hc
    | push hf _ _ =>
      cases hf with
      | opened | openedBackground => exact hl.openSlot p
      | registering => exact hl.askOpen
      | destroyed id c => exact hl.askClose c
      | evicting id | draining id => exact hl.destroy p id
      | swept => exact hl.evict p
  | back o hf =>
    cases hf with
    | start => cases o <;> exact hl
    | askedOpen => exact hl
    | askedClose => cases o <;> exact hl
    | opened => exact hl.opened p o
    | inLine => exact hl.inLine hp hn o hs' ha
    | registering => exact hl.registering p o
    | openedBackground => exact hl.openedBackground hp hn o hs' ha
    | destroyed id => exact hl.destroyed p id o
    | evicting rest n => exact hl.evicting p rest n o
    | rested => cases o <;> exact hl
    | swept i => exact hl.swept p i o
    | reaperEnded | draining | backgroundEnded => exact absurd trivial hc

theorem Sound.not_closing {T N N' : Nat} {cs : List (Call .unit)} {n : Next u} (h : Sound p l s)
    (hr : l.running = some (w.on t k)) (ha : Act p t T N s w s' N' cs n) (hopen : s'.closed = false) :
    ¬ w.Closing := by
  have hs := ha.was_open hopen
  intro hc
  cases w with
  | call c =>
    cases ha
    case shutBefore hcl => cases hs.symm.trans hcl
    case shuts | shutsAtOnce | shutFails => cases hopen
    all_goals exact hc
  | back f o =>
    have hpos : Weight.shutting.work (.back f o) = 1 := by
      cases f <;> first | rfl | cases hc
    have hof := h.of_on (W := .shutting) hr
    have := h.shutting hs t
    omega

theorem State.carryOn_pool? (l : State) (t : Nat) (n : Next u) (k : Stack u) (p : Nat) :
    (l.carryOn t n k).pool? p = l.pool? p := by
  cases n <;> rfl

theorem Sound.dozes_ne_running (h : Sound p l s) {r : Running} (hr : l.running = some r)
    (hl : l.Dozes p a) : a ≠ r.task := by
  obtain ⟨_, x, hx, hs⟩ := h.running r hr
  exact hl.ne hx fun _ _ hp => by cases hs.symm.trans hp

theorem State.advance_dozes (h : Sound p l s) (hn : s.line.Nodup) {r : Running}
    (hr : l.running = some r) (hs' : (l.advance r).pool? p = some s') (hopen : s'.closed = false)
    (ha : s'.Awaits a) (hl : l.Dozes p a) : (l.advance r).Dozes p a := by
  have hne := h.dozes_ne_running hr hl
  have work : ∀ {u : Shape} {w : Work u} {d : Call u} {st : Stack u}, r = w.on r.task st →
      w.Of p d → st.Holds p d → (l.advance r).Dozes p a := by
    intro u w d st hw hd hst
    rw [hw, State.advance_on] at hs' ⊢
    rw [State.carryOn_pool?] at hs'
    obtain ⟨s₁, cs, hact, hc⟩ := h.performs (hw ▸ hr) hd hst
    cases hc.pool.symm.trans hs'
    have hcl := h.not_closing (hw ▸ hr) hact hopen
    exact (Work.perform_dozes hd hst h.pool hn hcl hc.pool ha hl).carryOn hne _ _
  have hf := (h.running r hr).1
  obtain ⟨t, u, control, st⟩ := r
  cases control with
  | call c => exact work (w := .call c) rfl (.call c) hf
  | give o =>
    cases st with
    | push f st =>
      cases hf with
      | push hrest hst => exact work (w := .back f o) rfl (.back o hrest) hst
    | done =>
      refine hl.finish hne o fun x hx i hi => ?_
      -- Whoever waits for a task to end waits for the sweep to, once the pool is closed.
      have hc := (h.followers t x hx i hi).1
      have hp := (h.finish o hr).pool
      cases hp.symm.trans hs'
      cases hc.symm.trans hopen

theorem State.wakeInLine_pools (l : State) (t : Nat) (signal : Option Failure) :
    (l.wakeInLine t signal).pools = l.pools := by
  unfold State.wakeInLine
  split
  next n _ _ _ _ _ => exact (l.dropTimer n).wake_pools t signal
  next => exact l.wake_pools t signal

theorem State.Dozes.ne_giveUp {q : Nat} {timer : Option Nat} {x : Task} {st : Stack .unit}
    (hl : l.Dozes p a) (hx : l.tasks[t]? = some x) (hs : x.status = .paused (.turn q timer) st)
    (hs' : (l.modifyPool q fun s => s.giveUp t).pool? p = some s') (ha : s'.Awaits a) : a ≠ t := by
  by_cases hq : q = p
  · subst hq
    cases hp : l.pool? q with
    | none =>
      simp only [State.pool?] at hp
      simp [State.pool?, State.modifyPool, hp] at hs'
    | some s =>
      have hg := ((Changed.unbounded hp).modifyPool fun s => s.giveUp t).pool
      cases hg.symm.trans hs'
      exact Pool.State.giveUp_awaits ha
  · refine hl.ne hx fun timer' st' he => hq ?_
    cases hs.symm.trans he
    rfl

theorem State.ring_dozes (l : State) (n : Nat) (hs' : (l.ring n).pool? p = some s')
    (ha : s'.Awaits a) (hl : l.Dozes p a) : (l.ring n).Dozes p a := by
  unfold State.ring at hs' ⊢
  generalize l.tasks.findIdx? _ = owner at hs' ⊢
  cases owner with
  | none => exact hl
  | some t =>
    dsimp only at hs' ⊢
    split
    next q timer st _ _ _ hk =>
      simp only [hk] at hs'
      rw [State.pool?, State.wake_pools] at hs'
      exact State.Dozes.wake (l := l.modifyPool q _) hl (hl.ne_giveUp hk rfl hs' ha) _
    next hne =>
      refine hl.wake ?_ none
      rintro rfl
      obtain ⟨⟨_, _, _, _⟩, timer, st, hk, rfl⟩ := hl
      exact hne _ _ _ _ _ _ hk

theorem State.perform_dozes (l : State) (j : Job) (hs' : (l.perform j).pool? p = some s')
    (ha : s'.Awaits a) (hl : l.Dozes p a) : (l.perform j).Dozes p a := by
  cases j with
  | step t =>
    rw [State.perform, State.stepTask]
    split
    next hk =>
      exact hl.modifyTask (hl.ne hk (by simp)) _
    next => exact hl
  | ring n => exact l.ring_dozes n hs' ha hl
  | dropBackground => exact hl
  | count t ended =>
    rw [State.perform, State.count]
    split
    next hk =>
      have hne := hl.ne hk (by simp)
      have hm := hl.modifyTask hne
      dsimp only
      split
      · exact (hm _).wake hne _
      · exact hm _
    next => exact hl
  | notice t =>
    rw [State.perform, State.notice]
    split
    next hk => exact hl.wake (hl.ne hk (by simp)) _
    next => exact hl

theorem State.step_dozes (h : Sound p l s) (hn : s.line.Nodup) (hst : l.step? = some l')
    (hs' : l'.pool? p = some s') (hopen : s'.closed = false) (ha : s'.Awaits a) (hl : l.Dozes p a) :
    l'.Dozes p a := by
  have job : ∀ m : State, m.Dozes p a → m.nextJob = some l' → l'.Dozes p a := by
    intro m hm hj
    unfold State.nextJob at hj
    split at hj
    next => cases hj
    next =>
      cases hj
      exact State.perform_dozes _ _ hs' ha hm
  unfold State.step? at hst
  split at hst
  next r hr =>
    cases hst
    exact State.advance_dozes h hn hr hs' hopen ha hl
  next =>
    split at hst
    · exact job l.startTurn hl hst
    · exact job l hl hst

theorem State.Dozes.requestCancel (hl : l.Dozes p a) (t : Nat) : (l.requestCancel t).Dozes p a := by
  by_cases hat : a = t
  · subst hat
    obtain ⟨x, timer, st, hx, hs⟩ := hl
    exact ⟨{ x with cancelRequested := true }, timer, st,
      by simp [State.requestCancel, State.modifyTask, hx], hs⟩
  · exact hl.modifyTask hat _

theorem State.Dozes.abandonWait (hl : l.Dozes p a) (t : Nat) (w : Wait) :
    (l.abandonWait t w).Dozes p a := by
  cases w <;> exact hl

theorem State.cancel_dozes (h : Sound p l s) (hopen : s.closed = false) (t : Nat)
    (hs' : (l.cancel t).pool? p = some s') (ha : s'.Awaits a) (hl : l.Dozes p a) :
    (l.cancel t).Dozes p a := by
  unfold State.cancel at hs' ⊢
  cases hlen : l.tasks.length with
  | zero => exact hl.requestCancel t
  | succ depth =>
    rw [hlen] at hs'
    unfold State.cancelWithin at hs' ⊢
    cases hx : l.tasks[t]? with
    | none => exact hl
    | some x =>
      rw [hx] at hs'
      have alone : ∀ w st, x.status = .paused w st → ¬ w.Passes := by
        intro w st hs hw
        have hc := h.closed_of_shutting (h.passes_shutting hx ⟨w, st, hs, hw⟩)
        cases hc.symm.trans hopen
      obtain ⟨status, context, flag, followers⟩ := x
      cases status with
      | finished => exact hl
      | ready | running => exact hl.requestCancel t
      | paused w st =>
        have abandoned : ∀ m : State, m = (l.abandonWait t w).wakeInLine t (some .cancelled) →
            m.pool? p = some s' → m.Dozes p a := by
          rintro m rfl hm
          rw [State.pool?, State.wakeInLine_pools] at hm
          refine (hl.abandonWait t w).wakeInLine ?_ _
          cases w with
          | turn => exact hl.ne_giveUp hx rfl hm ha
          | _ => exact hl.ne hx (by simp)
        cases w with
        | task | tasks => exact absurd trivial (alone _ st rfl)
        | _ => exact abandoned _ rfl hs'

theorem State.after_dozes (h : Sound p l s) (hn : s.line.Nodup) (hopen : s.closed = false) {e : Event}
    (he : e.Offered p) (hs' : (l.after e).pool? p = some s') (ha : s'.Awaits a) (hl : l.Dozes p a) :
    (l.after e).Dozes p a := by
  cases e with
  | enter c => exact hl.of_eq (List.getElem?_append_left hl.lt)
  | spawn c => exact hl.spawn c []
  | release q id =>
    cases he
    simp only [State.after, State.release, h.pool, hopen, Bool.false_eq_true, if_false] at hs' ⊢
    split
    · exact hl
    next hr =>
      rw [hr] at hs'
      exact hl.checkin h.pool hn hs' ha
  | cancel t => exact State.cancel_dozes h hopen t hs' ha hl
  | answerOpen t signal =>
    unfold State.after State.answerOpen
    dsimp only
    split
    next n _ _ _ _ hk =>
      exact State.Dozes.wake (l := l.modifyOpener _) hl (hl.ne hk (by simp)) signal
    next => exact hl
  | answerClose t signal =>
    unfold State.after State.answerClose
    dsimp only
    split
    next c _ _ _ _ hk =>
      exact State.Dozes.wake (l := l.modifyOpener _) hl (hl.ne hk (by simp)) signal
    next => exact hl
  | driver o => exact hl
  | tick now => exact hl

def Asleep (p : Nat) (l : State) (s : Pool.State) : Prop :=
  (∀ e, Config.optionalSeconds s.settings.acquireTimeoutMs ≠ .error e) → ∀ a, s.Awaits a → l.Dozes p a

variable {X Y : Prop} {v : Option Event} {T N N' m M : Nat} {cs : List (Call .unit)} {n : Next u}

theorem Act.newly (h : Act p t T N s w s' N' cs n) (hz : s.settings.Sized m M)
    (hread : ∀ e, Config.optionalSeconds s.settings.acquireTimeoutMs ≠ .error e) (ha : s'.Awaits a) :
    s.Awaits a ∨ a = t ∧ ∃ timer f, n = .pause (.turn p timer) f := by
  rcases h.orderly with ho | ⟨hwork, -, -, ho⟩
  · exact .inl (ho.pending a ha)
  by_cases hat : a = t
  · cases h
    case lines h₁ hl =>
      subst h₁
      cases hl with
      | waits timer => exact .inr ⟨hat, timer, _, rfl⟩
      | givesUp => exact absurd hat (Pool.State.giveUp_awaits ha)
      | fails e he =>
        rcases he with he | he
        · cases (Pool.State.growth_eq (s := (s.awake T).enqueue t) hz).symm.trans he
        · exact absurd he (hread e)
    case takes ht =>
      rw [(Pool.State.takeIdle?_eq ht).2] at ha
      exact .inl ha
    case opens | refused | started | neverStarted => exact .inl ha
    all_goals cases hwork
  · exact .inl ((ho.pending a ha).of_enqueue hat)

theorem State.Dozes.pause {f : Frame .unit u} {x : Task} (hx : l.tasks[t]? = some x)
    (timer : Option Nat) (k : Stack u) :
    (l.carryOn t (.pause (.turn p timer) f) k).Dozes p t :=
  ⟨{ x with status := .paused (.turn p timer) (.push f k) }, timer, _,
    by simp [State.carryOn, State.modifyTask, hx], rfl⟩

theorem Move.newly (hm : Move p X Y v l l' s s') (h : Sound p l s) (hz : s.settings.Sized m M)
    (hread : ∀ e, Config.optionalSeconds s.settings.acquireTimeoutMs ≠ .error e) (ha : s'.Awaits a) :
    s.Awaits a ∨ l'.Dozes p a := by
  cases hm with
  | work hr _ _ hact hc heq =>
    subst heq
    rcases hact.newly hz hread ha with ho | ⟨rfl, timer, f, rfl⟩
    · exact .inl ho
    · obtain ⟨_, x, hx, _⟩ := h.running _ hr
      rw [Work.on_task] at hx
      obtain ⟨y, hy, _⟩ := hc.task hx
      exact .inr (.pause hy timer _)
  | aside _ _ ha' => exact .inl (ha'.orderly.pending a ha)

theorem Asleep.step {allowed : State → Event → Prop} (h : Sound p l s) (hl : Lined p l s)
    (hz : s.settings.Sized m M) (has : Asleep p l s) (hst : Step p allowed l l')
    (hm : Move p X Y v l l' s s') (h' : Sound p l' s') (hopen : s'.closed = false) :
    Asleep p l' s' := by
  intro hread a ha
  rw [hm.settings] at hread
  have hn := (List.nodup_append.mp hl.once).1
  rcases hm.newly h hz hread ha with haw | hd
  · have hd := has hread a haw
    cases hst with
    | loop hl' => exact State.step_dozes h hn hl' h'.pool hopen ha hd
    | event e _ he _ => exact State.after_dozes h hn (hm.was_open hopen) he h'.pool ha hd
  · exact hd

end Steps

end SqliteAccess.Loop
