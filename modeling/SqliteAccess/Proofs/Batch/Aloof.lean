import SqliteAccess.Proofs.Batch.Hearing
import SqliteAccess.Proofs.Pool.Asleep

/-!
Tasks that nobody has anything to tell. A task that stands in no line and waits for no other task is told
of no failure but a cancellation, whatever calls others make and whether or not they may make them.
-/

namespace SqliteAccess.Loop

open Access (Database)
open SqliteAccess.Pool (Handle Lease)

def State.status? (l : State) (t : Nat) : Option Status := (l.tasks[t]?).map (·.status)

def State.places (l : State) (p t : Nat) : Nat := ((l.pool? p).map fun s => s.queue.count t).getD 0

def Status.Listens : Status → Prop
  | .ready _ _ | .paused .held _ => True
  | _ => False

structure Aloof (t : Nat) (l m : State) : Prop where
  places : ∀ p, m.places p t ≤ l.places p t
  awaited : m.Awaited t → l.Awaited t
  ready : ∀ {signal st}, l.status? t = some (.ready signal st) → m.status? t = some (.ready signal st)
  held : ∀ {st}, l.status? t = some (.paused .held st) → m.status? t = some (.paused .held st) ∨
    ∃ signal, m.status? t = some (.ready signal st) ∧
      (signal = none ∨ signal = some .cancelled ∨ ∃ p, 0 < l.places p t)

def State.Clear (l : State) (t : Nat) : Prop := (∀ p, l.places p t = 0) ∧ ¬ l.Awaited t

def Work.Joins : {u : Shape} → Work u → Prop
  | _, .call (.acquire _) | _, .call (.closePool _) => True
  | _, _ => False

variable {l m n l' : State} {t i p M : Nat} {u : Shape} {s s' : Pool.State}

theorem Undisturbed.currentTask (h : Undisturbed l m) : m.currentTask = l.currentTask := by
  rw [State.currentTask, State.current?, h.running]
  rfl

namespace Aloof

theorem refl (t : Nat) (l : State) : Aloof t l l := ⟨fun _ => le_rfl, id, id, .inl⟩

theorem trans (h : Aloof t l m) (h' : Aloof t m n) : Aloof t l n := by
  refine ⟨fun p => (h'.places p).trans (h.places p), fun ha => h.awaited (h'.awaited ha),
    fun hr => h'.ready (h.ready hr), fun hh => ?_⟩
  rcases h.held hh with hm | ⟨signal, hm, hs⟩
  · rcases h'.held hm with hn | ⟨signal, hn, hs⟩
    · exact .inl hn
    · exact .inr ⟨signal, hn, hs.imp_right (Or.imp_right fun ⟨p, hp⟩ => ⟨p, hp.trans_le (h.places p)⟩)⟩
  · exact .inr ⟨signal, h'.ready hm, hs⟩

theorem clear (h : Aloof t l m) (hc : l.Clear t) : m.Clear t :=
  ⟨fun p => Nat.le_zero.mp (hc.1 p ▸ h.places p), fun ha => hc.2 (h.awaited ha)⟩

theorem quiet (h : Aloof t l m) (hp : n.pools = m.pools) (ht : n.tasks = m.tasks) : Aloof t l n := by
  have hstatus : n.status? t = m.status? t := by rw [State.status?, ht]; rfl
  refine h.trans ⟨fun p => ?_, ?_, fun hr => hstatus.trans hr, fun hh => .inl (hstatus.trans hh)⟩
  · rw [State.places, State.places, State.pool?, hp]
    rfl
  · rintro ⟨j, x, hx, hf⟩
    exact ⟨j, x, ht ▸ hx, hf⟩

theorem places_modifyPool (m : State) (p : Nat) {f : Pool.State → Pool.State}
    (hf : ∀ s, m.pool? p = some s → (f s).queue.count t ≤ s.queue.count t) (q : Nat) :
    (m.modifyPool p f).places q t ≤ m.places q t := by
  unfold State.places State.pool? State.modifyPool
  by_cases hq : p = q
  · subst hq
    cases hp : m.pools[p]? with
    | none => simp [hp]
    | some s => simpa [hp] using hf s hp
  · simp [hq]

theorem modifyPool (h : Aloof t l m) (p : Nat) {f : Pool.State → Pool.State}
    (hf : ∀ s, m.pool? p = some s → (f s).queue.count t ≤ s.queue.count t) : Aloof t l (m.modifyPool p f) :=
  h.trans ⟨places_modifyPool m p hf, id, id, .inl⟩

theorem tweakPool (h : Aloof t l m) (p : Nat) {f : Pool.State → Pool.State} (hf : ∀ s, (f s).queue = s.queue) :
    Aloof t l (m.modifyPool p f) :=
  h.modifyPool p fun s _ => by rw [hf s]

theorem setPool (h : Aloof t l m) (hp : m.pool? p = some s) (hs : s'.queue.Subperm s.queue) :
    Aloof t l (m.modifyPool p fun _ => s') :=
  h.modifyPool p fun _ hp' => by
    cases hp.symm.trans hp'
    exact hs.count_le t

theorem modifyTask (h : Aloof t l m) (i : Nat) {f : Task → Task} (hf : ∀ k, m.tasks[i]? = some k →
    (i = t → k.status.Listens → (f k).status = k.status) ∧
      (.resume t ∈ (f k).followers → .resume t ∈ k.followers)) :
    Aloof t l (m.modifyTask i f) := by
  have status : ∀ x, x.Listens → m.status? t = some x → (m.modifyTask i f).status? t = some x := by
    intro x hx hm
    obtain ⟨k, hk, rfl⟩ := Option.map_eq_some_iff.mp hm
    unfold State.status? State.modifyTask
    by_cases hi : i = t
    · subst hi
      simpa [hk] using (hf k hk).1 rfl hx
    · simp [hi, hk]
  refine h.trans ⟨fun _ => le_rfl, ?_, status _ trivial, fun hh => .inl (status _ trivial hh)⟩
  rintro ⟨j, z, hz, hr⟩
  rcases modify_cases hz with ⟨_, hz⟩ | ⟨rfl, y, hy, rfl⟩
  · exact ⟨j, z, hz, hr⟩
  · exact ⟨j, y, hy, (hf y hy).2 hr⟩

theorem tweakTask (h : Aloof t l m) (i : Nat) {f : Task → Task} (hs : ∀ k, (f k).status = k.status)
    (hf : ∀ k, (f k).followers = k.followers) : Aloof t l (m.modifyTask i f) :=
  h.modifyTask i fun k _ => ⟨fun _ _ => hs k, fun hr => hf k ▸ hr⟩

theorem enqueue (h : Aloof t l m) (j : Job) : Aloof t l (m.enqueue j) := h.quiet rfl rfl

theorem dropTimer (h : Aloof t l m) (r : Nat) : Aloof t l (m.dropTimer r) := h.quiet rfl rfl

theorem addTimer (h : Aloof t l m) (d : Float) (i : Nat) : Aloof t l (m.addTimer d i).1 := h.quiet rfl rfl

theorem report (h : Aloof t l m) (r : Log.Record) : Aloof t l (m.report r) := by
  unfold State.report
  split
  · exact h.quiet rfl rfl
  · exact h

theorem reportAll (h : Aloof t l m) (rs : List Log.Record) : Aloof t l (m.reportAll rs) := by
  unfold State.reportAll
  induction rs generalizing m with
  | nil => exact h
  | cons r rs ih => exact ih (h.report r)

theorem wake (h : Aloof t l m) (i : Nat) {signal : Option Failure} (hs : i = t → signal = none ∨
    signal = some .cancelled ∨ (∃ p, 0 < l.places p t) ∨ ∀ st, m.status? t ≠ some (.paused .held st)) :
    Aloof t l (m.wake i signal) := by
  unfold State.wake
  split
  next w st c r fs hk =>
    refine Aloof.enqueue ?_ _
    by_cases hi : i = t
    · subst hi
      have hat : m.status? i = some (.paused w st) := by simp [State.status?, hk]
      refine ⟨h.places, fun ha => h.awaited ?_, fun hr => ?_, fun hh => ?_⟩
      · obtain ⟨j, z, hz, hr⟩ := ha
        rcases modify_cases hz with ⟨_, hz⟩ | ⟨rfl, y, hy, rfl⟩
        · exact ⟨j, z, hz, hr⟩
        · exact ⟨j, y, hy, hr⟩
      · cases hat.symm.trans (h.ready hr)
      · rcases h.held hh with hm | ⟨signal', hm, _⟩
        · cases hat.symm.trans hm
          refine .inr ⟨signal, by simp [State.status?, State.modifyTask, hk], ?_⟩
          rcases hs rfl with hs | hs | hs | hs
          · exact .inl hs
          · exact .inr (.inl hs)
          · exact .inr (.inr hs)
          · exact absurd hm (hs _)
        · cases hat.symm.trans hm
    · exact h.modifyTask i fun _ _ => ⟨fun he => absurd he hi, id⟩
  next => exact h

theorem wakeInLine (h : Aloof t l m) (i : Nat) {signal : Option Failure} (hs : i = t → signal = none ∨
    signal = some .cancelled ∨ (∃ p, 0 < l.places p t) ∨ ∀ st, m.status? t ≠ some (.paused .held st)) :
    Aloof t l (m.wakeInLine i signal) := by
  unfold State.wakeInLine
  split
  · exact (h.dropTimer _).wake i hs
  · exact h.wake i hs

theorem append (h : Aloof t l m) {k : Task} (hf : .resume t ∉ k.followers) :
    Aloof t l { m with tasks := m.tasks ++ [k] } := by
  have status : ∀ x, m.status? t = some x → State.status? { m with tasks := m.tasks ++ [k] } t = some x := by
    intro x hm
    obtain ⟨y, hy, rfl⟩ := Option.map_eq_some_iff.mp hm
    simp [State.status?, List.getElem?_append_left (List.getElem?_eq_some_iff.mp hy).1, hy]
  refine h.trans ⟨fun _ => le_rfl, ?_, status _, fun hh => .inl (status _ hh)⟩
  rintro ⟨j, z, hz, hr⟩
  rcases append_cases hz with hz | ⟨_, rfl⟩
  · exact ⟨j, z, hz, hr⟩
  · exact absurd hr hf

theorem spawn (h : Aloof t l m) {v : Shape} (c : Call v) {fs : List Follower} (hf : .resume t ∉ fs) :
    Aloof t l (m.spawn c fs).1 := by
  have ha := h.append
    (k := { status := .ready none (.push (.start c) (.done v)), context := m.context, followers := fs }) hf
  exact ha.quiet rfl rfl

theorem setContext (h : Aloof t l m) (c : Option Log.CorrelationId) : Aloof t l (m.setContext c) := by
  unfold State.setContext
  split
  · exact h.quiet rfl rfl
  · exact h.tweakTask _ (fun _ => rfl) fun _ => rfl

theorem enterScope (h : Aloof t l m) : Aloof t l m.enterScope.1 := by
  have hf : Aloof t l { m with fresh := (Log.Scope.enter m.context none m.fresh).2 } := h.quiet rfl rfl
  exact hf.setContext _

theorem leaveScope (h : Aloof t l m) (restores : Bool) : Aloof t l (m.leaveScope restores) := by
  unfold State.leaveScope
  split
  · exact h.setContext none
  · exact h

theorem setLock (h : Aloof t l m) (M : Nat) (f : Access.Lock → Access.Lock × Option Nat) :
    Aloof t l (m.setLock M f) := by
  unfold State.setLock
  split
  · exact h
  next k _ =>
    have hm : Aloof t l (m.modifyManager M fun k' => { k' with lock := (f k.lock).1 }) := h.quiet rfl rfl
    dsimp only
    split
    · exact hm.wake _ fun _ => .inl rfl
    · exact hm

theorem spawnBackground (h : Aloof t l m) (p : Nat) (c : Call .unit) : Aloof t l (m.spawnBackground p c) :=
  (h.spawn c (by simp)).tweakPool p fun _ => rfl

theorem spawnOpens (h : Aloof t l m) (p k : Nat) : Aloof t l (m.spawnOpens p k) := by
  induction k generalizing m with
  | zero => exact h
  | succ k ih =>
    have hr : Aloof t l (m.modifyPool p Pool.State.reserveBackground) := h.tweakPool p fun _ => rfl
    exact ih (hr.spawnBackground p (.openBackground p))

theorem grow (h : Aloof t l m) (p : Nat) : Aloof t l (m.grow p).1 := by
  unfold State.grow
  split
  · exact h
  · split
    · exact h
    · exact h.spawnOpens p _

theorem ensureMinimum (h : Aloof t l m) (p : Nat) : Aloof t l (m.ensureMinimum p).1 := by
  unfold State.ensureMinimum
  split
  · exact h
  · split
    · exact h
    · exact h.spawnOpens p _

theorem growThen (h : Aloof t l m) (p : Nat) (o : Outcome u) : Aloof t l (m.growThen p o).1 := by
  have hg := h.grow p
  unfold State.growThen
  generalize m.grow p = x at hg ⊢
  obtain ⟨m', e | _⟩ := x <;> exact hg

theorem checkin (h : Aloof t l m) (p id : Nat) : Aloof t l (m.checkin p id) := by
  unfold State.checkin
  split
  · exact h
  next s hs =>
    have ho : s.Orderly (fun _ => False) (s.checkin id m.clock).1 := .checkin (s.checkin_spec id m.clock)
    have hx := h.setPool hs ho.queue
    dsimp only
    split
    · exact hx.wakeInLine _ fun _ => .inl rfl
    · exact hx

theorem places_pos (hp : m.pool? p = some s) (ht : t ∈ s.line) : 0 < m.places p t := by
  rw [State.places, hp]
  exact List.count_pos_iff.mpr (List.mem_append_left _ ht)

theorem failLine (h : Aloof t l m) (hp : m.pool? p = some s) (hs : s'.queue.Subperm s.queue) {ts : List Nat}
    (hts : ∀ i ∈ ts, i ∈ s.line) (e : Failure) :
    Aloof t l (ts.foldl (fun l i => l.wakeInLine i (some e)) (m.modifyPool p fun _ => s')) := by
  refine h.trans ?_
  have hx := (refl t m).setPool hp hs
  generalize m.modifyPool p (fun _ => s') = m' at hx ⊢
  induction ts generalizing m' with
  | nil => exact hx
  | cons i ts ih =>
    refine ih (fun j hj => hts j (.tail _ hj)) _ (hx.wakeInLine i ?_)
    rintro rfl
    exact .inr (.inr (.inl ⟨p, places_pos hp (hts i List.mem_cons_self)⟩))

theorem failLongestWaiting (h : Aloof t l m) (p : Nat) (e : Failure) : Aloof t l (m.failLongestWaiting p e) := by
  unfold State.failLongestWaiting
  split
  · exact h
  next s hs =>
    have ho : s.Orderly (fun _ => False) s.failFirst.1 := .failFirst s
    dsimp only
    split
    next i hi =>
      have hnext : Pool.nextWaiter s.waiters = (s.failFirst.1.waiters, some i) := Prod.ext rfl hi
      have hin : ∀ j ∈ [i], j ∈ s.line := by
        obtain ⟨xs, hl⟩ := nextWaiter_line hnext
        intro j hj
        rw [hl, List.mem_singleton.mp hj]
        simp
      exact h.failLine hs ho.queue hin e
    next => exact h.setPool hs ho.queue

theorem startPool (h : Aloof t l m) (p : Nat) (s : Pool.State) : Aloof t l (m.startPool p s) := by
  unfold State.startPool
  split
  · exact h
  · exact (h.spawn (.reap p) (by simp)).tweakPool p fun _ => rfl

theorem release (h : Aloof t l m) (p id : Nat) : Aloof t l (m.release p id).1 := by
  unfold State.release
  split
  · exact h
  · split
    · exact h
    · split
      · have hf : Aloof t l (m.modifyPool p fun s => s.setFree id) := h.tweakPool p fun _ => rfl
        exact hf.spawnBackground p (.destroy p id)
      · exact h.checkin p id

theorem abandonWait (h : Aloof t l m) (i : Nat) (w : Wait) : Aloof t l (m.abandonWait i w) := by
  cases w with
  | turn p => exact h.tweakPool p fun s => by rw [Pool.State.queue, (Pool.State.Lull.giveUp s i).line_eq]; rfl
  | givenUp | task | tasks => exact h
  | _ => exact h.quiet rfl rfl

theorem cancelWithin (h : Aloof t l m) (i depth : Nat) : Aloof t l (m.cancelWithin i depth) := by
  have request : ∀ {m : State}, Aloof t l m → ∀ i, Aloof t l (m.requestCancel i) := fun h i =>
    h.tweakTask i (fun _ => rfl) fun _ => rfl
  induction depth generalizing m i with
  | zero => exact request h i
  | succ depth ih =>
    have hall : ∀ (ts : List Nat) {m : State}, Aloof t l m →
        Aloof t l (ts.foldl (fun l k => l.cancelWithin k depth) m) := by
      intro ts
      induction ts with
      | nil => exact fun h => h
      | cons k ts ih' => exact fun h => ih' (ih h k)
    unfold State.cancelWithin
    split
    · exact h
    next k hk =>
      split
      · exact h
      · exact request h i
      · exact request h i
      · split
        · exact request h i
        · exact ih h _
      next ts b st hs =>
        refine hall _ (h.modifyTask i fun k' hk' => ⟨fun _ hl => ?_, id⟩)
        cases hk.symm.trans hk'
        rw [hs] at hl
        cases hl
      · exact (h.abandonWait i _).wakeInLine i fun _ => .inr (.inl rfl)

theorem cancel (h : Aloof t l m) (i : Nat) : Aloof t l (m.cancel i) := h.cancelWithin i _

theorem awaitTasks (h : Aloof t l m) (ts : List Nat) (f : Frame .unit .unit) : Aloof t l (m.awaitTasks ts f).1 := by
  unfold State.awaitTasks
  dsimp only
  generalize m.currentTask = i
  induction ts generalizing m with
  | nil => exact h
  | cons k ts ih =>
    refine ih ?_
    dsimp only
    split
    · exact h.enqueue _
    · exact h.modifyTask k fun _ _ => ⟨fun _ _ => rfl, by simp⟩

theorem releaseSingle (h : Aloof t l m) (M id : Nat) : Aloof t l (m.releaseSingle M id).1 := by
  have hf : Aloof t l (m.setStandaloneUse id false) := h.quiet rfl rfl
  unfold State.releaseSingle
  dsimp only
  split
  · exact h
  · split
    · split
      · exact hf.setLock M Access.Lock.release
      · exact hf
    · exact h

theorem giveBack (h : Aloof t l m) (M : Nat) (lease : Option Lease) : Aloof t l (m.giveBack M lease).1 := by
  unfold State.giveBack
  split
  · exact h
  · split
    · exact h.release _ _
    · exact h.releaseSingle M _

theorem endBlock (h : Aloof t l m) (M : Nat) (lease : Option Lease) (o : Outcome u) :
    Aloof t l (m.endBlock M lease o).1 := by
  obtain ⟨o', ho⟩ := m.endBlock_eq M lease o
  rw [ho]
  exact h.giveBack M lease

theorem endCall (h : Aloof t l m) (M : Nat) (lease : Option Lease) (restores : Bool) (o : Outcome u) :
    Aloof t l (m.endCall M lease restores o).1 := (h.endBlock M lease o).leaveScope restores

theorem standInLine (h : Aloof t l m) (ht : m.currentTask ≠ t) (p : Nat) (s : Pool.State) :
    Aloof t l (m.standInLine p s).1 := by
  have hg : Aloof t l ((m.modifyPool p fun s => s.enqueue m.currentTask).grow p).1 := by
    refine (h.modifyPool p fun s _ => ?_).grow p
    rw [(Pool.State.queue_enqueue s m.currentTask).count_eq, List.count_cons_of_ne ht]
  unfold State.standInLine
  dsimp only
  generalize (m.modifyPool p fun s => s.enqueue m.currentTask).grow p = x at hg ⊢
  obtain ⟨m', e | x⟩ := x
  · exact hg
  · dsimp only
    split
    · exact hg
    · exact hg
    · split
      · exact (hg.abandonWait m.currentTask (.turn p none)).enqueue _
      · exact hg.addTimer _ _

theorem acquire (ht : l.currentTask ≠ t) (p : Nat) : Aloof t l (l.acquire p).1 := by
  unfold State.acquire
  split
  · exact refl t l
  next s _ =>
    split
    · exact refl t l
    · have hs := (refl t l).startPool p s
      dsimp only
      split
      next s' id htake =>
        obtain ⟨x, hx, hid⟩ := Option.bind_eq_some_iff.mp htake
        refine hs.setPool hx ?_
        rw [(Pool.State.takeIdle?_eq hid).2]
        rfl
      next =>
        split
        · exact hs.tweakPool p fun _ => rfl
        · have hcur := ((Tame.refl l).startPool p s).undisturbed.currentTask
          exact hs.standInLine (hcur ▸ ht) p s

theorem opened (l : State) (p : Nat) (o : Outcome .lease) : Aloof t l (l.opened p o).1 := by
  cases o with
  | error e => exact (refl t l).growThen p _
  | ok c =>
    have hm := (refl t l).ensureMinimum p
    unfold State.opened
    dsimp only
    generalize l.ensureMinimum p = x at hm ⊢
    obtain ⟨m', e | x⟩ := x
    · exact hm
    · exact hm.tweakPool p fun _ => rfl

theorem openSlot (l : State) (p : Nat) : Aloof t l (l.openSlot p).1 := by
  unfold State.openSlot
  split
  · exact refl t l
  · split <;> exact refl t l

theorem registering (l : State) (p : Nat) (o : Outcome .handle) : Aloof t l (l.registering p o).1 := by
  have hf : Aloof t l (l.modifyPool p Pool.State.freeSlot) := (refl t l).tweakPool p fun _ => rfl
  unfold State.registering
  cases o with
  | error e => exact hf
  | ok h =>
    have hn : Aloof t l { l.modifyPool p Pool.State.freeSlot with nextConnection := l.nextConnection + 1 } :=
      hf.quiet rfl rfl
    have hr := hn.tweakPool p (f := fun s => s.register l.nextConnection h l.clock) fun _ => rfl
    dsimp only
    split
    · exact hr
    · dsimp only
      exact hr.report _

theorem inLine (l : State) (p : Nat) (o : Outcome .unit) : Aloof t l (l.inLine p o).1 := by
  have hu : Aloof t l (l.modifyPool p fun s => s.takeUp l.currentTask) := by
    refine (refl t l).modifyPool p fun s _ => ?_
    have ho : s.Orderly (fun _ => False) (s.takeUp l.currentTask) := .takeUp s _
    exact ho.queue.count_le t
  have hl : Aloof t l ((l.modifyPool p fun s => s.takeUp l.currentTask).modifyPool p fun s =>
      s.leaveLine l.currentTask) := hu.modifyPool p fun s _ => (Pool.State.Orderly.leaveLine s _).queue.count_le t
  unfold State.inLine
  dsimp only
  split
  · exact hu
  · exact hu
  · split
    · exact hl.checkin p _
    · exact hl

theorem openedBackground (l : State) (p : Nat) (o : Outcome .lease) : Aloof t l (l.openedBackground p o).1 := by
  have he : Aloof t l (l.modifyPool p Pool.State.endBackground) := (refl t l).tweakPool p fun _ => rfl
  unfold State.openedBackground
  dsimp only
  split
  · split
    · exact ((he.report _).failLongestWaiting p _).growThen p _
    · exact he
  · split
    · split
      · exact he
      · exact he.checkin p _
    · exact he

theorem destroy (l : State) (p id : Nat) : Aloof t l (l.destroy p id).1 := by
  unfold State.destroy
  split
  · exact refl t l
  next s hs =>
    split
    · exact refl t l
    next s' _ hx =>
      refine (refl t l).setPool hs ?_
      obtain ⟨c, _, hc⟩ := Option.map_eq_some_iff.mp hx
      cases hc
      rfl

theorem endEviction (h : Aloof t l m) (k : Nat) : Aloof t l (m.endEviction k).1 := by
  unfold State.endEviction
  split
  · exact h
  · dsimp only
    exact h.report _

theorem evictFrom (h : Aloof t l m) (p : Nat) (s : Pool.State) (k : Nat) (ids : List Nat) :
    Aloof t l (m.evictFrom p s k ids).1 := by
  induction ids with
  | nil => exact h.endEviction k
  | cons id ids ih =>
    unfold State.evictFrom
    split
    · split
      · exact h
      · exact h.endEviction k
    · exact ih

theorem evict (l : State) (p : Nat) : Aloof t l (l.evict p).1 := by
  unfold State.evict
  split
  · exact refl t l
  · split
    · exact refl t l
    · exact (refl t l).evictFrom p _ _ _

theorem evicting (l : State) (p : Nat) (rest : List Nat) (k : Nat) (o : Outcome .unit) :
    Aloof t l (l.evicting p rest k o).1 := by
  unfold State.evicting
  split
  · exact refl t l
  · exact refl t l
  · exact (refl t l).evictFrom p _ _ _

theorem sleep (h : Aloof t l m) (d : Float) (f : Frame .unit .unit) : Aloof t l (m.sleep d f).1 := by
  unfold State.sleep
  split
  · exact h
  · exact h.addTimer _ _

theorem reap (l : State) (p : Nat) : Aloof t l (l.reap p).1 := by
  unfold State.reap
  split
  · exact refl t l
  · split
    · exact refl t l
    · exact (refl t l).sleep _ _

theorem swept (l : State) (p : Nat) (i : Float) (o : Outcome .count) : Aloof t l (l.swept p i o).1 := by
  have goOn : ∀ {m : State}, Aloof t l m → Aloof t l (m.swept p i (.ok 0)).1 := by
    intro m h
    have hm := h.ensureMinimum p
    unfold State.swept
    dsimp only
    generalize m.ensureMinimum p = x at hm ⊢
    obtain ⟨m', e | x⟩ := x
    · exact hm
    · exact hm.sleep i _
  unfold State.swept
  dsimp only
  split
  · exact refl t l
  · exact goOn ((refl t l).report _)
  · exact goOn (refl t l)

theorem drainFrom (h : Aloof t l m) (p : Nat) (ids : List Nat) : Aloof t l (m.drainFrom p ids).1 := by
  unfold State.drainFrom
  split
  · exact h
  · split
    · exact h
    · split
      · dsimp only [State.endClose]
        exact h.report _
      · exact h.awaitTasks _ _

theorem clearLine (h : Aloof t l m) (p : Nat) : Aloof t l (m.clearLine p).1 := by
  unfold State.clearLine
  split
  · exact h
  next s hs =>
    have ho : s.Orderly (fun _ => False) { s with reaper := none }.failAll.1 := .clear rfl rfl
    refine (h.failLine hs ho.queue (fun i hi => ?_) .poolClosed).drainFrom p _
    obtain ⟨w, hw, rfl⟩ := List.mem_map.mp hi
    exact List.mem_map_of_mem (List.mem_of_mem_filter hw)

theorem reaperEnded (h : Aloof t l m) (p : Nat) (o : Outcome .unit) : Aloof t l (m.reaperEnded p o).1 := by
  unfold State.reaperEnded
  split
  · exact h.clearLine p
  · split
    · exact h.clearLine p
    · exact h

theorem closePool (ht : l.currentTask ≠ t) (p : Nat) : Aloof t l (l.closePool p).1 := by
  have hc : Aloof t l (l.modifyPool p fun s => { s with closed := true }) := (refl t l).tweakPool p fun _ => rfl
  unfold State.closePool
  split
  · exact refl t l
  · split
    · exact refl t l
    · dsimp only
      split
      · exact hc.reaperEnded p _
      next r _ =>
        have hr := hc.cancel r
        split
        · exact hr.reaperEnded p _
        · have hc : Tame l (l.modifyPool p fun s => { s with closed := true }) :=
            (Tame.refl l).modifyPool p _ fun _ => ⟨rfl, rfl, fun _ => rfl⟩
          have hcur := (hc.cancel r).undisturbed.currentTask
          refine hr.modifyTask r fun k _ => ⟨fun _ _ => rfl, fun hf => ?_⟩
          refine (List.mem_append.mp hf).resolve_right fun hin => ?_
          cases List.mem_singleton.mp hin
          exact ht hcur.symm

theorem send (l : State) (h : Handle) (s : Sql.Statement) : Aloof t l (l.send h s).1 := by
  unfold State.send
  dsimp only
  split <;> exact (refl t l).quiet rfl rfl

theorem lock (l : State) (M : Nat) : Aloof t l (l.lock M).1 := by
  unfold State.lock
  split
  · exact refl t l
  · split <;> exact (refl t l).quiet rfl rfl

theorem letIn (l : State) (M : Nat) (o : Outcome .unit) : Aloof t l (l.letIn M o).1 := by
  have hl : Aloof t l (l.modifyManager M fun k => { k with lock := k.lock.leave l.currentTask }) :=
    (refl t l).quiet rfl rfl
  cases o with
  | error e =>
    dsimp only [State.letIn]
    exact hl.setLock M _
  | ok => exact hl.quiet rfl rfl

theorem addPool (h : Aloof t l m) (hs : s.queue = []) : Aloof t l { m with pools := m.pools ++ [s] } := by
  refine h.trans ⟨fun p => ?_, id, id, .inl⟩
  unfold State.places State.pool?
  dsimp only
  rcases Nat.lt_trichotomy p m.pools.length with hp | rfl | hp
  · rw [List.getElem?_append_left hp]
  · simp [hs]
  · rw [List.getElem?_eq_none (by simp; omega)]
    exact Nat.zero_le _

theorem setUp (l : State) (M : Nat) (location : Option Config.Location) (reach : Access.Reach) :
    Aloof t l (l.setUp M location reach).1 := by
  unfold State.setUp
  split
  · dsimp only
    exact (refl t l).report _
  · exact refl t l
  · split
    · exact refl t l
    · split
      · exact (refl t l).quiet rfl rfl
      next settings _ =>
        dsimp only [State.usePool]
        refine Aloof.report ?_ _
        exact ((refl t l).addPool (s := { settings, source := .database { location := _ } }) rfl).quiet rfl rfl

theorem shutSingle (l : State) (M : Nat) : Aloof t l (l.shutSingle M).1 := by
  unfold State.shutSingle
  split
  · exact refl t l
  · split
    · exact refl t l
    · exact (refl t l).quiet rfl rfl

theorem execute (l : State) (M : Nat) (s : Sql.Statement) (mode : Value) : Aloof t l (l.execute M s mode).1 := by
  unfold State.execute
  split
  · exact refl t l
  · split
    · split
      · exact refl t l
      · exact (refl t l).enterScope
    · dsimp only
      exact (refl t l).report _

theorem executing (l : State) (M : Nat) (s : Sql.Statement) (k : Access.Mode) (restores : Bool)
    (o : Outcome .borrowed) : Aloof t l (l.executing M s k restores o).1 := by
  unfold State.executing
  split
  · exact (refl t l).leaveScope restores
  · split
    · exact (refl t l).endCall M _ restores _
    · exact refl t l

theorem executeAll (l : State) (M : Nat) (ss : List Sql.Statement) (mode : Value) :
    Aloof t l (l.executeAll M ss mode).1 := by
  unfold State.executeAll
  split
  · exact refl t l
  · split
    · split
      · exact refl t l
      · exact (refl t l).enterScope
    · dsimp only
      exact (refl t l).report _

theorem batchFrom (l : State) (M : Nat) (lease : Option Lease) (k : Access.Mode) (done : List Access.Answer)
    (restores : Bool) (ss : List Sql.Statement) : Aloof t l (l.batchFrom M lease k done restores ss).1 := by
  cases ss with
  | nil => exact (refl t l).endCall M lease restores _
  | cons s rest =>
    rw [State.batchFrom]
    cases l.target? M lease with
    | none => exact (refl t l).endCall M lease restores _
    | some x => exact refl t l

theorem leaveBlock (l : State) (M : Nat) (lease : Option Lease) (fail : Bool) :
    Aloof t l (l.leaveBlock M lease fail).1 := (refl t l).endBlock M lease _

theorem blockEntered (l : State) (M : Nat) (hold fail : Bool) (o : Outcome .borrowed) :
    Aloof t l (l.blockEntered M hold fail o).1 := by
  unfold State.blockEntered
  split
  · exact refl t l
  · split
    · exact (refl t l).quiet rfl rfl
    · exact leaveBlock l M _ fail

theorem build (l : State) (M : Nat) (w : Sql.Writer) (b : Schema.Blueprint) (changes : List Schema.Revision) :
    Aloof t l (l.build M w b changes).1 := by
  unfold State.build
  split
  · exact refl t l
  · dsimp only
    split
    · exact (refl t l).reportAll _
    · dsimp only
      exact ((refl t l).reportAll _).report _

end Aloof

variable {w : Work u}

theorem Work.aloof (w : Work u) (l : State) (hw : l.currentTask = t → ¬ w.Joins) : Aloof t l (w.perform l).1 := by
  have same : Aloof t l l := .refl t l
  have quiet : ∀ {m : State}, m.pools = l.pools → m.tasks = l.tasks → Aloof t l m := same.quiet
  cases w with
  | call c =>
    cases c with
    | askOpen =>
      simp only [Work.perform, begin, State.askOpen]
      split <;> exact quiet rfl rfl
    | askClose h =>
      simp only [Work.perform, begin, State.askClose]
      split <;> exact quiet rfl rfl
    | dial d =>
      simp only [Work.perform, begin, State.dial]
      split
      · exact quiet rfl rfl
      · unfold State.endDial
        split <;> exact quiet rfl rfl
    | send h s => exact .send l h s
    | hangUp h => exact quiet (l.hangUp_pools h) (l.hangUp_tasks h)
    | connect | openBackground | block | within | hasTable | fetch | reset | demonstrate =>
      exact quiet rfl rfl
    | run d h s k =>
      dsimp only [Work.perform, begin, State.run]
      exact same.report _
    | acquire p => exact .acquire (fun ht => hw ht trivial) p
    | openSlot p => exact .openSlot l p
    | destroy p id => exact .destroy l p id
    | evict p => exact .evict l p
    | reap p => exact .reap l p
    | closePool p => exact .closePool (fun ht => hw ht trivial) p
    | lock M => exact .lock l M
    | setUp M location reach => exact .setUp l M location reach
    | shutDown M =>
      simp only [Work.perform, begin, State.shutDown]
      split
      · exact same
      · exact .shutSingle l M
    | borrow M =>
      simp only [Work.perform, begin, State.borrow]
      split <;> exact same
    | execute M s mode => exact .execute l M s mode
    | executeAll M ss mode => exact .executeAll l M ss mode
    | build M w b changes => exact .build l M w b changes
    | bootstrap url =>
      simp only [Work.perform, begin, State.bootstrap]
      split <;> exact quiet rfl rfl
    | seed M =>
      simp only [Work.perform, begin, State.seed]
      split <;> exact same
  | back f o =>
    cases f with
    | start c => cases o <;> exact same
    | askedOpen | leased | built | sought | booksMade | emptied | demoFetched => exact same
    | askedClose | rested | withinLeft | started | writersMade | writersWritten | demoStarted | demoEmptied | demoSeeded
    | demoEnded => cases o <;> exact same
    | dialled fault =>
      cases o with
      | error => exact same
      | ok => cases fault <;> exact quiet rfl rfl
    | sent r =>
      cases o with
      | error => exact same
      | ok => exact quiet rfl rfl
    | connected => cases o <;> exact same
    | foreignKeysSet d h wal =>
      cases o with
      | error => exact same
      | ok =>
        cases wal with
        | true => exact same
        | false =>
          simp only [Work.perform, resume, State.foreignKeysSet, State.endConnect, Bool.false_eq_true, if_false]
          exact same.report _
    | journalSet =>
      cases o with
      | error => exact same
      | ok =>
        dsimp only [Work.perform, resume, State.journalSet, State.endConnect]
        exact same.report _
    | ran d sql k start => cases o <;> exact same.report _
    | opened p => exact .opened l p o
    | registering p => exact .registering l p o
    | inLine p => exact .inLine l p o
    | openedBackground p => exact .openedBackground l p o
    | destroyed p id => exact (same.report _).growThen p o
    | evicting p rest k => exact .evicting l p rest k o
    | swept p i => exact .swept l p i o
    | reaperEnded p => exact same.reaperEnded p o
    | draining p rest =>
      cases o with
      | error => exact same
      | ok => exact same.drainFrom p rest
    | backgroundEnded p =>
      cases o with
      | error => exact same
      | ok =>
        dsimp only [Work.perform, resume, State.backgroundEnded, State.endClose]
        exact same.report _
    | letIn M => exact .letIn l M o
    | singleOpened M d =>
      cases o with
      | error => exact same
      | ok =>
        dsimp only [Work.perform, resume, State.singleOpened]
        refine .report ?_ _
        exact quiet rfl rfl
    | poolShut M =>
      cases o with
      | error => exact same
      | ok => exact .shutSingle l M
    | lockedToClose M =>
      cases o with
      | error => exact same
      | ok =>
        simp only [Work.perform, resume, State.lockedToClose]
        split
        · exact same
        · exact same.setLock M Access.Lock.release
    | singleClosed M =>
      have hu := same.setLock M Access.Lock.release
      cases o with
      | error e => exact hu
      | ok => exact hu.quiet rfl rfl
    | lockedToUse M =>
      simp only [Work.perform, resume, State.lockedToUse]
      split
      · exact same
      · split
        · exact same
        · exact quiet rfl rfl
    | executing M s k restores => exact .executing l M s k restores o
    | executed M lease restores => exact same.endCall M lease restores _
    | batching M ss k restores =>
      cases o with
      | error e => exact same.leaveScope restores
      | ok lease => exact .batchFrom l M lease k [] restores ss
    | batched M lease rest k done restores =>
      cases o with
      | error e => exact same.endCall M lease restores _
      | ok a => exact .batchFrom l M lease k (done ++ [a]) restores rest
    | blockEntered M hold fail => exact .blockEntered l M hold fail o
    | blockHeld M lease fail =>
      cases o with
      | error e => exact same.endBlock M lease _
      | ok => exact .leaveBlock l M lease fail
    | tableKnown M =>
      cases o with
      | error => exact same
      | ok found => cases found <;> exact same
    | writersRead M writers =>
      simp only [Work.perform, resume, State.writersRead]
      split
      · exact same
      · split <;> exact same
      · exact same
    | booksWritten writers =>
      simp only [Work.perform, resume, State.booksWritten]
      split
      · exact same
      · split <;> exact same

end SqliteAccess.Loop
