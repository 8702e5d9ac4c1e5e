import SqliteAccess.Proofs.Access.LockPlaces

/-!
A manager with one connection moves its guard: each step of the loop, and whatever its clients do, is one
of the ways in which tasks move about the lock.
-/

namespace SqliteAccess.Loop

open Access (Lock Place)
open SqliteAccess.Pool (Lease)

def State.post? (l : State) (i : Nat) : Option Place := (l.tasks[i]?).bind fun k => k.status.place?

def State.hangingUp (l : State) (i : Nat) : Bool := (l.tasks[i]?).any fun k => k.status.bars

/-- From the one loop to the other the lock and the connection have changed, and one task at most has
been let in. -/
structure Roused (M : Nat) (c : Lease) (l m : State) (lock : Lock) (single : Option Nat) (inUse : Bool)
    (next : Option Nat) : Prop where
  manager : ∃ k, m.manager? M = some k ∧ k.pool = none
  connection : (m.standalone? c.id).map (·.lease) = some c
  lock : m.lockOf M = lock
  single : m.singleOf M = single
  inUse : m.inUse c.id = inUse
  running : m.running = l.running
  posts : ∀ i, m.post? i = if next = some i then some .granted else l.post? i
  tasks : Nudged (fun _ => False) (fun _ _ => False) (fun _ _ => False) l.tasks m.tasks

structure Task.Plain (k : Task) : Prop where
  followers : ∀ r, .resume r ∉ k.followers
  signal : ∀ e st, k.status = .ready (some e) st → e = .cancelled

def State.Heeds (M : Nat) (l : State) : Prop :=
  ∀ t e k, l.running = some ⟨t, .unit, .give (.error e), .push (.letIn M) k⟩ → e = .cancelled

theorem State.Heeds.of_eq {M : Nat} {l l' : State} (h : l.Heeds M) (hr : l'.running = l.running) :
    l'.Heeds M := fun t e k hr' => h t e k (hr.symm.trans hr')

theorem State.heeds_idle {M : Nat} {l : State} (hr : l.running = none) : l.Heeds M :=
  fun _ _ _ hr' => nomatch hr.symm.trans hr'

structure Desk.Guarded (careless : Prop) (M : Nat) (c : Lease) (x : Desk) : Prop where
  tended : Tended M .single x.loop
  manager : ∃ k, x.loop.manager? M = some k ∧ k.pool = none
  connection : (x.loop.standalone? c.id).map (·.lease) = some c
  plain : ∀ (i : Nat) (k : Task), x.loop.tasks[i]? = some k → k.Plain
  heeds : x.loop.Heeds M
  returned : ∀ t ∈ x.returned, ∃ k s o, x.loop.tasks[t]? = some k ∧ k.status = .finished s o
  sound : (x.guard M c).Sound careless c

variable {M t i : Nat} {c : Lease} {l m m' : State} {lock : Lock} {single next : Option Nat}
  {inUse : Bool}

theorem Task.Nudge.plain {C : Prop} {D : Failure → Prop} {E : Follower → Prop} {x y : Task}
    (h : x.Nudge C D E y) (hd : ∀ e, D e → e = .cancelled) (he : ∀ r, ¬ E (.resume r)) (hx : x.Plain) :
    y.Plain := by
  refine ⟨fun r hr => ?_, fun e st hs => ?_⟩
  · rcases h.followers _ hr with hf | hf
    · exact hx.followers r hf
    · exact he r hf
  · have hn := h.status
    rw [hs] at hn
    generalize hxs : x.status = v at hn
    cases hn with
    | same => exact hx.signal e st hxs
    | woken w k hw => exact hd e (hw e rfl)

theorem Nudged.plain {C : Nat → Prop} {D : Nat → Failure → Prop} {E : Nat → Follower → Prop}
    {ts ts' : List Task} (h : Nudged C D E ts ts') (hd : ∀ i e, D i e → e = .cancelled)
    (he : ∀ i r, ¬ E i (.resume r)) (hp : ∀ (i : Nat) (k : Task), ts[i]? = some k → k.Plain) :
    ∀ (i : Nat) (k : Task), ts'[i]? = some k → k.Plain := by
  intro i k hk
  have hi : i < ts.length := h.length ▸ (List.getElem?_eq_some_iff.mp hk).1
  obtain ⟨z, hz, hn⟩ := h.task i _ (List.getElem?_eq_getElem hi)
  cases hk.symm.trans hz
  exact hn.plain (hd i) (he i) (hp i _ (List.getElem?_eq_getElem hi))

theorem Nudged.ended {C : Nat → Prop} {D : Nat → Failure → Prop} {E : Nat → Follower → Prop}
    {ts ts' : List Task} {r : List Nat} (h : Nudged C D E ts ts')
    (hr : ∀ t ∈ r, ∃ k s o, ts[t]? = some k ∧ k.status = .finished s o) :
    ∀ t ∈ r, ∃ k s o, ts'[t]? = some k ∧ k.status = .finished s o := by
  intro t ht
  obtain ⟨k, s, o, hk, hs⟩ := hr t ht
  obtain ⟨z, hz, hn⟩ := h.task t k hk
  have hst := hn.status
  rw [hs] at hst
  refine ⟨z, s, o, hz, ?_⟩
  generalize z.status = st at hst ⊢
  cases hst
  rfl

theorem Status.Nudge.bars {D : Failure → Prop} {x y : Status} (h : x.Nudge D y) : y.bars = x.bars := by
  cases h <;> rfl

theorem Nudged.hangingUp {C : Nat → Prop} {D : Nat → Failure → Prop} {E : Nat → Follower → Prop}
    (h : Nudged C D E l.tasks m.tasks) : m.hangingUp = l.hangingUp := by
  funext i
  by_cases hi : i < l.tasks.length
  · obtain ⟨z, hz, hn⟩ := h.task i _ (List.getElem?_eq_getElem hi)
    simp [State.hangingUp, hz, List.getElem?_eq_getElem hi, hn.status.bars]
  · have hi' : m.tasks.length ≤ i := h.length ▸ Nat.le_of_not_lt hi
    simp [State.hangingUp, List.getElem?_eq_none hi', List.getElem?_eq_none (Nat.le_of_not_lt hi)]

theorem State.standalone?_setUse (l : State) (id : Nat) (b : Bool) :
    (l.setStandaloneUse id b).standalone? id = (l.standalone? id).map fun x => { x with inUse := b } := by
  simp only [State.standalone?, State.setStandaloneUse]
  generalize l.standalone = cs
  induction cs with
  | nil => rfl
  | cons x r ih =>
    by_cases hx : x.id = id
    · simp [hx]
    · simpa [hx] using ih

namespace Roused

theorem refl (hm : ∃ k, l.manager? M = some k ∧ k.pool = none)
    (hc : (l.standalone? c.id).map (·.lease) = some c) :
    Roused M c l l (l.lockOf M) (l.singleOf M) (l.inUse c.id) none :=
  ⟨hm, hc, rfl, rfl, rfl, rfl, fun _ => by simp, .refl _ _ _ _⟩

theorem still (h : Roused M c l m lock single inUse next) (hs : Still M m m') :
    Roused M c l m' lock single inUse next := by
  obtain ⟨f, hf, hk⟩ := hs.managers
  have hm : m'.manager? M = (m.manager? M).map f := by
    rw [State.manager?, hf, List.getElem?_modify_eq]
    rfl
  have hst : ∀ id, m'.standalone? id = m.standalone? id := fun id => by
    rw [State.standalone?, hs.standalone]
    rfl
  refine ⟨?_, (congrArg _ (hst c.id)).trans h.connection, ?_, ?_, ?_, hs.running.trans h.running,
    fun i => ?_, h.tasks.trans hs.nudged⟩
  · obtain ⟨k, hk', hp⟩ := h.manager
    exact ⟨f k, by rw [hm, hk']; rfl, (hk k).1.trans hp⟩
  · rw [← h.lock, State.lockOf, State.lockOf, hm, Option.map_map]
    exact congrArg (fun o => Option.getD o {}) (congrFun (congrArg Option.map (funext fun k => (hk k).2.2)) _)
  · rw [← h.single, State.singleOf, State.singleOf, hm]
    cases m.manager? M with
    | none => rfl
    | some k => exact (hk k).2.1
  · rw [← h.inUse, State.inUse, State.inUse, hst]
  · rw [← h.posts, State.post?, State.post?]
    by_cases hi : i < m.tasks.length
    · have hi' : i < m'.tasks.length := hs.tasks.length_eq ▸ hi
      rw [List.getElem?_eq_getElem hi, List.getElem?_eq_getElem hi']
      exact congrArg Status.place? (hs.tasks.get hi hi').status
    · have hi' : ¬ i < m'.tasks.length := hs.tasks.length_eq ▸ hi
      rw [List.getElem?_eq_none (Nat.le_of_not_lt hi), List.getElem?_eq_none (Nat.le_of_not_lt hi')]

theorem modifyLock (h : Roused M c l m lock single inUse next) (f : Lock → Lock) :
    Roused M c l (m.modifyManager M fun k => { k with lock := f k.lock }) (f lock) single inUse next := by
  obtain ⟨k, hk, hp⟩ := h.manager
  have hm : (m.modifyManager M fun k => { k with lock := f k.lock }).manager? M =
      some { k with lock := f k.lock } := by
    rw [State.manager?] at hk ⊢
    simp [State.modifyManager, hk]
  have hl := h.lock
  have hs := h.single
  rw [State.lockOf, hk] at hl
  rw [State.singleOf, hk] at hs
  refine ⟨⟨_, hm, hp⟩, h.connection, ?_, ?_, h.inUse, h.running, h.posts, h.tasks⟩
  · rw [State.lockOf, hm, ← hl]
    rfl
  · rw [State.singleOf, hm]
    exact hs

theorem disable (h : Roused M c l m lock single inUse next) :
    Roused M c l (m.modifyManager M fun k => { k with single := none, database := none }) lock none inUse
      next := by
  obtain ⟨k, hk, hp⟩ := h.manager
  have hm : (m.modifyManager M fun k => { k with single := none, database := none }).manager? M =
      some { k with single := none, database := none } := by
    rw [State.manager?] at hk ⊢
    simp [State.modifyManager, hk]
  have hl := h.lock
  rw [State.lockOf, hk] at hl
  refine ⟨⟨_, hm, hp⟩, h.connection, ?_, ?_, h.inUse, h.running, h.posts, h.tasks⟩
  · rw [State.lockOf, hm, ← hl]
    rfl
  · rw [State.singleOf, hm]
    rfl

theorem setUse (h : Roused M c l m lock single inUse next) (b : Bool) :
    Roused M c l (m.setStandaloneUse c.id b) lock single b next := by
  have hf := m.standalone?_setUse c.id b
  have hc := h.connection
  rw [Option.map_eq_some_iff] at hc
  obtain ⟨x, hx, hc⟩ := hc
  rw [hx] at hf
  refine ⟨h.manager, ?_, h.lock, h.single, ?_, h.running, h.posts, h.tasks⟩
  · rw [hf]
    exact congrArg some hc
  · rw [State.inUse, hf]
    rfl

theorem wake (h : Roused M c l m lock single inUse none) (hp : m.post? t = some .waiting) :
    Roused M c l (m.wake t none) lock single inUse (some t) := by
  obtain ⟨x, hx, hpx⟩ := Option.bind_eq_some_iff.mp hp
  obtain ⟨status, context, flag, followers⟩ := x
  -- Only a task that is paused waits.
  have hs : ∃ w k, status = .paused w k ∧ k.Waits = true := by
    cases status with
    | paused w k =>
      refine ⟨w, k, rfl, ?_⟩
      cases hw : k.Waits with
      | true => rfl
      | false => simp [Status.place?, hw] at hpx
    | ready signal k => cases signal <;> simp [Status.place?] at hpx
    | running | finished => cases hpx
  obtain ⟨w, k, rfl, hw⟩ := hs
  have he : m.wake t none =
      (m.modifyTask t fun k' => { k' with status := .ready none k }).enqueue (.step t) := by
    simp only [State.wake, hx]
  rw [he]
  refine ⟨h.manager, h.connection, h.lock, h.single, h.inUse, h.running, fun i => ?_,
    h.tasks.trans (.modify fun k' hk' => ?_)⟩
  · simp only [State.post?, State.enqueue, State.modifyTask, Option.some.injEq]
    split
    next hi =>
      subst hi
      simp [hx, Status.place?, hw]
    next hi =>
      rw [List.getElem?_modify_ne _ _ hi]
      simpa [State.post?] using h.posts i
  · cases hx.symm.trans hk'
    exact ⟨.woken w k (by simp), .inl rfl, fun _ hf => .inl hf⟩

theorem setLock (h : Roused M c l m lock single inUse none) (f : Lock → Lock × Option Nat)
    (hf : ∀ t, (f lock).2 = some t → l.post? t = some .waiting) :
    Roused M c l (m.setLock M f) (f lock).1 single inUse (f lock).2 := by
  obtain ⟨k, hk, hp⟩ := h.manager
  have hl : k.lock = lock := by
    have hl := h.lock
    rwa [State.lockOf, hk] at hl
  have hm := h.modifyLock fun k => (f k).1
  have hmod : (m.modifyManager M fun x => { x with lock := (f k.lock).1 }) =
      m.modifyManager M fun x => { x with lock := (f x.lock).1 } := by
    rw [State.manager?] at hk
    simp only [State.modifyManager]
    congr 1
    refine List.ext_getElem? fun i => ?_
    by_cases hi : M = i
    · subst hi
      simp [hk]
    · simp [hi]
  simp only [State.setLock, hk, hmod]
  subst hl
  cases hn : (f k.lock).2 with
  | none => exact hm
  | some t => exact hm.wake ((h.posts t).trans (hf t hn))

end Roused

section Work

variable {careless : Prop} {x : Desk} {u : Shape} {w : Work u} {k : Stack u} {n : Next u} {d : Call u}

theorem State.post?_running (hx : ∃ x, l.tasks[t]? = some x ∧ x.status = .running) :
    l.post? t = none := by
  obtain ⟨x, hx, hs⟩ := hx
  simp [State.post?, hx, hs, Status.place?]

theorem State.place?_on (hr : l.running = some (w.on t k))
    (hx : ∃ x, l.tasks[t]? = some x ∧ x.status = .running) :
    l.place? = Function.update l.post? t w.place? := by
  funext i
  by_cases hi : i = t
  · subst hi
    have hp : l.post? i = none := State.post?_running hx
    rw [State.post?] at hp
    simp [State.place?, hp, hr, w.on_place]
  · simp [State.place?, State.post?, hr, hi, Ne.symm hi]

theorem State.bears_on (hr : l.running = some (w.on t k))
    (hx : ∃ x, l.tasks[t]? = some x ∧ x.status = .running) :
    l.bears = Function.update l.hangingUp t (w.on t k).bears := by
  funext i
  by_cases hi : i = t
  · subst hi
    obtain ⟨x, hx, hs⟩ := hx
    simp [State.bears, hr, hx, hs, Status.bars]
  · simp [State.bears, State.hangingUp, hr, hi, Ne.symm hi]

theorem Running.place?_give (hk : k.Waits = false) (t : Nat) (o : Outcome u) :
    (⟨t, u, .give o, k⟩ : Running).place? = none := by
  cases k with
  | done => cases o <;> rfl
  | push f k =>
    cases f with
    | letIn => cases hk
    | _ => cases o <;> simp [Running.place?]

theorem State.carryOn_place (hx : ∃ x, m.tasks[t]? = some x ∧ x.status = .running)
    (hr : m.running = some (w.on t k)) (hk : k.Waits = false) (n : Next u) :
    (m.carryOn t n k).place? = Function.update m.post? t n.place? := by
  have hp : m.post? t = none := State.post?_running hx
  obtain ⟨x, hx, hs⟩ := hx
  funext i
  by_cases hi : i = t
  · subst hi
    simp only [State.post?] at hp
    cases n with
    | give o => simp [State.carryOn, State.place?, hp, Running.place?_give hk, Next.place?]
    | call c f => simp [State.carryOn, State.place?, hp, Running.place?, Next.place?]
    | jump c => simp [State.carryOn, State.place?, hp, Running.place?, Next.place?]
    | pause w f =>
      have hf : (Status.paused w (.push f k)).place? = (Next.pause w f).place? := by
        cases f <;> simp only [Status.place?, Stack.Waits, Next.place?, Bool.false_eq_true, if_true, if_false]
      simp [State.carryOn, State.place?, State.modifyTask, hx, hf]
    | again f =>
      have hf : (Status.ready none (.push f k)).place? = (Next.again f).place? := by
        cases f <;> simp only [Status.place?, Stack.Waits, Next.place?, Bool.false_eq_true, if_true, if_false]
      simp [State.carryOn, State.place?, State.modifyTask, State.enqueue, hx, hf]
  · cases n <;>
      simp [State.carryOn, State.place?, State.post?, State.modifyTask, State.enqueue, hi, Ne.symm hi]

theorem State.carryOn_bears (hx : ∃ x, m.tasks[t]? = some x ∧ x.status = .running)
    (n : Next u) (k : Stack u) :
    (m.carryOn t n k).bears = Function.update m.hangingUp t (n.bars k) := by
  obtain ⟨x, hx, hs⟩ := hx
  funext i
  by_cases hi : i = t
  · subst hi
    cases n <;>
      simp [State.carryOn, State.bears, State.modifyTask, State.enqueue, Running.bears, Next.bars, hx, hs,
        Status.bars]
  · cases n <;>
      simp [State.carryOn, State.bears, State.hangingUp, State.modifyTask, State.enqueue, hi, Ne.symm hi]

namespace Desk

variable {y : Desk}

structure Moves (careless : Prop) (M : Nat) (c : Lease) (x y : Desk) : Prop where
  step : (x.guard M c).Step careless c (y.guard M c)
  guarded : y.Guarded careless M c

namespace Guarded

variable (h : x.Guarded careless M c)

include h in
theorem at_work (hr : x.loop.running = some (w.on t k)) :
    ∃ y, x.loop.tasks[t]? = some y ∧ y.status = .running := by
  have hx := (h.tended.running _ hr).2
  rwa [Work.on_task] at hx

include h in
theorem working (hr : x.loop.running = some (w.on t k)) : t ∉ x.returned := by
  intro hm
  obtain ⟨y, _, _, hy, hs⟩ := h.returned t hm
  obtain ⟨z, hz, hs'⟩ := h.at_work hr
  cases hy.symm.trans hz
  cases hs.symm.trans hs'

include h in
theorem guard_on (hr : x.loop.running = some (w.on t k)) :
    (x.guard M c).place = Function.update x.loop.post? t w.place? ∧
      (x.guard M c).lease t = w.lease?.or k.lease? ∧
      (x.guard M c).bears = Function.update x.loop.hangingUp t (w.on t k).bears :=
  ⟨State.place?_on hr (h.at_work hr), (if_neg (h.working hr)).trans (State.lease?_at hr (h.at_work hr)),
    State.bears_on hr (h.at_work hr)⟩

include h in
theorem guard_carryOn (hr : x.loop.running = some (w.on t k)) (hk : k.Bears M .single d)
    (hm : Roused M c x.loop m lock single inUse next) (n : Next u) :
    Desk.guard M c ⟨m.carryOn t n k, x.returned, x.past ++ [x.loop]⟩ =
      { lock, single, inUse
        place := Function.update
          (fun i => if next = some i then some .granted else (x.guard M c).place i) t n.place?
        lease := Function.update (x.guard M c).lease t (n.lease?.or k.lease?)
        bears := Function.update (x.guard M c).bears t (n.bars k)
        asked := (x.guard M c).asked ++ x.loop.asks M
        obtained := (x.guard M c).obtained ++ x.loop.obtains M
        quit := (x.guard M c).quit ++ x.loop.quits M
        used := (x.guard M c).used ++ x.loop.uses M
        missed := (x.guard M c).missed ++ x.loop.misses M } := by
  have hx : ∃ y, m.tasks[t]? = some y ∧ y.status = .running := by
    obtain ⟨y, hy, hs⟩ := h.at_work hr
    obtain ⟨z, hz, hn⟩ := hm.tasks.task t y hy
    exact ⟨z, hz, hn.running hs⟩
  have hr' := hm.running.trans hr
  have hmanager : (m.carryOn t n k).manager? M = m.manager? M := by cases n <;> rfl
  have hstand : (m.carryOn t n k).standalone? c.id = m.standalone? c.id := by cases n <;> rfl
  have hlease : Desk.lease? ⟨m.carryOn t n k, x.returned, x.past ++ [x.loop]⟩ =
      Function.update x.lease? t (n.lease?.or k.lease?) := by
    funext i
    by_cases hi : i = t
    · subst hi
      rw [Function.update_self]
      exact (if_neg (h.working hr)).trans (State.carryOn_lease hx n k)
    · rw [Function.update_of_ne hi]
      have hl : (m.carryOn t n k).lease? i = x.loop.lease? i := by
        rw [State.carryOn_lease_of_ne hr' hi]
        exact State.lease?_nudged hm.running hm.tasks i
      exact congrArg (fun o => if i ∈ x.returned then none else o) hl
  have hplace : (m.carryOn t n k).place? = Function.update
      (fun i => if next = some i then some .granted else (x.guard M c).place i) t n.place? := by
    rw [State.carryOn_place hx hr' hk.apart n, (h.guard_on hr).1]
    funext i
    by_cases hi : i = t
    · subst hi
      rw [Function.update_self, Function.update_self]
    · rw [Function.update_of_ne hi, Function.update_of_ne hi, Function.update_of_ne hi, hm.posts]
  refine Guard.ext ?_ ?_ hplace hlease ?_ ?_ ?_ ?_ ?_ ?_ ?_
  · rw [← hm.lock]
    exact congrArg (fun o => (Option.map (·.lock) o).getD {}) hmanager
  · rw [← hm.single]
    exact congrArg (fun o => Option.bind o (·.single)) hmanager
  · rw [(h.guard_on hr).2.2, Function.update_idem]
    exact (State.carryOn_bears hx n k).trans (congrArg (Function.update · t _) hm.tasks.hangingUp)
  · rw [← hm.inUse]
    exact congrArg (fun o => (Option.map (·.inUse) o).getD false) hstand
  all_goals simp [Desk.guard, Desk.asked, Desk.obtained, Desk.quit, Desk.used, Desk.missed]

include h in
theorem carryOn (hr : x.loop.running = some (w.on t k)) (hk : k.Bears M .single d)
    (hm : Roused M c x.loop m lock single inUse next) (hn : n.Continues M .single d)
    (hs : (x.guard M c).Step careless c
      (Desk.guard M c ⟨m.carryOn t n k, x.returned, x.past ++ [x.loop]⟩)) :
    Moves careless M c x ⟨m.carryOn t n k, x.returned, x.past ++ [x.loop]⟩ := by
  have hx : ∃ y, m.tasks[t]? = some y ∧ y.status = .running := by
    obtain ⟨y, hy, hs⟩ := h.at_work hr
    obtain ⟨z, hz, hn⟩ := hm.tasks.task t y hy
    exact ⟨z, hz, hn.running hs⟩
  refine ⟨hs, .carryOn (AllChained.nudged h.tended.tasks hm.tasks) hx hk hn, ?_, ?_,
    fun i y hy => ?_, ?_, fun i hi => ?_, h.sound.step hs⟩
  · have hmanager : (m.carryOn t n k).manager? M = m.manager? M := by cases n <;> rfl
    exact hmanager ▸ hm.manager
  · have hstand : (m.carryOn t n k).standalone? c.id = m.standalone? c.id := by cases n <;> rfl
    exact hstand ▸ hm.connection
  · have hp := hm.tasks.plain (fun _ _ => False.elim) (fun _ _ => id) h.plain
    rw [State.carryOn_tasks] at hy
    rcases modify_cases hy with ⟨_, hy⟩ | ⟨rfl, z, hz, rfl⟩
    · exact hp i y hy
    · refine ⟨(hp i z hz).followers, fun e st hs => ?_⟩
      cases n with
      | pause | again => cases hs
      | give | call | jump => exact (hp i z hz).signal e st hs
  · intro t' e k' hr'
    have hw := hk.apart
    cases n <;> cases hr'
    cases hw
  · obtain ⟨y, s, o, hy, hs'⟩ := hm.tasks.ended h.returned i hi
    have hne : t ≠ i := by
      rintro rfl
      exact h.working hr hi
    refine ⟨y, s, o, ?_, hs'⟩
    rw [State.carryOn_tasks, List.getElem?_modify_ne _ _ hne]
    exact hy

end Guarded

end Desk

end Work

end SqliteAccess.Loop
