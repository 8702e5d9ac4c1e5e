import SqliteAccess.Proofs.Access.ChainsKept
import SqliteAccess.Proofs.Pool.Move

/-!
What the loop does between the steps of calls: a task goes on, timers ring, tasks learn of the end of
others. Only tasks that wait for such things are touched.
-/

namespace SqliteAccess.Loop

def Wait.Outside : Wait → Prop
  | .held | .lock _ | .opening _ | .closing _ => True
  | _ => False

def State.Expects (l : State) (i : Nat) : Prop :=
  ∃ k w st, l.tasks[i]? = some k ∧ k.status = .paused w st ∧ ¬ w.Outside

/-- From the one loop to the other no stack has changed, and none but these tasks have been touched. -/
structure Stirred (S : Nat → Prop) (l l' : State) : Prop where
  tasks : Nudged (fun _ => False) (fun _ _ => True) (fun _ _ => False) l.tasks l'.tasks
  spared : ∀ i, ¬ S i → l'.tasks[i]? = l.tasks[i]?
  running : l'.running = l.running
  managers : l'.managers = l.managers
  standalone : l'.standalone = l.standalone
  engine : l'.engine = l.engine
  next : l'.nextConnection = l.nextConnection
  pools : ∀ p (s : Pool.State), l.pool? p = some s → ∃ s', l'.pool? p = some s' ∧ s.Lull s'

/-- The task goes on from where it had got, and nothing else has changed. -/
structure Resumed (l l' : State) (t : Nat) (signal : Option Failure) (st : Stack .unit) (x : Task) :
    Prop where
  task : l.tasks[t]? = some x
  ready : x.status = .ready signal st
  running : l'.running = some ⟨t, .unit, .give (x.answer signal), st⟩
  tasks : l'.tasks = l.tasks.modify t fun x => { x with status := .running, cancelRequested := false }
  managers : l'.managers = l.managers
  standalone : l'.standalone = l.standalone
  engine : l'.engine = l.engine
  next : l'.nextConnection = l.nextConnection
  pools : l'.pools = l.pools

namespace Stirred

variable {S : Nat → Prop} {l l' l'' : State}

theorem of (ht : l'.tasks = l.tasks) (hr : l'.running = l.running) (hm : l'.managers = l.managers)
    (hs : l'.standalone = l.standalone) (he : l'.engine = l.engine)
    (hn : l'.nextConnection = l.nextConnection)
    (hp : ∀ p (s : Pool.State), l.pool? p = some s → ∃ s', l'.pool? p = some s' ∧ s.Lull s') : Stirred S l l' :=
  ⟨ht ▸ .refl _ _ _ _, fun _ _ => by rw [ht], hr, hm, hs, he, hn, hp⟩

theorem refl (l : State) : Stirred S l l := .of rfl rfl rfl rfl rfl rfl fun _ s h => ⟨s, h, .refl s⟩

theorem trans (h : Stirred S l l') (h' : Stirred S l' l'') : Stirred S l l'' := by
  refine ⟨h.tasks.trans h'.tasks, fun i hi => (h'.spared i hi).trans (h.spared i hi),
    h'.running.trans h.running, h'.managers.trans h.managers, h'.standalone.trans h.standalone,
    h'.engine.trans h.engine, h'.next.trans h.next, fun p s hs => ?_⟩
  obtain ⟨s₁, h₁, hl⟩ := h.pools p s hs
  obtain ⟨s₂, h₂, hl'⟩ := h'.pools p s₁ h₁
  exact ⟨s₂, h₂, hl.trans hl'⟩

theorem modifyPool (l : State) (q : Nat) (f : Pool.State → Pool.State)
    (hf : ∀ s : Pool.State, s.Lull (f s)) :
    Stirred S l (l.modifyPool q f) := by
  refine .of rfl rfl rfl rfl rfl rfl fun p s hs => ?_
  rw [State.pool?] at hs
  by_cases hq : q = p
  · subst hq
    exact ⟨f s, by simp [State.pool?, State.modifyPool, hs], hf s⟩
  · exact ⟨s, by simp [State.pool?, State.modifyPool, hq, hs], .refl s⟩

theorem modifyTask (l : State) (t : Nat) (f : Task → Task) (ht : S t)
    (hf : ∀ k, l.tasks[t]? = some k → k.Nudge False (fun _ => True) (fun _ => False) (f k)) :
    Stirred S l (l.modifyTask t f) := by
  refine ⟨.modify hf, fun i hi => ?_, rfl, rfl, rfl, rfl, rfl, fun _ s h => ⟨s, h, .refl s⟩⟩
  refine List.getElem?_modify_ne _ _ ?_
  rintro rfl
  exact hi ht

theorem wake (l : State) (t : Nat) (signal : Option Failure) (ht : S t) :
    Stirred S l (l.wake t signal) := by
  unfold State.wake
  split
  next w k c b fs hk =>
    refine (modifyTask l t (fun k' => { k' with status := .ready signal k }) ht fun k' hk' => ?_).trans
      (.of rfl rfl rfl rfl rfl rfl fun _ s h => ⟨s, h, .refl s⟩)
    cases hk.symm.trans hk'
    exact ⟨.woken w k fun _ _ => trivial, .inl rfl, fun _ hf => .inl hf⟩
  next => exact .refl l

theorem nudges (h : Stirred S l l') {i : Nat} {k : Task} (hk : l.tasks[i]? = some k) :
    ∃ k', l'.tasks[i]? = some k' ∧ k.Nudge False (fun _ => True) (fun _ => False) k' :=
  h.tasks.task i k hk

end Stirred

namespace State

variable {l m l' : State}

theorem perform_stirs (l : State) (j : Job) :
    (∃ t signal st x, Resumed l (l.perform j) t signal st x) ∨
      Stirred l.Expects l (l.perform j) := by
  cases j with
  | step t =>
    rw [perform, stepTask]
    split
    next signal k _ b _ hk =>
      exact .inl ⟨t, signal, k, _, hk, rfl, rfl, rfl, rfl, rfl, rfl, rfl, rfl⟩
    next => exact .inr (.refl l)
  | ring n =>
    right
    rw [perform, ring]
    generalize ho : l.tasks.findIdx? _ = owner
    cases owner with
    | none => exact .refl l
    | some t =>
      -- The owner of the timer waits in line, or rests.
      have hx : l.Expects t := by
        obtain ⟨hlt, hp, _⟩ := List.findIdx?_eq_some_iff_getElem.mp ho
        have hk := List.getElem?_eq_getElem hlt
        generalize l.tasks[t] = k at hp hk
        obtain ⟨status, _, _, _⟩ := k
        rcases status with _ | ⟨w, st⟩ | _ | _
        · cases hp
        · refine ⟨_, w, st, hk, rfl, fun hw => ?_⟩
          cases w <;> first | exact hw | cases hp
        · cases hp
        · cases hp
      dsimp only
      split
      next q _ _ _ _ _ hk =>
        exact (Stirred.modifyPool l q _ fun s => .giveUp s t).trans (.wake _ t _ hx)
      next => exact .wake l t none hx
  | dropBackground q t =>
    exact .inr (.modifyPool l q _ fun s => .dismiss s t)
  | count t ended =>
    right
    rw [perform, count]
    split
    next ts b st _ _ _ hk =>
      have hx : l.Expects t := ⟨_, _, st, hk, rfl, id⟩
      have hm := Stirred.modifyTask (S := l.Expects) l t
        (fun k => { k with status := .paused (.tasks (ts.erase ended) b) st }) hx fun k' hk' => by
          cases hk.symm.trans hk'
          exact ⟨.recounted _ _ _ _ _, .inl rfl, fun _ hf => .inl hf⟩
      dsimp only
      split
      · exact hm.trans (.wake _ t _ hx)
      · exact hm
    next => exact .refl l
  | notice t =>
    right
    rw [perform, notice]
    split
    next hk => exact .wake l t _ ⟨_, _, _, hk, rfl, id⟩
    next => exact .refl l

theorem followAll_stirs (t : Nat) (fs : List Follower) (l : State) :
    Stirred (fun i => .resume i ∈ fs) l (fs.foldl (fun l f => l.follow t f) l) := by
  have go : ∀ (gs : List Follower) (l : State), (∀ g ∈ gs, g ∈ fs) →
      Stirred (fun i => .resume i ∈ fs) l (gs.foldl (fun l f => l.follow t f) l) := by
    intro gs
    induction gs with
    | nil => exact fun l _ => .refl l
    | cons g gs ih =>
      intro l hg
      rw [List.forall_mem_cons] at hg
      refine Stirred.trans ?_ (ih _ hg.2)
      cases g with
      | dropBackground | count => exact .of rfl rfl rfl rfl rfl rfl fun _ s h => ⟨s, h, .refl s⟩
      | resume k => exact .wake l k _ hg.1
  exact go fs l fun _ => id

theorem finish_stirs (l : State) (t : Nat) {u : Shape} (o : Outcome u) :
    Stirred (fun i => ∃ k, l.tasks[t]? = some k ∧ .resume i ∈ k.followers) (l.lay t o)
      (l.finish t o) := by
  have h := followAll_stirs t (((l.tasks[t]?).map (·.followers)).getD []) (l.lay t o)
  cases hk : l.tasks[t]? with
  | none =>
    rw [hk] at h
    simp only [finish, hk]
    exact ⟨h.tasks, fun i _ => h.spared i (by simp), h.running, h.managers, h.standalone, h.engine, h.next,
      h.pools⟩
  | some k =>
    rw [hk] at h
    simp only [finish, hk]
    exact ⟨h.tasks, fun i hi => h.spared i fun hm => hi ⟨k, rfl, hm⟩, h.running, h.managers, h.standalone,
      h.engine, h.next, h.pools⟩

structure Alike (l m : State) : Prop where
  tasks : m.tasks = l.tasks
  running : m.running = l.running
  managers : m.managers = l.managers
  standalone : m.standalone = l.standalone
  engine : m.engine = l.engine
  next : m.nextConnection = l.nextConnection
  pools : m.pools = l.pools

theorem Alike.stirs (h : Alike l m) (j : Job) :
    (∃ t signal st x, Resumed l (m.perform j) t signal st x) ∨
      Stirred l.Expects l (m.perform j) := by
  have hx : m.Expects = l.Expects := by
    funext i
    rw [Expects, Expects, h.tasks]
  refine (m.perform_stirs j).imp ?_ fun hs => ?_
  · rintro ⟨t, signal, st, x, hr⟩
    exact ⟨t, signal, st, x, h.tasks ▸ hr.task, hr.ready, hr.running, h.tasks ▸ hr.tasks,
      hr.managers.trans h.managers, hr.standalone.trans h.standalone, hr.engine.trans h.engine,
      hr.next.trans h.next, hr.pools.trans h.pools⟩
  · rw [hx] at hs
    have hp : ∀ p, m.pool? p = l.pool? p := fun p => by rw [pool?, pool?, h.pools]
    exact ⟨h.tasks ▸ hs.tasks, fun i hi => h.tasks ▸ hs.spared i hi, hs.running.trans h.running,
      hs.managers.trans h.managers, hs.standalone.trans h.standalone, hs.engine.trans h.engine,
      hs.next.trans h.next, fun p s hs' => hs.pools p s ((hp p).trans hs')⟩

theorem idle_stirs (hr : l.running = none) (hl : l.step? = some l') :
    (∃ t signal st x, Resumed l l' t signal st x) ∨ Stirred l.Expects l l' := by
  have job : ∀ {m : State}, Alike l m → m.nextJob = some l' →
      (∃ t signal st x, Resumed l l' t signal st x) ∨ Stirred l.Expects l l' := by
    intro m hm hj
    unfold nextJob at hj
    split at hj
    next => cases hj
    next j rest _ =>
      cases hj
      exact Alike.stirs (m := { m with ready := rest, turnLeft := m.turnLeft - 1 })
        ⟨hm.tasks, hm.running, hm.managers, hm.standalone, hm.engine, hm.next, hm.pools⟩ j
  unfold step? at hl
  rw [hr] at hl
  dsimp only at hl
  split at hl
  · exact job (m := l.startTurn) ⟨rfl, rfl, rfl, rfl, rfl, rfl, rfl⟩ hl
  · exact job ⟨rfl, rfl, rfl, rfl, rfl, rfl, rfl⟩ hl

theorem step_running {r : Running} (hr : l.running = some r) (hl : l.step? = some l') :
    l' = l.advance r := by
  rw [step?, hr] at hl
  exact (Option.some.inj hl).symm

end State

end SqliteAccess.Loop
