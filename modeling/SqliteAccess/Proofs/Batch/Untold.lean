import SqliteAccess.Proofs.Batch.Aloof

/-!
Whatever happens, nobody tells a task anything that it has nothing to do with, and a task that there is not yet
has nothing to do with anybody.
-/

namespace SqliteAccess.Loop

variable {l m l' : State} {t i : Nat} {u : Shape} {may : {s : Shape} → State → Call s → Prop} {past : List State}

theorem Aloof.of_tasks {f : Task → Task} (hp : l'.pools = l.pools) (ht : l'.tasks = l.tasks.modify i f) (hi : i ≠ t)
    (hf : ∀ k, (f k).followers = k.followers) : Aloof t l l' := by
  have hm : Aloof t l (l.modifyTask i f) :=
    (Aloof.refl t l).modifyTask i fun k _ => ⟨fun he => absurd he hi, fun hr => hf k ▸ hr⟩
  exact hm.quiet hp ht

theorem Aloof.carryOn (h : Aloof t l m) (hi : i ≠ t) (n : Next u) (k : Stack u) : Aloof t l (m.carryOn i n k) := by
  cases n with
  | give | call | jump => exact h.quiet rfl rfl
  | pause w f =>
    have hp : Aloof t l (m.modifyTask i fun x => { x with status := .paused w (.push f k) }) :=
      h.modifyTask i fun _ _ => ⟨fun he => absurd he hi, id⟩
    exact hp.quiet rfl rfl
  | again f =>
    have hp : Aloof t l (m.modifyTask i fun x => { x with status := .ready none (.push f k) }) :=
      h.modifyTask i fun _ _ => ⟨fun he => absurd he hi, id⟩
    exact hp.quiet rfl rfl

theorem Aloof.finish (hi : i ≠ t) (ha : ¬ l.Awaited t) (o : Outcome u) : Aloof t l (l.finish i o) := by
  have hlay : Aloof t l { l.modifyTask i fun k => { k with status := .finished u o, followers := [] } with
      running := none } := by
    refine Aloof.quiet ((Aloof.refl t l).modifyTask i fun k _ => ⟨fun he => absurd he hi, fun hr => ?_⟩) rfl rfl
    cases hr
  have all : ∀ (fs : List Follower) {m : State}, .resume t ∉ fs → Aloof t l m →
      Aloof t l (fs.foldl (fun l f => l.follow i f) m) := by
    intro fs
    induction fs with
    | nil => exact fun _ h => h
    | cons f fs ih =>
      intro m hf h
      rw [List.mem_cons, not_or] at hf
      refine ih hf.2 ?_
      cases f with
      | dropBackground | count => exact h.enqueue _
      | resume j => exact h.wake j fun hj => absurd (congrArg Follower.resume hj.symm) hf.1
  refine all _ ?_ hlay
  cases hx : l.tasks[i]? with
  | none => exact List.not_mem_nil
  | some k => exact fun hf => ha ⟨i, k, hx, hf⟩

theorem Aloof.ring (h : Aloof t l m) (r : Nat) : Aloof t l (m.ring r) := by
  rw [State.ring]
  generalize m.tasks.findIdx? _ = owner
  cases owner with
  | none => exact h
  | some i =>
    dsimp only
    split
    next p timer st _ _ _ hk =>
      refine Aloof.wake (h.abandonWait i (.turn p none)) i fun hi => .inr (.inr (.inr fun _ hs => ?_))
      subst hi
      have hat : m.status? i = some (.paused (.turn p timer) st) := by rw [State.status?, hk]; rfl
      cases hat.symm.trans hs
    next => exact h.wake i fun _ => .inl rfl

theorem Aloof.count (h : Aloof t l m) (i ended : Nat) : Aloof t l (m.count i ended) := by
  rw [State.count]
  split
  next ts b st _ _ _ hk =>
    have hm : Aloof t l (m.modifyTask i fun k => { k with status := .paused (.tasks (ts.erase ended) b) st }) :=
      h.modifyTask i fun k' hk' => by
        cases hk.symm.trans hk'
        exact ⟨fun _ hl => hl.elim, id⟩
    dsimp only
    split
    · refine hm.wake i fun _ => ?_
      cases b with
      | true => exact .inr (.inl rfl)
      | false => exact .inl rfl
    · exact hm
  next => exact h

theorem Aloof.notice (h : Aloof t l m) (i : Nat) : Aloof t l (m.notice i) := by
  rw [State.notice]
  split
  next p st _ _ _ hk =>
    refine h.wake i fun hi => .inr (.inr (.inr fun _ hs => ?_))
    subst hi
    have hat : m.status? i = some (.paused (.givenUp p) st) := by rw [State.status?, hk]; rfl
    cases hat.symm.trans hs
  next => exact h

theorem Aloof.perform (h : Aloof t l m) (j : Job) :
    (∃ signal st x, Resumed m (m.perform j) t signal st x) ∨ Aloof t l (m.perform j) := by
  cases j with
  | step i =>
    by_cases hi : i = t
    · subst hi
      rw [State.perform, State.stepTask]
      split
      next signal k _ b _ hk => exact .inl ⟨signal, k, _, hk, rfl, rfl, rfl, rfl, rfl, rfl, rfl, rfl⟩
      next => exact .inr h
    · refine .inr ?_
      rw [State.perform, State.stepTask]
      split
      · exact h.trans (.of_tasks (l := m) rfl rfl hi fun _ => rfl)
      · exact h
  | ring r => exact .inr (h.ring r)
  | dropBackground p i => exact .inr (h.tweakPool p fun _ => rfl)
  | count i ended => exact .inr (h.count i ended)
  | notice i => exact .inr (h.notice i)

theorem State.step_aloof (ha : ¬ l.Awaited t) (hl : l.step? = some l') :
    (∃ r, l.running = some r ∧ r.task = t) ∨
      (l.running = none ∧ ∃ signal st x, Resumed l l' t signal st x) ∨ Aloof t l l' := by
  have job : ∀ {m : State}, m.tasks = l.tasks → m.managers = l.managers → m.standalone = l.standalone →
      m.engine = l.engine → m.nextConnection = l.nextConnection → m.pools = l.pools → l.running = none →
      m.nextJob = some l' → (∃ r, l.running = some r ∧ r.task = t) ∨
        (l.running = none ∧ ∃ signal st x, Resumed l l' t signal st x) ∨ Aloof t l l' := by
    intro m ht hk hs he hn hp hr hj
    unfold State.nextJob at hj
    split at hj
    next => cases hj
    next j rest _ =>
      cases hj
      have hm : Aloof t l { m with ready := rest, turnLeft := m.turnLeft - 1 } := (Aloof.refl t l).quiet hp ht
      rcases hm.perform j with ⟨signal, st, x, hx⟩ | hx
      · exact .inr (.inl ⟨hr, signal, st, x, ht ▸ hx.task, hx.ready, hx.running, ht ▸ hx.tasks, hx.managers.trans hk,
          hx.standalone.trans hs, hx.engine.trans he, hx.next.trans hn, hx.pools.trans hp⟩)
      · exact .inr (.inr hx)
  cases hr : l.running with
  | some r =>
    by_cases ht : r.task = t
    · exact .inl ⟨r, rfl, ht⟩
    · refine .inr (.inr ?_)
      rw [State.step_running hr hl]
      have hcur : l.currentTask = r.task := by simp [State.currentTask, State.current?, hr]
      rcases r.cases_on with ⟨u, w, k, he⟩ | ⟨u, o, he⟩
      · rw [he, State.advance_on]
        exact (w.aloof l fun hc => absurd (hcur.symm.trans hc) ht).carryOn ht _ k
      · rw [he]
        exact .finish ht ha o
  | none =>
    unfold State.step? at hl
    rw [hr] at hl
    dsimp only at hl
    rw [hr] at job
    split at hl
    · exact job (m := l.startTurn) rfl rfl rfl rfl rfl rfl rfl hl
    · exact job rfl rfl rfl rfl rfl rfl rfl hl

theorem Aloof.entered (l : State) (c : Call u) : Aloof t l (l.enter c) := by
  have ha := (Aloof.refl t l).append (k := { status := .running, context := l.context }) List.not_mem_nil
  exact ha.quiet rfl rfl

theorem State.Happens.aloof (hs : l.Happens may l') (ha : ¬ l.Awaited t) :
    (∃ r, l.running = some r ∧ r.task = t) ∨
      (l.running = none ∧ ∃ signal st x, Resumed l l' t signal st x) ∨ Aloof t l l' := by
  have same : Aloof t l l := .refl t l
  cases hs with
  | loop hl => exact State.step_aloof ha hl
  | @enter _ c _ _ => exact .inr (.inr (.entered l c))
  | @spawn _ c _ _ => exact .inr (.inr (same.spawn c List.not_mem_nil))
  | giveBack M c _ => exact .inr (.inr (same.giveBack M (some c)))
  | cancel i _ => exact .inr (.inr (same.cancel i))
  | @answer i k st _ _ _ =>
    have hg : Aloof t l (l.modifyEngine fun e => e.letGo i) := same.quiet rfl rfl
    exact .inr (.inr (hg.wake i fun _ => .inl rfl))
  | engine | tick => exact .inr (.inr (same.quiet rfl rfl))

theorem State.Happens.length_le (hs : l.Happens may l') : l.tasks.length ≤ l'.tasks.length := by
  rcases hs.cases with hl | ⟨_, ⟨_, c, _, rfl | rfl⟩ | ht⟩
  · cases State.step_turn hl with
    | @works t u w k hr => rw [State.carryOn_length]; exact (w.placid l).undisturbed.length
    | ends _ ht => simpa [State.lay, State.modifyTask] using ht.undisturbed.length
    | goesOn _ hres => simp [hres.tasks]
    | rests _ ht => exact ht.undisturbed.length
  · simp [State.enter]
  · simp [State.spawn, State.enqueue]
  · exact ht.undisturbed.length

theorem State.Happens.clear_of_le (hs : l.Happens may l') (hat : l.AtWork) (hle : l.tasks.length ≤ t)
    (hc : l.Clear t) : l'.Clear t := by
  rcases hs.aloof hc.2 with ⟨r, hr, he⟩ | ⟨_, signal, st, x, hx⟩ | ha
  · have := hat.lt hr
    omega
  · have := (List.getElem?_eq_some_iff.mp hx.task).1
    omega
  · exact ha.clear hc

theorem Course.clear (h : Course may l past m) (hl : l.tasks = []) (hr : l.running = none) (hp : l.pools = [])
    (hi : m.tasks.length ≤ t) : m.Clear t := by
  have hall : ∀ t, m.tasks.length ≤ t → m.Clear t := by
    refine h.induct (P := fun _ m => ∀ t, m.tasks.length ≤ t → m.Clear t) (fun t _ => ?_)
      fun past m m' hc ih hs t ht => ?_
    · refine ⟨fun p => by simp [State.places, State.pool?, hp], ?_⟩
      rintro ⟨j, x, hx, _⟩
      simp [hl] at hx
    · have hle := hs.length_le.trans ht
      exact hs.clear_of_le (hc.atWork (.of_none hr)) hle (ih t hle)
  exact hall t hi

end SqliteAccess.Loop
