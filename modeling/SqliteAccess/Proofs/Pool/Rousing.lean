import SqliteAccess.Proofs.Pool.Asleep

/-!
What the operations of a pool do to the tasks and to the queue of the loop. Whoever is roused has its next step
queued, and nobody who stays asleep in line loses the place there.
-/

namespace SqliteAccess.Loop

def State.Awaits (l : State) (p t : Nat) : Prop := ∃ s, l.pool? p = some s ∧ s.Awaits t

inductive Status.Roused (A : Option Failure → Prop) (C J : Prop) : Status → Status → Prop
  | same (x : Status) : Status.Roused A C J x x
  | woken (w : Wait) (signal : Option Failure) (st : Stack .unit) : A signal → J →
      Status.Roused A C J (.paused w st) (.ready signal st)
  | cut (ts : List Nat) (b : Bool) (st : Stack .unit) : C →
      Status.Roused A C J (.paused (.tasks ts b) st) (.paused (.tasks ts true) st)

structure Task.Roused (A : Option Failure → Prop) (C J : Prop) (E : Follower → Prop) (k k' : Task) : Prop where
  status : k.status.Roused A C J k'.status
  flag : k'.cancelRequested = k.cancelRequested ∨ C ∧ k'.cancelRequested = true
  followers : ∃ fs, k'.followers = k.followers ++ fs ∧ (∀ f ∈ fs, E f) ∧
    ∀ (u : Shape) (o : Outcome u), k.status = .finished u o → fs = []

structure Rouses (p : Nat) (A : Nat → Option Failure → Prop) (C : Nat → Prop) (E : Nat → Follower → Prop)
    (l l' : State) : Prop where
  running : l'.running = l.running
  ready : l.ready <+: l'.ready
  old : ∀ (i : Nat) (k : Task), l.tasks[i]? = some k →
    ∃ k', l'.tasks[i]? = some k' ∧ k.Roused (A i) (C i) (.step i ∈ l'.ready) (E i) k'
  new : ∀ (i : Nat) (k : Task), l'.tasks[i]? = some k → l.tasks.length ≤ i →
    (∃ signal st, k.status = .ready signal st) ∧ .step i ∈ l'.ready ∧
      ∀ f ∈ k.followers, (∃ q, f = .dropBackground q) ∨ E i f
  line : ∀ i, l'.Dozes p i → l.Awaits p i → l'.Awaits p i
  faults : l'.opener.failCloses <:+ l.opener.failCloses

variable {p t : Nat} {A : Nat → Option Failure → Prop} {C : Nat → Prop} {E : Nat → Follower → Prop}
  {l l' l'' : State} {s s' : Pool.State}

theorem Status.Roused.trans {A : Option Failure → Prop} {C J J' : Prop} {x y z : Status} (h : x.Roused A C J y)
    (h' : y.Roused A C J' z) (hJ : J → J') : x.Roused A C J' z := by
  cases h with
  | same => exact h'
  | woken w signal st ha hj =>
    cases h' with
    | same => exact .woken w signal st ha (hJ hj)
  | cut ts b st hc =>
    cases h' with
    | same => exact .cut ts b st hc
    | woken _ signal _ ha hj => exact .woken _ signal st ha hj
    | cut => exact .cut ts b st hc

section NotPaused

variable {A : Option Failure → Prop} {C J : Prop} {x y : Status}

theorem Status.Roused.ready (h : x.Roused A C J y) {signal : Option Failure} {st : Stack .unit}
    (hx : x = .ready signal st) : y = .ready signal st := by
  subst hx
  cases h
  rfl

theorem Status.Roused.running (h : x.Roused A C J y) (hx : x = .running) : y = .running := by
  subst hx
  cases h
  rfl

theorem Status.Roused.finished (h : x.Roused A C J y) {u : Shape} {o : Outcome u} (hx : x = .finished u o) :
    y = .finished u o := by
  subst hx
  cases h
  rfl

end NotPaused

theorem Task.no_followers (k : Task) (E : Follower → Prop) : ∃ fs, k.followers = k.followers ++ fs ∧
    (∀ f ∈ fs, E f) ∧ ∀ (u : Shape) (o : Outcome u), k.status = .finished u o → fs = [] :=
  ⟨[], (List.append_nil _).symm, by simp, fun _ _ _ => rfl⟩

theorem Task.Roused.refl (A : Option Failure → Prop) (C J : Prop) (E : Follower → Prop) (k : Task) :
    k.Roused A C J E k :=
  ⟨.same _, .inl rfl, k.no_followers E⟩

theorem Task.Roused.trans {A : Option Failure → Prop} {C J J' : Prop} {E : Follower → Prop} {k k' k'' : Task}
    (h : k.Roused A C J E k') (h' : k'.Roused A C J' E k'') (hJ : J → J') : k.Roused A C J' E k'' := by
  obtain ⟨fs, hfs, hE, hend⟩ := h.followers
  obtain ⟨fs', hfs', hE', hend'⟩ := h'.followers
  refine ⟨h.status.trans h'.status hJ, ?_, fs ++ fs', by rw [hfs', hfs, List.append_assoc], ?_, ?_⟩
  · rcases h'.flag with hf | hf
    · exact hf ▸ h.flag
    · exact .inr hf
  · intro f hf
    rcases List.mem_append.mp hf with hf | hf
    · exact hE f hf
    · exact hE' f hf
  · intro u o ho
    rw [hend u o ho, hend' u o (h.status.finished ho), List.append_nil]

theorem State.Ended.isFinished {u : Shape} {o : Outcome u} (h : l.Ended t o) : l.isFinished t = true := by
  obtain ⟨⟨status, _, _, _⟩, hk, hs⟩ := h
  cases hs
  rw [State.isFinished, hk]

theorem Task.Roused.follow {A : Option Failure → Prop} {C J : Prop} {E : Follower → Prop} {k : Task} {f : Follower}
    (hk : l.tasks[t]? = some k) (hf : ¬ l.isFinished t = true) (hE : E f) :
    k.Roused A C J E { k with followers := k.followers ++ [f] } :=
  ⟨.same _, .inl rfl, [f], rfl, by simpa using hE, fun u o ho => absurd (State.Ended.isFinished ⟨k, hk, ho⟩) hf⟩

namespace Rouses

theorem refl : Rouses p A C E l l := by
  refine ⟨rfl, List.prefix_refl _, fun i k hk => ⟨k, hk, .refl _ _ _ _ k⟩, fun i k hk hi => ?_, fun _ _ => id,
    List.suffix_refl _⟩
  exact absurd (List.getElem?_eq_some_iff.mp hk).1 (Nat.not_lt.mpr hi)

theorem paused (h : Rouses p A C E l l') {i : Nat} {k' : Task} {w : Wait} {st : Stack .unit}
    (hk' : l'.tasks[i]? = some k') (hs : k'.status = .paused w st) :
    ∃ k, l.tasks[i]? = some k ∧
      (k.status = .paused w st ∨ ∃ ts b, w = .tasks ts true ∧ k.status = .paused (.tasks ts b) st) := by
  by_cases hlt : i < l.tasks.length
  · obtain ⟨k₁, hk₁, hr⟩ := h.old i _ (List.getElem?_eq_getElem hlt)
    cases hk'.symm.trans hk₁
    have hst := hr.status
    rw [hs] at hst
    refine ⟨_, List.getElem?_eq_getElem hlt, ?_⟩
    generalize (l.tasks[i]).status = x at hst
    cases hst with
    | same => exact .inl rfl
    | cut ts b => exact .inr ⟨ts, b, rfl, rfl⟩
  · obtain ⟨_, _, hs'⟩ := (h.new i k' hk' (Nat.le_of_not_lt hlt)).1
    cases hs.symm.trans hs'

theorem dozes (h : Rouses p A C E l l') {i : Nat} (hi : l'.Dozes p i) : l.Dozes p i := by
  obtain ⟨k', timer, st, hk', hs⟩ := hi
  obtain ⟨k, hk, hs | ⟨_, _, hw, _⟩⟩ := h.paused hk' hs
  · exact ⟨k, timer, st, hk, hs⟩
  · cases hw

theorem trans (h : Rouses p A C E l l') (h' : Rouses p A C E l' l'') : Rouses p A C E l l'' := by
  refine ⟨h'.running.trans h.running, h.ready.trans h'.ready, fun i k hk => ?_, fun i k'' hk'' hi => ?_,
    fun i hd ha => h'.line i hd (h.line i (h'.dozes hd) ha), h'.faults.trans h.faults⟩
  · obtain ⟨k', hk', hr⟩ := h.old i k hk
    obtain ⟨k'', hk'', hr'⟩ := h'.old i k' hk'
    exact ⟨k'', hk'', hr.trans hr' fun hj => h'.ready.subset hj⟩
  · by_cases hlt : i < l'.tasks.length
    · have hk' := List.getElem?_eq_getElem hlt
      obtain ⟨⟨signal, st, hs⟩, hj, hf⟩ := h.new i _ hk' hi
      obtain ⟨k₁, hk₁, hr⟩ := h'.old i _ hk'
      cases hk''.symm.trans hk₁
      refine ⟨⟨signal, st, hr.status.ready hs⟩, h'.ready.subset hj, fun f hm => ?_⟩
      obtain ⟨fs, hfs, hE, _⟩ := hr.followers
      rw [hfs] at hm
      rcases List.mem_append.mp hm with hm | hm
      · exact hf f hm
      · exact .inr (hE f hm)
    · exact h'.new i k'' hk'' (Nat.le_of_not_lt hlt)

theorem apart (h : Rouses p A C E l l') (hr : l''.running = l'.running) (hq : l'.ready <+: l''.ready)
    (ht : l''.tasks = l'.tasks) (hp : l''.pools = l'.pools)
    (ho : l''.opener.failCloses <:+ l'.opener.failCloses) : Rouses p A C E l l'' := by
  have hpool : l''.pool? p = l'.pool? p := by rw [State.pool?, hp, State.pool?]
  refine h.trans ⟨hr, hq, fun i k hk => ⟨k, ht ▸ hk, .refl _ _ _ _ k⟩, fun i k hk hi => ?_, fun i _ ha => ?_, ho⟩
  · rw [ht] at hk
    exact absurd (List.getElem?_eq_some_iff.mp hk).1 (Nat.not_lt.mpr hi)
  · rwa [State.Awaits, hpool]

theorem modifyPool (h : Rouses p A C E l l') (q : Nat) {f : Pool.State → Pool.State}
    (hf : ∀ s, l'.pool? p = some s → q = p → ∀ i, l'.Dozes p i → s.Awaits i → (f s).Awaits i) :
    Rouses p A C E l (l'.modifyPool q f) := by
  have hpool : (l'.modifyPool q f).pool? p = if q = p then (l'.pool? p).map f else l'.pool? p := by
    by_cases hq : q = p
    · subst hq
      simp [State.pool?, State.modifyPool]
    · simp [State.pool?, State.modifyPool, hq]
  refine h.trans ⟨rfl, List.prefix_refl _, fun i k hk => ⟨k, hk, .refl _ _ _ _ k⟩, fun i k hk hi => ?_,
    fun i hd ha => ?_, List.suffix_refl _⟩
  · exact absurd (List.getElem?_eq_some_iff.mp hk).1 (Nat.not_lt.mpr hi)
  · obtain ⟨s, hs, ha⟩ := ha
    rw [State.Awaits, hpool]
    split
    next hq => exact ⟨f s, by rw [hs]; rfl, hf s hs hq i hd ha⟩
    next => exact ⟨s, hs, ha⟩

theorem tidy (h : Rouses p A C E l l') (q : Nat) {f : Pool.State → Pool.State}
    (hf : ∀ s, l'.pool? p = some s → (f s).waiters = s.waiters) : Rouses p A C E l (l'.modifyPool q f) := by
  refine h.modifyPool q fun s hs _ i _ ha => ?_
  rwa [Pool.State.Awaits, hf s hs]

theorem report (h : Rouses p A C E l l') (r : Log.Record) : Rouses p A C E l (l'.report r) := by
  unfold State.report
  split
  · exact h.apart rfl (List.prefix_refl _) rfl rfl (List.suffix_refl _)
  · exact h

theorem modifyTask (h : Rouses p A C E l l') {f : Task → Task}
    (hf : ∀ k, l'.tasks[t]? = some k → k.Roused (A t) (C t) False (E t) (f k)) :
    Rouses p A C E l (l'.modifyTask t f) := by
  refine h.trans ⟨rfl, List.prefix_refl _, fun i k hk => ?_, fun i k hk hi => ?_, fun i _ => id,
    List.suffix_refl _⟩
  · by_cases hi : t = i
    · subst hi
      refine ⟨f k, by simp [State.modifyTask, hk], ?_⟩
      exact (hf k hk).trans (.refl _ _ _ _ _) False.elim
    · exact ⟨k, by simp [State.modifyTask, hi, hk], .refl _ _ _ _ k⟩
  · have hlt := (List.getElem?_eq_some_iff.mp hk).1
    rw [State.modifyTask, List.length_modify] at hlt
    exact absurd hlt (Nat.not_lt.mpr hi)

theorem wake (h : Rouses p A C E l l') (t : Nat) {signal : Option Failure} (ha : A t signal) :
    Rouses p A C E l (l'.wake t signal) := by
  refine h.trans ?_
  by_cases hp : ∃ k w st, l'.tasks[t]? = some k ∧ k.status = .paused w st
  · obtain ⟨k, w, st, hk, hs⟩ := hp
    rw [State.wake_of_paused hk hs]
    refine ⟨rfl, List.prefix_append _ _, fun i k' hk' => ?_, fun i k' hk' hi => ?_, fun i _ => id,
      List.suffix_refl _⟩
    · by_cases hi : t = i
      · subst hi
        cases hk.symm.trans hk'
        refine ⟨{ k with status := .ready signal st }, by simp [State.enqueue, State.modifyTask, hk], ?_, .inl rfl,
          k.no_followers _⟩
        rw [hs]
        exact .woken w signal st ha (List.mem_append_right _ (List.mem_singleton_self _))
      · exact ⟨k', by simp [State.enqueue, State.modifyTask, hi, hk'], .refl _ _ _ _ k'⟩
    · have hlt := (List.getElem?_eq_some_iff.mp hk').1
      rw [State.enqueue, State.modifyTask, List.length_modify] at hlt
      exact absurd hlt (Nat.not_lt.mpr hi)
  · have hw : l'.wake t signal = l' := by
      unfold State.wake
      split
      next w st _ _ _ hk => exact absurd ⟨_, w, st, hk, rfl⟩ hp
      next => rfl
    rw [hw]
    exact .refl

theorem wakeInLine (h : Rouses p A C E l l') (t : Nat) {signal : Option Failure} (ha : A t signal) :
    Rouses p A C E l (l'.wakeInLine t signal) := by
  unfold State.wakeInLine
  split
  next n _ _ _ _ _ =>
    have hn : Rouses p A C E l (l'.dropTimer n) := h.apart rfl (List.prefix_refl _) rfl rfl (List.suffix_refl _)
    exact hn.wake t ha
  next => exact h.wake t ha

end Rouses

theorem State.wake_modifyPool (l : State) (q t : Nat) (f : Pool.State → Pool.State) (signal : Option Failure) :
    (l.modifyPool q f).wake t signal = (l.wake t signal).modifyPool q f := by
  unfold State.wake
  dsimp only [State.modifyPool]
  split <;> rfl

theorem State.wakeInLine_modifyPool (l : State) (q t : Nat) (f : Pool.State → Pool.State)
    (signal : Option Failure) :
    (l.modifyPool q f).wakeInLine t signal = (l.wakeInLine t signal).modifyPool q f := by
  unfold State.wakeInLine
  dsimp only [State.modifyPool]
  split
  next n _ _ _ _ _ => exact State.wake_modifyPool (l.dropTimer n) q t f signal
  next => exact State.wake_modifyPool l q t f signal

theorem State.wakeAll_modifyPool (l : State) (q : Nat) (f : Pool.State → Pool.State) (ts : List Nat)
    (signal : Option Failure) :
    ts.foldl (fun l t => l.wakeInLine t signal) (l.modifyPool q f) =
      (ts.foldl (fun l t => l.wakeInLine t signal) l).modifyPool q f := by
  induction ts generalizing l with
  | nil => rfl
  | cons t ts ih => rw [List.foldl_cons, State.wakeInLine_modifyPool, ih, List.foldl_cons]

theorem State.wake_not_paused (l : State) (t : Nat) (signal : Option Failure) {k : Task}
    (hk : (l.wake t signal).tasks[t]? = some k) (w : Wait) (st : Stack .unit) : k.status ≠ .paused w st := by
  intro hs
  by_cases hp : ∃ k w st, l.tasks[t]? = some k ∧ k.status = .paused w st
  · obtain ⟨k₁, w₁, st₁, hk₁, hs₁⟩ := hp
    rw [State.wake_of_paused hk₁ hs₁] at hk
    obtain rfl : { k₁ with status := .ready signal st₁ } = k := by
      simpa [State.enqueue, State.modifyTask, hk₁] using hk
    cases hs
  · unfold State.wake at hk
    split at hk
    next w₁ st₁ _ _ _ hk₁ => exact hp ⟨_, w₁, st₁, hk₁, rfl⟩
    next => exact hp ⟨k, w, st, hk, hs⟩

theorem State.not_dozes_wake (l : State) (t : Nat) (signal : Option Failure) : ¬ (l.wake t signal).Dozes p t := by
  rintro ⟨k, timer, st, hk, hs⟩
  exact l.wake_not_paused t signal hk _ st hs

theorem State.not_dozes_wakeInLine (l : State) (t : Nat) (signal : Option Failure) :
    ¬ (l.wakeInLine t signal).Dozes p t := by
  unfold State.wakeInLine
  split
  next n _ _ _ _ _ => exact (l.dropTimer n).not_dozes_wake t signal
  next => exact l.not_dozes_wake t signal

namespace Rouses

theorem wakeAll (h : Rouses p A C E l l') (ts : List Nat) {signal : Option Failure}
    (ha : ∀ t ∈ ts, A t signal) :
    Rouses p A C E l (ts.foldl (fun l t => l.wakeInLine t signal) l') ∧
      ∀ i, (ts.foldl (fun l t => l.wakeInLine t signal) l').Dozes p i → i ∉ ts := by
  induction ts generalizing l l' with
  | nil => exact ⟨h, fun _ _ => List.not_mem_nil⟩
  | cons t ts ih =>
    rw [List.forall_mem_cons] at ha
    obtain ⟨hr, _⟩ := ih (h.wakeInLine t ha.1) ha.2
    obtain ⟨hr', hd⟩ := ih (l := l'.wakeInLine t signal) .refl ha.2
    refine ⟨hr, fun i hi hm => ?_⟩
    rcases List.mem_cons.mp hm with rfl | hm
    · exact l'.not_dozes_wakeInLine i signal (hr'.dozes hi)
    · exact hd i hi hm

theorem dismiss (h : Rouses p A C E l l') (hp : l'.pool? p = some s) (s' : Pool.State) (ts : List Nat)
    {signal : Option Failure} (ha : ∀ t ∈ ts, A t signal) (hs : ∀ i ∉ ts, s.Awaits i → s'.Awaits i) :
    Rouses p A C E l (ts.foldl (fun l t => l.wakeInLine t signal) (l'.modifyPool p fun _ => s')) := by
  obtain ⟨hr, hd⟩ := h.wakeAll ts ha
  have hpools : (ts.foldl (fun l t => l.wakeInLine t signal) l').pool? p = some s := by
    rw [← hp]
    clear hr hd h hp ha hs
    induction ts generalizing l' with
    | nil => rfl
    | cons t ts ih => rw [List.foldl_cons, ih, State.pool?, State.wakeInLine_pools, State.pool?]
  rw [State.wakeAll_modifyPool]
  refine hr.modifyPool p fun s₁ hs₁ _ => ?_
  cases hpools.symm.trans hs₁
  exact fun i hi => hs i (hd i hi)

theorem giveUp (h : Rouses p A C E l l') (hd : ¬ l'.Dozes p t) (q : Nat) :
    Rouses p A C E l (l'.modifyPool q fun s => s.giveUp t) := by
  refine h.modifyPool q fun s _ _ i hi haw => ?_
  have hne : i ≠ t := fun he => hd (he ▸ hi)
  obtain ⟨w, hw, rfl, hpend⟩ := haw
  exact ⟨w, List.mem_map.mpr ⟨w, hw, by rw [if_neg hne]⟩, rfl, hpend⟩

theorem leaveLine (h : Rouses p A C E l l') (hd : ¬ l'.Dozes p t) (q : Nat) :
    Rouses p A C E l (l'.modifyPool q fun s => s.leaveLine t) := by
  refine h.modifyPool q fun s _ _ i hi haw => ?_
  have hne : i ≠ t := fun he => hd (he ▸ hi)
  obtain ⟨w, hw, rfl, hpend⟩ := haw
  exact ⟨w, (List.mem_eraseP_of_neg (by simpa using hne)).mpr hw, rfl, hpend⟩

theorem spawn (h : Rouses p A C E l l') {u : Shape} (c : Call u) {fs : List Follower}
    (hf : ∀ f ∈ fs, ∃ q, f = .dropBackground q) : Rouses p A C E l (l'.spawn c fs).1 := by
  have last : ∀ {i : Nat} {k : Task}, (l'.spawn c fs).1.tasks[i]? = some k → l'.tasks.length ≤ i →
      i = l'.tasks.length ∧
        k = { status := .ready none (.push (.start c) (.done u)), context := l'.context, followers := fs } := by
    intro i k hk hi
    rcases append_cases hk with hk | hk
    · exact absurd (List.getElem?_eq_some_iff.mp hk).1 (Nat.not_lt.mpr hi)
    · exact hk
  refine h.trans ⟨rfl, List.prefix_append _ _, fun i k hk => ⟨k, ?_, .refl _ _ _ _ k⟩, fun i k hk hi => ?_,
    fun i _ => id, List.suffix_refl _⟩
  · exact (List.getElem?_append_left (List.getElem?_eq_some_iff.mp hk).1).trans hk
  · obtain ⟨rfl, rfl⟩ := last hk hi
    exact ⟨⟨none, _, rfl⟩, List.mem_append_right _ (List.mem_singleton_self _), fun f hm => .inl (hf f hm)⟩

theorem spawnBackground (h : Rouses p A C E l l') (c : Call .unit) : Rouses p A C E l (l'.spawnBackground p c) :=
  (h.spawn c (by simp)).tidy p fun _ _ => rfl

theorem spawnOpens (h : Rouses p A C E l l') (n : Nat) : Rouses p A C E l (l'.spawnOpens p n) := by
  induction n generalizing l' with
  | zero => exact h
  | succ n ih =>
    exact ih ((h.tidy p (f := Pool.State.reserveBackground) fun _ _ => rfl).spawnBackground _)

theorem grow (h : Rouses p A C E l l') : Rouses p A C E l (l'.grow p).1 := by
  unfold State.grow
  split
  · exact h
  · split
    · exact h
    next n _ => exact h.spawnOpens n

theorem ensureMinimum (h : Rouses p A C E l l') : Rouses p A C E l (l'.ensureMinimum p).1 := by
  unfold State.ensureMinimum
  split
  · exact h
  · split
    · exact h
    next n _ => exact h.spawnOpens n

theorem growThen (h : Rouses p A C E l l') {u : Shape} (o : Outcome u) :
    Rouses p A C E l (l'.growThen p o).1 := by
  have hg := h.grow
  unfold State.growThen
  generalize l'.grow p = x at hg ⊢
  obtain ⟨m, e | _⟩ := x <;> exact hg

theorem turn (h : Rouses p A C E l l') (hp : l'.pool? p = some s) {ws : List Pool.Waiter} {o : Option Nat}
    (hn : Pool.nextWaiter s.waiters = (ws, o)) (hw : s'.waiters = ws)
    {signal : Option Failure} (ha : ∀ i ∈ s.line, A i signal) :
    Rouses p A C E l (match o with
      | some t => (l'.modifyPool p fun _ => s').wakeInLine t signal
      | none => l'.modifyPool p fun _ => s') := by
  have ht := Pool.nextWaiter_turn s.waiters
  rw [hn] at ht
  cases ht with
  | next before w rest hline hbefore _ =>
    have hmem : w ∈ s.waiters := by rw [hline]; simp
    refine h.dismiss hp s' [w.task] (by simpa using ha _ (List.mem_map_of_mem hmem)) (fun i hi haw => ?_)
    obtain ⟨v, hv, rfl, hpend⟩ := haw
    rw [hline, List.mem_append, List.mem_cons] at hv
    rcases hv with hv | rfl | hv
    · exact absurd hpend (by simp [hbefore v hv])
    · exact absurd (List.mem_singleton_self _) hi
    · exact ⟨v, hw ▸ hv, rfl, hpend⟩
  | nobody hnobody =>
    refine h.modifyPool p fun s₁ hs₁ _ i _ haw => ?_
    cases hp.symm.trans hs₁
    obtain ⟨v, hv, _, hpend⟩ := haw
    exact absurd hpend (by simp [hnobody v hv])

theorem checkin (h : Rouses p A C E l l') (id : Nat)
    (ha : ∀ s, l'.pool? p = some s → ∀ i ∈ s.line, A i none) : Rouses p A C E l (l'.checkin p id) := by
  unfold State.checkin
  split
  · exact h
  next s hp =>
    unfold Pool.State.checkin
    generalize hn : Pool.nextWaiter s.waiters = x
    obtain ⟨ws, o⟩ := x
    cases o <;> refine h.turn hp hn ?_ (ha s hp) <;> rfl

theorem failLongestWaiting (h : Rouses p A C E l l') (e : Failure)
    (ha : ∀ s, l'.pool? p = some s → ∀ i ∈ s.line, A i (some e)) :
    Rouses p A C E l (l'.failLongestWaiting p e) := by
  unfold State.failLongestWaiting
  split
  · exact h
  next s hp =>
    unfold Pool.State.failFirst
    generalize hn : Pool.nextWaiter s.waiters = x
    obtain ⟨ws, o⟩ := x
    cases o <;> refine h.turn hp hn ?_ (ha s hp) <;> rfl

theorem requestCancel (h : Rouses p A C E l l') (hc : C t) : Rouses p A C E l (l'.requestCancel t) :=
  h.modifyTask fun _ _ => ⟨.same _, .inr ⟨hc, rfl⟩, Task.no_followers _ _⟩

theorem abandon (h : Rouses p A C E l l') (w : Wait) (ha : A t (some .cancelled)) :
    Rouses p A C E l ((l'.abandonWait t w).wakeInLine t (some .cancelled)) := by
  have apart : (∀ q timer, w ≠ .turn q timer) → Rouses p A C E l (l'.abandonWait t w) := by
    intro hw
    cases w with
    | turn q timer => exact absurd rfl (hw q timer)
    | task | tasks | givenUp | opening | closing | held | sleep | lock =>
      exact h.apart rfl (List.prefix_refl _) rfl rfl (List.suffix_refl _)
  cases w with
  | turn q timer =>
    rw [State.abandonWait, State.wakeInLine_modifyPool]
    exact (h.wakeInLine t ha).giveUp (l'.not_dozes_wakeInLine t _) q
  | task | tasks | givenUp | opening | closing | held | sleep | lock => exact (apart (by simp)).wakeInLine t ha

theorem cancelWithin (h : Rouses p A C E l l') (depth : Nat) (hc : C t) (ha : A t (some .cancelled))
    (hp : ∀ k, l'.tasks[t]? = some k → k.Passes → ∀ i, C i ∧ A i (some .cancelled)) :
    Rouses p A C E l (l'.cancelWithin t depth) := by
  induction depth generalizing l' t with
  | zero => exact h.requestCancel hc
  | succ depth ih =>
    rw [State.cancelWithin]
    cases hk : l'.tasks[t]? with
    | none => exact h
    | some k =>
      have hp := hp k hk
      obtain ⟨status, context, flag, followers⟩ := k
      cases status with
      | ready | running => exact h.requestCancel hc
      | finished => exact h
      | paused w st =>
        cases w with
        | task r =>
          have hall := hp ⟨_, _, rfl, trivial⟩
          dsimp only
          split
          · exact h.requestCancel hc
          · exact ih h (hall r).1 (hall r).2 fun _ _ _ => hall
        | tasks ts b =>
          have hall := hp ⟨_, _, rfl, trivial⟩
          have h' := h.modifyTask (t := t) (f := fun k => { k with status := .paused (.tasks ts true) st })
            fun k' hk' => by
              cases hk.symm.trans hk'
              exact ⟨.cut ts b st hc, .inl rfl, Task.no_followers ⟨.paused (.tasks ts b) st, context, flag, followers⟩ _⟩
          dsimp only
          generalize l'.modifyTask t _ = m at h'
          clear hk hp h
          induction ts generalizing m with
          | nil => exact h'
          | cons r ts ih' => exact ih' _ (ih h' (hall r).1 (hall r).2 fun _ _ _ => hall)
        | turn | givenUp | opening | closing | held | sleep | lock => exact h.abandon _ ha

end Rouses

end SqliteAccess.Loop
