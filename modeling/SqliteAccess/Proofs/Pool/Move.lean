import SqliteAccess.Proofs.Pool.Sound

/-!
Each step of a run is a step of a call, or leaves all stacks as they are: a task ends or goes on,
tasks are nudged, callers come in, connections are given back.
-/

namespace SqliteAccess.Loop

def Task.answer (k : Task) (signal : Option Failure) : Outcome .unit :=
  match if k.cancelRequested then some Failure.cancelled else signal with
  | some e => .error e
  | none => .ok ()

def State.lay (l : State) (t : Nat) {u : Shape} (o : Outcome u) : State :=
  { l.modifyTask t fun k => { k with status := .finished u o, followers := [] } with running := none }

def State.EndsWith (l : State) (e : Failure) (t : Nat) : Prop :=
  ∃ i u k, l.running = some ⟨i, u, .give (.error e), .done u⟩ ∧ l.tasks[i]? = some k ∧
    .resume t ∈ k.followers

def Hears (l : State) (s : Pool.State) (t : Nat) (e : Failure) : Prop :=
  (e = .cancelled → s.closed = true) ∧ (e.isConnection = true → Weight.standing.of l t = 0) ∧
    (e ≠ .cancelled → Weight.resting.of l t = 0 ∨ l.EndsWith e t)

def Quiet (s : Pool.State) : Option Event → Prop
  | some (.enter _) | some (.spawn _) => False
  | some (.release _ id) => s.checkRelease id ≠ .ok ()
  | _ => True

inductive Aside (p : Nat) (X Y : Prop) (v : Option Event) (l l' : State) (s : Pool.State) :
    Pool.State → Prop
  | ends {t : Nat} {u : Shape} (o : Outcome u) : l.running = some ⟨t, u, .give o, .done u⟩ →
      Changed p (fun _ => False) (Hears l s) (fun _ _ => False) (l.lay t o) l' s l.nextConnection [] →
      v = none → Aside p X Y v l l' s s
  | goesOn {t : Nat} {signal : Option Failure} {k : Stack .unit} {x : Task} :
      l.running = none → l.tasks[t]? = some x → x.status = .ready signal k →
      l'.running = some ⟨t, .unit, .give (x.answer signal), k⟩ →
      l'.tasks = l.tasks.modify t (fun x => { x with status := .running, cancelRequested := false }) →
      v = none → Aside p X Y v l l' s s
  | lull {C : Nat → Prop} {D : Nat → Failure → Prop} {s' : Pool.State} : l.running = none →
      s.Lull s' → Changed p C D (fun _ _ => False) l l' s' l.nextConnection [] →
      (∀ i, C i → Weight.background.of l i = 0 ∨ X) →
      (∀ i, D i .cancelled → Weight.background.of l i = 0 ∨ s.closed = true ∨ Y) →
      (∀ i e, D i e → e.isConnection = true → Weight.standing.of l i = 0) → Quiet s v →
      (∀ i e, D i e → e ≠ .cancelled → Weight.resting.of l i = 0) → Aside p X Y v l l' s s'
  | enters {u : Shape} {c : Call u} {x : Task} : c.Offered p → l.running = none →
      l'.running = some ⟨l.tasks.length, u, .call c, .done u⟩ → l'.tasks = l.tasks ++ [x] →
      x.status = .running → x.cancelRequested = false → x.followers = [] →
      v = some (.enter c) → Aside p X Y v l l' s s
  | spawns {u : Shape} {c : Call u} {x : Task} : c.Offered p → l.running = none →
      l'.running = none → l'.tasks = l.tasks ++ [x] → Made p c x →
      v = some (.spawn c) → Aside p X Y v l l' s s
  | releases {id : Nat} (now : Float) : l.running = none → s.checkRelease id = .ok () →
      s.closed = false →
      Changed p (fun _ => False) (fun _ _ => False) (fun _ _ => False) l l' (s.checkin id now).1
        l.nextConnection [] →
      v = some (.release p id) → Aside p X Y v l l' s (s.checkin id now).1
  | discards {id : Nat} : l.running = none → s.checkRelease id = .ok () → s.closed = true →
      Changed p (fun _ => False) (fun _ _ => False) (fun _ _ => False) l l'
        { s.setFree id with background := s.background ++ [l.tasks.length] } l.nextConnection
        [.destroy p id] →
      v = some (.release p id) →
      Aside p X Y v l l' s { s.setFree id with background := s.background ++ [l.tasks.length] }

inductive Move (p : Nat) (X Y : Prop) (v : Option Event) (l l' : State) (s s' : Pool.State) : Prop
  | work {u : Shape} {w : Work u} {d : Call u} {t : Nat} {k : Stack u} {n : Next u}
      {cs : List (Call .unit)} {m : State} : l.running = some (w.on t k) → w.Of p d →
      k.Holds p d → Act p t l.tasks.length l.nextConnection s w s' m.nextConnection cs n →
      Changed p (fun i => s.reaper = some i) (Tells s s') (Follows w t s s') l m s' m.nextConnection cs →
      l' = m.carryOn t n k → v = none → Move p X Y v l l' s s'
  | aside : l'.pool? p = some s' → l'.nextConnection = l.nextConnection →
      Aside p X Y v l l' s s' → Move p X Y v l l' s s'

section Moves

variable {p : Nat} {X Y : Prop} {v : Option Event} {l l' m : State} {s s' : Pool.State}

theorem Status.Nudge.end_eq {D : Failure → Prop} {x y : Status} (h : x.Nudge D y) {u : Shape}
    {o : Outcome u} (hx : x = .finished u o) : y = .finished u o := by
  cases h with
  | same => exact hx
  | woken | recounted => cases hx

def Status.signal : Status → Outcome .unit
  | .finished _ (.error e) => .error e
  | _ => .ok ()

theorem State.endOf_eq {t : Nat} {k : Task} (hk : l.tasks[t]? = some k) :
    l.endOf t = k.status.signal := by
  obtain ⟨status, _, _, _⟩ := k
  simp only [State.endOf, hk]
  rcases status with _ | _ | _ | ⟨u, e | x⟩ <;> rfl

theorem Changed.endOf {C : Nat → Prop} {D : Nat → Failure → Prop} {E : Nat → Follower → Prop} {N : Nat}
    {cs : List (Call .unit)} {t : Nat} (h : Changed p C D E l l' s N cs) (ht : t < l.tasks.length) :
    l'.endOf t = l.endOf t := by
  obtain ⟨ts, new, hl, hn, _⟩ := h.tasks
  have hx := List.getElem?_eq_getElem ht
  obtain ⟨k, hk, hnk⟩ := hn.task t _ hx
  have hl' : l'.tasks[t]? = some k := by
    rw [hl, List.getElem?_append_left (List.getElem?_eq_some_iff.mp hk).1]
    exact hk
  rw [State.endOf_eq hl', State.endOf_eq hx]
  have hs := hnk.status
  generalize l.tasks[t].status = x, k.status = y at hs
  cases hs <;> rfl

theorem Changed.followAll {a : State} {t : Nat} {u : Shape} {o : Outcome u} {x : Task}
    (fs : List Follower)
    (h : Changed p (fun _ => False) (Hears m s) (fun _ _ => False) a l s a.nextConnection [])
    (hx : a.tasks[t]? = some x) (ho : x.status = .finished u o)
    (hf : ∀ r, .resume r ∈ fs → s.closed = true ∧ Weight.standing.of m r = 0 ∧
      ∀ e, o = .error e → m.EndsWith e r) :
    Changed p (fun _ => False) (Hears m s) (fun _ _ => False) a
      (fs.foldl (fun l f => l.follow t f) l) s a.nextConnection [] := by
  induction fs generalizing l with
  | nil => exact h
  | cons f fs ih =>
    refine ih ?_ fun r hr => hf r (List.mem_cons_of_mem f hr)
    cases f with
    | dropBackground q => exact h.apart rfl rfl rfl rfl
    | count k => exact h.apart rfl rfl rfl rfl
    | resume k =>
      obtain ⟨hc, hk, he⟩ := hf k List.mem_cons_self
      refine h.wake k fun e hs => ⟨fun _ => hc, fun _ => hk, fun _ => .inr (he e ?_)⟩
      rw [h.endOf (List.getElem?_eq_some_iff.mp hx).1, State.endOf_eq hx, ho] at hs
      cases o with
      | ok => cases hs
      | error e' => exact congrArg _ (Option.some.inj hs)

theorem Sound.finish (h : Sound p l s) {t : Nat} {u : Shape} (o : Outcome u)
    (hr : l.running = some ⟨t, u, .give o, .done u⟩) :
    Changed p (fun _ => False) (Hears l s) (fun _ _ => False) (l.lay t o) (l.finish t o) s
      l.nextConnection [] := by
  obtain ⟨_, k, hk, _⟩ := h.running _ hr
  have hl : Changed p (fun _ => False) (Hears l s) (fun _ _ => False) (l.lay t o) (l.lay t o) s
      l.nextConnection [] := .refl h.pool
  have hlay : (l.lay t o).tasks[t]? = some { k with status := .finished u o, followers := [] } := by
    simp [State.lay, State.modifyTask, hk]
  apply Changed.followAll (a := l.lay t o) _ hl hlay rfl
  intro r hm
  have hm' : .resume r ∈ k.followers := by simpa [hk] using hm
  obtain ⟨hc, _, ha⟩ := h.followers t k hk r hm'
  have hle := Weight.standing_below_acquiring.of l r
  refine ⟨hc, by omega, fun e he => ⟨t, u, k, ?_, hk, hm'⟩⟩
  rw [hr, he]

theorem Sound.performs (h : Sound p l s) {u : Shape} {w : Work u} {d : Call u} {t : Nat} {k : Stack u}
    (hr : l.running = some (w.on t k)) (hd : w.Of p d) (hk : k.Holds p d) :
    ∃ s' cs, Act p t l.tasks.length l.nextConnection s w s' (w.perform l).1.nextConnection cs
        (w.perform l).2 ∧
      Changed p (fun i => s.reaper = some i) (Tells s s') (Follows w t s s') l (w.perform l).1 s'
        (w.perform l).1.nextConnection cs := by
  have ht : l.currentTask = t := by simp [State.currentTask, State.current?, hr]
  have hclosing : ∀ {v : Shape} (f : Frame v u) (o : Outcome v), w = .back f o → f.Closing →
      s.closed = true := by
    intro v f o hb hcl
    apply h.closed_of_shutting (i := t)
    rw [h.of_on hr, hb]
    have : Weight.shutting.work (.back f o) = 1 := by
      cases f <;> first | rfl | cases hcl
    omega
  obtain ⟨s', N, cs, hact, hch⟩ := Work.perform_acts hd hk h.pool h.source
    (fun _ r' hr' => h.reaper_alone hr') hclosing
  have hn := hch.next
  subst hn
  rw [ht] at hact hch
  exact ⟨s', cs, hact, hch⟩

theorem State.advance_move (h : Sound p l s) {r : Running} (hr : l.running = some r) :
    ∃ s', Move p X Y none l (l.advance r) s s' := by
  have hf := (h.running r hr).1
  have work : ∀ {u : Shape} {w : Work u} {d : Call u} {st : Stack u}, r = w.on r.task st →
      w.Of p d → st.Holds p d → l.advance r = (w.perform l).1.carryOn r.task (w.perform l).2 st →
      ∃ s', Move p X Y none l (l.advance r) s s' := by
    intro u w d st hw hd hst ha
    obtain ⟨s', cs, hact, hch⟩ := h.performs (hw ▸ hr) hd hst
    exact ⟨s', .work (hw ▸ hr) hd hst hact hch ha rfl⟩
  obtain ⟨t, u, control, st⟩ := r
  cases control with
  | call c => exact work (w := .call c) rfl (.call c) hf rfl
  | give o =>
    cases st with
    | push f st =>
      cases hf with
      | push hrest hst => exact work (w := .back f o) rfl (.back o hrest) hst rfl
    | done =>
      have hch := h.finish o hr
      exact ⟨s, .aside hch.pool hch.next (.ends o hr hch rfl)⟩

def Wait.Rests : Wait → Prop
  | .sleep _ | .task _ => True
  | _ => False

theorem Stack.Holds.resting {u : Shape} {k : Stack u} {c : Call u} (h : k.Holds p c) :
    Weight.resting.stack k = 0 := by
  induction h with
  | done _ => rfl
  | push ha _ _ ih => cases ha <;> exact (Nat.zero_add _).trans ih

theorem Sound.resting_free (h : Sound p l s) (hr : l.running = none) {t : Nat} {x : Task} {w : Wait}
    {st : Stack .unit} (hx : l.tasks[t]? = some x) (hs : x.status = .paused w st) (hw : ¬ w.Rests) :
    Weight.resting.of l t = 0 := by
  have hf := h.tasks t x hx
  rw [hs] at hf
  cases hf with
  | paused hp hst =>
    cases hst with
    | push hrest hst =>
      simp only [Weight.of, hx, hs, hr, Option.map, Weight.status, Weight.stack, hst.resting]
      cases hp with
      | sleep | task => exact absurd trivial hw
      | turn | givenUp | opening | closing | tasks => rfl

theorem Hears.timeout (o : Option Pool.State) {t : Nat} (ht : Weight.resting.of l t = 0) (e : Failure)
    (h : o.map Pool.State.timeoutFailure = some e) : Hears l s t e := by
  cases o with
  | none => cases h
  | some s =>
    cases h
    exact ⟨nofun, nofun, fun _ => .inl ht⟩

theorem State.perform_move (h : Sound p l s) (hr : l.running = none) (hp : m.pools = l.pools)
    (hn : m.nextConnection = l.nextConnection) (hm : m.running = none) (ht : m.tasks = l.tasks)
    (j : Job) : ∃ s', Move p X Y none l (m.perform j) s s' := by
  have hl : Changed p (fun _ => False) (Hears l s) (fun _ _ => False) l m s l.nextConnection [] :=
    (Changed.refl h.pool).apart hp hn (hm.trans hr.symm) ht
  have lull : ∀ {l' s'}, s.Lull s' → Changed p (fun _ => False) (Hears l s) (fun _ _ => False) l l' s'
      l.nextConnection [] → ∃ s', Move p X Y none l l' s s' := by
    intro l' s' hs hc
    exact ⟨s', .aside hc.pool hc.next
      (.lull hr hs hc (by simp) (fun _ hd => .inr (.inl (hd.1 rfl))) (fun _ _ hd => hd.2.1) trivial
        fun _ _ hd he => (hd.2.2 he).resolve_right fun hx => by
          obtain ⟨_, _, _, hr', _⟩ := hx
          cases hr.symm.trans hr')⟩
  cases j with
  | step t =>
    rw [State.perform, State.stepTask]
    split
    next signal k _ b _ hk =>
      rw [ht] at hk
      refine ⟨s, .aside hl.pool hn (.goesOn hr hk rfl rfl ?_ rfl)⟩
      simp [State.modifyTask, ht]
    next => exact lull (.refl s) hl
  | ring n =>
    rw [State.perform, State.ring]
    generalize m.tasks.findIdx? _ = owner
    cases owner with
    | none => exact lull (.refl s) hl
    | some t =>
      dsimp only
      split
      next q _ _ _ _ _ hk =>
        rw [ht] at hk
        obtain ⟨s', hs, hg⟩ := hl.modifyLull q (f := fun s => s.giveUp t) (.giveUp s t)
        exact lull hs (hg.wake t (Hears.timeout _ (h.resting_free hr hk rfl id)))
      next => exact lull (.refl s) (hl.wake t (by simp))
  | dropBackground q t =>
    obtain ⟨s', hs, hg⟩ := hl.modifyLull q (f := fun s => { s with background := s.background.erase t })
      (.dismiss s t)
    exact lull hs hg
  | count t ended =>
    rw [State.perform, State.count]
    split
    next ts b st _ _ _ hk =>
      have hc : s.closed = true := by
        rw [ht] at hk
        exact h.closed_of_shutting (h.passes_shutting hk ⟨_, _, rfl, trivial⟩)
      have hr : Changed p (fun _ => False) (Hears l s) (fun _ _ => False) l (m.modifyTask t
          fun k => { k with status := .paused (.tasks (ts.erase ended) b) st }) s l.nextConnection
          [] := by
        apply hl.modifyTask
        intro k' hk'
        cases hk.symm.trans hk'
        exact ⟨.recounted _ _ _ _ _, .inl rfl, fun _ hf => .inl hf⟩
      dsimp only
      split
      · refine lull (.refl s) (hr.wake t fun e he => ?_)
        split at he
        · cases he
          exact ⟨fun _ => hc, by simp [Failure.isConnection], fun hne => absurd rfl hne⟩
        · cases he
      · exact lull (.refl s) hr
    next => exact lull (.refl s) hl
  | notice t =>
    rw [State.perform, State.notice]
    split
    next hk =>
      rw [ht] at hk
      exact lull (.refl s) (hl.wake t (Hears.timeout _ (h.resting_free hr hk rfl id)))
    next => exact lull (.refl s) hl

theorem State.nextJob_move (h : Sound p l s) (hr : l.running = none) (hp : m.pools = l.pools)
    (hn : m.nextConnection = l.nextConnection) (hm : m.running = none) (ht : m.tasks = l.tasks)
    (hj : m.nextJob = some l') : ∃ s', Move p X Y none l l' s s' := by
  unfold State.nextJob at hj
  split at hj
  next => cases hj
  next j rest _ =>
    cases hj
    exact State.perform_move h hr (m := { m with ready := rest, turnLeft := m.turnLeft - 1 }) hp hn hm
      ht j

theorem State.step_move (h : Sound p l s) (hl : l.step? = some l') :
    ∃ s', Move p X Y none l l' s s' := by
  unfold State.step? at hl
  split at hl
  next r hr =>
    cases hl
    exact State.advance_move h hr
  next hr =>
    split at hl
    · exact State.nextJob_move h hr (m := l.startTurn) rfl rfl hr rfl hl
    · exact State.nextJob_move h hr (m := l) rfl rfl hr rfl hl

def Weight.opening : Weight where
  call
    | .openSlot _ | .askOpen => 1
    | _ => 0
  rest _ := 0

theorem Stack.Holds.background_le {u : Shape} {k : Stack u} {c : Call u} (h : k.Holds p c) :
    Weight.background.stack k ≤ Weight.opening.call c := by
  induction h with
  | done _ => exact Nat.zero_le _
  | push ha hf hk ih =>
    refine (Nat.add_le_add_left ih _).trans ?_
    cases ha with
    | opened => cases hf; exact Nat.zero_le _
    | registering => cases hf; exact Nat.le_refl _
    | openedBackground => cases hf; exact Nat.le_refl _
    | destroyed | evicting | swept | draining => cases hf; exact Nat.le_refl _

theorem Stack.Holds.standing {u : Shape} {k : Stack u} {c : Call u} (h : k.Holds p c) :
    Weight.standing.stack k = 0 := by
  induction h with
  | done _ => rfl
  | push ha _ _ ih => cases ha <;> exact (Nat.zero_add _).trans ih

def Event.Spares (X Y : Prop) (l : State) : Event → Prop
  | .cancel t => X ∨ Weight.background.of l t = 0 ∧ Weight.shutting.of l t = 0
  | .answerOpen t signal => signal = some .cancelled → Weight.background.of l t = 0 ∨ Y
  | _ => True

theorem freely_spares {X Y : Prop} (hx : X) (hy : Y) (l : State) (e : Event) : e.Spares X Y l := by
  cases e with
  | cancel => exact .inl hx
  | answerOpen => exact fun _ => .inr hy
  | enter | spawn | release | answerClose | driver | tick => trivial

theorem Changed.quiet
    (hc : Changed p (fun _ => False) (fun _ _ => False) (fun _ _ => False) l l' s l.nextConnection [])
    (hr : l.running = none) (hq : Quiet s v) : ∃ s', Move p X Y v l l' s s' :=
  ⟨s, .aside hc.pool hc.next (.lull hr (.refl s) hc (by simp) (by simp) (by simp) hq (by simp))⟩

theorem State.release_move (h : Sound p l s) (hr : l.running = none) (id : Nat) :
    ∃ s', Move p X Y (some (.release p id)) l (l.release p id).1 s s' := by
  have hl : Changed p (fun _ => False) (fun _ _ => False) (fun _ _ => False) l l s l.nextConnection [] :=
    .refl h.pool
  simp only [State.release, h.pool]
  cases hc : s.checkRelease id with
  | error e => exact hl.quiet hr (by simp [Quiet, hc])
  | ok x =>
    dsimp only
    split
    next hcl =>
      have hd := (hl.modifyPool fun s => s.setFree id).spawnBackground (.destroy p id)
      exact ⟨_, .aside hd.pool hd.next (.discards hr hc hcl hd rfl)⟩
    next hcl =>
      have hd := hl.checkin id
      exact ⟨_, .aside hd.pool hd.next (.releases l.clock hr hc (Bool.eq_false_iff.mpr hcl) hd rfl)⟩

theorem State.cancel_move (h : Sound p l s) (hr : l.running = none) (hxy : X → s.closed = true ∨ Y)
    {t : Nat} (hs : (Event.cancel t).Spares X Y l) :
    ∃ s', Move p X Y (some (.cancel t)) l (l.cancel t) s s' := by
  have hl {C : Nat → Prop} {D : Nat → Failure → Prop} :
      Changed p C D (fun _ _ => False) l l s l.nextConnection [] := .refl h.pool
  by_cases hx : X
  · obtain ⟨s', hu, hc⟩ := (hl (C := fun _ => True) (D := fun _ e => e = .cancelled)).cancel (t := t)
      trivial rfl fun _ _ _ _ => ⟨trivial, rfl⟩
    refine ⟨s', .aside hc.pool hc.next
      (.lull hr hu hc (fun _ _ => .inr hx) (fun _ _ => .inr (hxy hx)) ?_ trivial
        fun _ _ he hne => absurd he hne)⟩
    rintro i e rfl hcon
    cases hcon
  · obtain ⟨hb, hsh⟩ := hs.resolve_left hx
    obtain ⟨s', hu, hc⟩ := (hl (C := fun i => i = t) (D := fun i e => i = t ∧ e = .cancelled)).cancel
      (t := t) rfl ⟨rfl, rfl⟩ fun k hk hp => by
        have := h.passes_shutting hk hp
        omega
    refine ⟨s', .aside hc.pool hc.next (.lull hr hu hc ?_ ?_ ?_ trivial
      fun _ _ he hne => absurd he.2 hne)⟩
    · rintro i rfl
      exact .inl hb
    · rintro i ⟨rfl, _⟩
      exact .inl hb
    · rintro i e ⟨_, rfl⟩ hcon
      cases hcon

theorem Sound.opening_standing (h : Sound p l s) (hr : l.running = none) {t n : Nat} {x : Task}
    {st : Stack .unit} (hx : l.tasks[t]? = some x) (hs : x.status = .paused (.opening n) st) :
    Weight.standing.of l t = 0 := by
  have hf := h.tasks t x hx
  rw [hs] at hf
  cases hf with
  | paused hp hst =>
    cases hp
    cases hst with
    | push hrest hst =>
      cases hrest
      simp only [Weight.of, hx, hs, hr, Option.map, Weight.status, Weight.stack, hst.standing]
      rfl

theorem Sound.closing_free (h : Sound p l s) (hr : l.running = none) {t : Nat} {c : Pool.Handle}
    {x : Task} {st : Stack .unit} (hx : l.tasks[t]? = some x)
    (hs : x.status = .paused (.closing c) st) :
    Weight.background.of l t = 0 ∧ Weight.standing.of l t = 0 := by
  have hf := h.tasks t x hx
  rw [hs] at hf
  cases hf with
  | paused hp hst =>
    cases hp
    cases hst with
    | push hrest hst =>
      cases hrest
      simp only [Weight.of, hx, hs, hr, Option.map, Weight.status, Weight.stack, hst.standing,
        Nat.le_zero.mp hst.background_le]
      exact ⟨rfl, rfl⟩

theorem State.answerOpen_move (h : Sound p l s) (hr : l.running = none) {t : Nat}
    {signal : Option Failure} (hs : (Event.answerOpen t signal).Spares X Y l) :
    ∃ s', Move p X Y (some (.answerOpen t signal)) l (l.answerOpen t signal) s s' := by
  unfold State.answerOpen
  split
  next n st _ _ _ hk =>
    have ho : Changed p (fun _ => False) (fun i e => signal = some e ∧ i = t) (fun _ _ => False) l
        (l.modifyOpener fun o => o.dropOpen n) s l.nextConnection [] :=
      (Changed.refl h.pool).apart rfl rfl rfl rfl
    have hw := ho.wake t fun e (he : signal = some e) => ⟨he, rfl⟩
    refine ⟨s, .aside hw.pool hw.next (.lull hr (.refl s) hw (by simp) ?_ ?_ trivial ?_)⟩
    · rintro i ⟨hc, rfl⟩
      exact (hs hc).imp_right .inr
    · rintro i e ⟨_, rfl⟩ _
      exact h.opening_standing hr hk rfl
    · rintro i e ⟨_, rfl⟩ _
      exact h.resting_free hr hk rfl id
  next => exact (Changed.refl h.pool).quiet hr trivial

theorem State.answerClose_move (h : Sound p l s) (hr : l.running = none) (t : Nat)
    (signal : Option Failure) :
    ∃ s', Move p X Y (some (.answerClose t signal)) l (l.answerClose t signal) s s' := by
  unfold State.answerClose
  split
  next c st _ _ _ hk =>
    have ho : Changed p (fun _ => False) (fun i _ => i = t) (fun _ _ => False) l
        (l.modifyOpener fun o => o.dropClose c) s l.nextConnection [] :=
      (Changed.refl h.pool).apart rfl rfl rfl rfl
    have hw := ho.wake t fun e (_ : signal = some e) => rfl
    obtain ⟨hb, hst⟩ := h.closing_free hr hk rfl
    refine ⟨s, .aside hw.pool hw.next (.lull hr (.refl s) hw (by simp) ?_ ?_ trivial ?_)⟩
    · rintro i rfl
      exact .inl hb
    · rintro i e rfl _
      exact hst
    · rintro i e rfl _
      exact h.resting_free hr hk rfl id
  next => exact (Changed.refl h.pool).quiet hr trivial

theorem State.after_move (h : Sound p l s) (hr : l.running = none) (hxy : X → s.closed = true ∨ Y)
    {e : Event} (he : e.Offered p) (hs : e.Spares X Y l) :
    ∃ s', Move p X Y (some e) l (l.after e) s s' := by
  cases e with
  | enter c => exact ⟨s, .aside h.pool rfl (.enters he hr rfl rfl rfl rfl rfl rfl)⟩
  | spawn c => exact ⟨s, .aside h.pool rfl (.spawns he hr hr rfl ⟨rfl, rfl, by simp⟩ rfl)⟩
  | release q id =>
    cases he
    exact State.release_move h hr id
  | cancel t => exact State.cancel_move h hr hxy hs
  | answerOpen t signal => exact State.answerOpen_move h hr hs
  | answerClose t signal => exact State.answerClose_move h hr t signal
  | driver o => exact Changed.quiet ((Changed.refl h.pool).apart rfl rfl rfl rfl) hr (by trivial)
  | tick now => exact Changed.quiet ((Changed.refl h.pool).apart rfl rfl rfl rfl) hr (by trivial)

end Moves

end SqliteAccess.Loop
