import SqliteAccess.Proofs.Life.OrdinarySteps

/-!
Whatever may happen to a loop: it takes steps, and while no task is at work anybody makes calls, of any
manager, gives back what he has or has not, cancels, and the engine and the time do as they like.
-/

namespace SqliteAccess.Loop

open SqliteAccess.Pool (Lease)

inductive Turn (l : State) : State → Prop
  | works {t : Nat} {u : Shape} {w : Work u} {k : Stack u} : l.running = some (w.on t k) →
      Turn l ((w.perform l).1.carryOn t (w.perform l).2 k)
  | ends {t : Nat} {u : Shape} {o : Outcome u} {l' : State} : l.running = some ⟨t, u, .give o, .done u⟩ →
      Tame (l.lay t o) l' → Turn l l'
  | goesOn {t : Nat} {signal : Option Failure} {st : Stack .unit} {x : Task} {l' : State} :
      l.running = none → Resumed l l' t signal st x → Turn l l'
  | rests {l' : State} : l.running = none → Tame l l' → Turn l l'

/-- Something happens. Only such calls are made from outside as may be made. -/
inductive State.Happens (may : {s : Shape} → State → Call s → Prop) (l : State) : State → Prop
  | loop {l' : State} : l.step? = some l' → State.Happens may l l'
  | enter {s : Shape} {c : Call s} : l.running = none → may l c → State.Happens may l (l.enter c)
  | spawn {s : Shape} {c : Call s} : l.running = none → may l c → State.Happens may l (l.spawn c []).1
  | giveBack (M : Nat) (c : Lease) : l.running = none →
      State.Happens may l (l.giveBack M (some c)).1
  | cancel (t : Nat) : l.running = none → State.Happens may l (l.cancel t)
  | answer {t : Nat} {k : Task} {st : Stack .unit} : l.running = none → l.tasks[t]? = some k →
      k.status = .paused .held st → State.Happens may l (l.answerHeld t)
  | engine (rules : List Engine.Rule) (openings : List Engine.Opening) (closings : List Engine.Closing) :
      l.running = none → State.Happens may l (l.modifyEngine fun e => { e with rules, openings, closings })
  | tick (now : Float) : l.running = none → State.Happens may l { l with clock := now }

/-- What becomes of a loop, and the states that it has left behind. -/
inductive Course (may : {s : Shape} → State → Call s → Prop) (l : State) : List State → State → Prop
  | start : Course may l [] l
  | step {past : List State} {m m' : State} : Course may l past m → m.Happens may m' →
      Course may l (past ++ [m]) m'

variable {may : {s : Shape} → State → Call s → Prop} {l l' m : State} {t : Nat} {u : Shape}
  {past : List State}

theorem Tame.stepTask (h : Tame l m) (t : Nat) :
    (∃ signal st x, Resumed m (m.stepTask t) t signal st x) ∨ Tame l (m.stepTask t) := by
  rw [State.stepTask]
  split
  next signal k _ b _ hk => exact .inl ⟨signal, k, _, hk, rfl, rfl, rfl, rfl, rfl, rfl, rfl, rfl⟩
  next => exact .inr h

theorem Tame.ring (h : Tame l m) (n : Nat) : Tame l (m.ring n) := by
  rw [State.ring]
  generalize m.tasks.findIdx? _ = owner
  cases owner with
  | none => exact h
  | some t =>
    dsimp only
    split
    · have hp : ∀ q, Tame l (m.modifyPool q fun s => s.giveUp t) := fun q =>
        h.modifyPool q _ fun _ => ⟨rfl, rfl, id⟩
      exact (hp _).wake t _
    · exact h.wake t none

theorem Tame.count (h : Tame l m) (t ended : Nat) : Tame l (m.count t ended) := by
  rw [State.count]
  split
  next ts b st _ _ _ hk =>
    have hm : Tame l (m.modifyTask t fun k => { k with status := .paused (.tasks (ts.erase ended) b) st }) :=
      h.modifyTask t fun k' hk' => by
        cases hk.symm.trans hk'
        exact .recounted _ _ _ _ _
    dsimp only
    split
    · exact hm.wake t _
    · exact hm
  next => exact h

theorem Tame.notice (h : Tame l m) (t : Nat) : Tame l (m.notice t) := by
  rw [State.notice]
  split
  · exact h.wake t _
  · exact h

theorem Tame.perform (h : Tame l m) (j : Job) :
    (∃ t signal st x, Resumed m (m.perform j) t signal st x) ∨ Tame l (m.perform j) := by
  cases j with
  | step t => exact (h.stepTask t).imp_left fun hx => ⟨t, hx⟩
  | ring n => exact .inr (h.ring n)
  | dropBackground q t => exact .inr (h.modifyPool q _ fun _ => ⟨rfl, rfl, id⟩)
  | count t ended => exact .inr (h.count t ended)
  | notice t => exact .inr (h.notice t)

theorem Tame.followAll (h : Tame l m) (t : Nat) (fs : List Follower) :
    Tame l (fs.foldl (fun l f => l.follow t f) m) := by
  induction fs generalizing m with
  | nil => exact h
  | cons f fs ih =>
    refine ih ?_
    cases f with
    | dropBackground | count => exact h.enqueue _
    | resume k => exact h.wake k _

theorem State.idle_turn (hr : l.running = none) (hl : l.step? = some l') : Turn l l' := by
  have job : ∀ {m : State}, m.tasks = l.tasks → m.running = l.running → m.managers = l.managers →
      m.standalone = l.standalone → m.engine = l.engine → m.nextConnection = l.nextConnection →
      m.pools = l.pools → m.nextJob = some l' → Turn l l' := by
    intro m ht hm hk hs he hn hp hj
    unfold State.nextJob at hj
    split at hj
    next => cases hj
    next j rest _ =>
      cases hj
      have ho : m.outer = l.outer := by rw [State.outer, State.outer, hk, he]
      have hm' : Tame l { m with ready := rest, turnLeft := m.turnLeft - 1 } :=
        (Tame.refl l).quiet ht hm ho (by rw [he]) hs hn hp
      rcases hm'.perform j with ⟨t, signal, st, x, hx⟩ | hx
      · exact .goesOn hr ⟨ht ▸ hx.task, hx.ready, hx.running, ht ▸ hx.tasks, hx.managers.trans hk,
          hx.standalone.trans hs, hx.engine.trans he, hx.next.trans hn, hx.pools.trans hp⟩
      · exact .rests hr hx
  unfold State.step? at hl
  rw [hr] at hl
  dsimp only at hl
  split at hl
  · exact job (m := l.startTurn) rfl rfl rfl rfl rfl rfl rfl hl
  · exact job rfl rfl rfl rfl rfl rfl rfl hl

theorem State.step_turn (hl : l.step? = some l') : Turn l l' := by
  cases hr : l.running with
  | none => exact State.idle_turn hr hl
  | some r =>
    rw [State.step_running hr hl]
    rcases r.cases_on with ⟨u, w, k, he⟩ | ⟨u, o, he⟩
    · rw [he] at hr ⊢
      rw [State.advance_on]
      exact .works hr
    · rw [he] at hr ⊢
      exact .ends hr ((Tame.refl (l.lay r.task o)).followAll r.task _)

theorem State.answerHeld_tame (l : State) (t : Nat) : Tame l (l.answerHeld t) :=
  ((Tame.refl l).modifyEngine (fun e => e.letGo t) rfl rfl).wake t none

theorem State.Happens.cases (h : l.Happens may l') : l.step? = some l' ∨ l.running = none ∧
    ((∃ (s : Shape) (c : Call s), may l c ∧ (l' = l.enter c ∨ l' = (l.spawn c []).1)) ∨ Tame l l') := by
  cases h with
  | loop hl => exact .inl hl
  | enter hr hc => exact .inr ⟨hr, .inl ⟨_, _, hc, .inl rfl⟩⟩
  | spawn hr hc => exact .inr ⟨hr, .inl ⟨_, _, hc, .inr rfl⟩⟩
  | giveBack M c hr => exact .inr ⟨hr, .inr ((Tame.refl l).giveBack M (some c))⟩
  | cancel t hr => exact .inr ⟨hr, .inr ((Tame.refl l).cancel t)⟩
  | answer hr => exact .inr ⟨hr, .inr (l.answerHeld_tame _)⟩
  | engine rules openings closings hr => exact .inr ⟨hr, .inr ((Tame.refl l).modifyEngine _ rfl rfl)⟩
  | tick now hr => exact .inr ⟨hr, .inr ((Tame.refl l).quiet rfl rfl rfl rfl rfl rfl rfl)⟩

theorem State.Happens.unmoved (h : l.Happens may l') :
    (∃ (t : Nat) (u : Shape) (w : Work u) (k : Stack u), l.running = some (w.on t k) ∧
      l' = (w.perform l).1.carryOn t (w.perform l).2 k) ∨ Unmoved l l' := by
  rcases h.cases with hl | ⟨_, ⟨s, c, _, rfl | rfl⟩ | ht⟩
  · cases State.step_turn hl with
    | works hr => exact .inl ⟨_, _, _, _, hr, rfl⟩
    | @ends t _ o _ _ ht =>
      exact .inr (Unmoved.trans (m := l.lay t o) (.of rfl rfl rfl rfl rfl) ht.toUnmoved)
    | goesOn _ hres =>
      exact .inr (.of (by rw [State.outer, hres.managers, hres.engine]; rfl) (by rw [hres.engine])
        hres.standalone hres.next hres.pools)
    | rests _ ht => exact .inr ht.toUnmoved
  · exact .inr (.of rfl rfl rfl rfl rfl)
  · exact .inr (.of rfl rfl rfl rfl rfl)
  · exact .inr ht.toUnmoved

theorem State.Happens.arrival (h : l.Happens may l') :
    l.step? = some l' ∨ l.running = none ∧ Arrival l l' := by
  rcases h.cases with hl | ⟨hr, ⟨s, c, _, rfl | rfl⟩ | ht⟩
  · exact .inl hl
  · exact .inr ⟨hr, State.enter_arrival hr c⟩
  · exact .inr ⟨hr, State.spawn_arrival hr c⟩
  · exact .inr ⟨hr, ht.undisturbed.arrival hr⟩

theorem State.carryOn_unmoved (m : State) (t : Nat) (n : Next u) (k : Stack u) : Unmoved m (m.carryOn t n k) := by
  cases n <;> exact .of rfl rfl rfl rfl rfl

theorem State.AtWork.of_none (hr : l.running = none) : l.AtWork := fun _ h => nomatch hr.symm.trans h

theorem State.AtWork.stride (h : l.AtWork) (hl : l.step? = some l') : Stride l l' :=
  h.step_stride hl fun {_ w _ _} _ => (w.placid l).undisturbed

theorem State.AtWork.step (h : l.AtWork) (hl : l.step? = some l') : l'.AtWork := by
  cases State.step_turn hl with
  | @works t u w k hr =>
    have hx := h _ hr
    rw [Work.on_task] at hx
    obtain ⟨x, hx, hs⟩ := (w.placid l).undisturbed.running_at hx
    intro r hr'
    generalize (w.perform l).1 = m at hx hr' ⊢
    generalize (w.perform l).2 = n at hr' ⊢
    cases n with
    | give | call | jump => cases hr'; exact ⟨x, hx, hs⟩
    | pause | again => cases hr'
  | ends _ ht => exact .of_none ht.undisturbed.running
  | goesOn _ hres =>
    intro r hr'
    cases hres.running.symm.trans hr'
    exact ⟨_, by rw [hres.tasks, List.getElem?_modify_eq, hres.task]; rfl, rfl⟩
  | rests hr ht => exact .of_none (ht.undisturbed.running.trans hr)

theorem State.AtWork.happens (h : l.AtWork) (hs : l.Happens may l') : l'.AtWork := by
  rcases hs.cases with hl | ⟨hr, ⟨s, c, _, rfl | rfl⟩ | ht⟩
  · exact h.step hl
  · intro r hr'
    cases hr'
    exact ⟨{ status := .running, context := l.context }, by simp [State.enter], rfl⟩
  · exact .of_none hr
  · exact .of_none (ht.undisturbed.running.trans hr)

theorem State.AtWork.lt (h : l.AtWork) {r : Running} (hr : l.running = some r) :
    r.task < l.tasks.length := by
  obtain ⟨x, hx, _⟩ := h r hr
  exact (List.getElem?_eq_some_iff.mp hx).1

theorem Course.induct {P : List State → State → Prop} (h : Course may l past m) (hstart : P [] l)
    (hstep : ∀ past m m', Course may l past m → P past m → m.Happens may m' → P (past ++ [m]) m') :
    P past m := by
  induction h with
  | start => exact hstart
  | step hc hs ih => exact hstep _ _ _ hc ih hs

theorem Course.atWork (h : Course may l past m) (hl : l.AtWork) : m.AtWork :=
  h.induct (P := fun _ m => m.AtWork) hl fun _ _ _ _ ih hs => ih.happens hs

def State.track (past : List State) (l : State) : Nat → List State × State
  | 0 => (past, l)
  | n + 1 =>
    match l.step? with
    | none => (past, l)
    | some l' => State.track (past ++ [l]) l' n

def State.calling {s : Shape} (x : List State × State) (c : Call s) (n : Nat) : List State × State :=
  State.track (x.1 ++ [x.2]) (x.2.enter c) n

theorem Course.track (h : Course may l past m) (n : Nat) :
    Course may l (State.track past m n).1 (State.track past m n).2 := by
  induction n generalizing past m with
  | zero => exact h
  | succ n ih =>
    rw [State.track]
    split
    · exact h
    next hs => exact ih (h.step (.loop hs))

theorem Course.settleWithin (h : Course may l past m) (n : Nat) : ∃ past', Course may l past' (m.settleWithin n) := by
  induction n generalizing past m with
  | zero => exact ⟨past, h⟩
  | succ n ih =>
    rw [State.settleWithin]
    split
    next => exact ⟨past, h⟩
    next hs => exact ih (h.step (.loop hs))

theorem Course.calling {s : Shape} {c : Call s} (h : Course may l past m) (hr : m.running = none)
    (hc : may m c) (n : Nat) :
    Course may l (State.calling (past, m) c n).1 (State.calling (past, m) c n).2 :=
  (h.step (.enter hr hc)).track n

end SqliteAccess.Loop
