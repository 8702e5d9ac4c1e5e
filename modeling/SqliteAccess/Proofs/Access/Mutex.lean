import SqliteAccess.Proofs.Access.LockSteps

/-!
One connection under a lock is had by one task at a time, in the order in which tasks have asked for it,
whatever happens beside the steps of calls.
-/

namespace SqliteAccess.Loop

open Access (Lock Place)
open SqliteAccess.Pool (Lease)

variable {careless : Prop} {M t i : Nat} {c : Lease} {x y : Desk} {l l' m : State} {u : Shape}

section Idle

theorem State.place?_idle (hr : l.running = none) : l.place? = l.post? := by
  funext i
  simp [State.place?, State.post?, hr]

theorem State.bears_idle (hr : l.running = none) : l.bears = l.hangingUp := by
  funext i
  simp [State.bears, State.hangingUp, hr]

theorem State.bears_congr (ht : l'.tasks = l.tasks) (hr : l'.running = l.running) : l'.bears = l.bears := by
  funext i
  rw [State.bears, State.bears, ht, hr]

theorem State.lockOf_congr (h : l'.manager? M = l.manager? M) : l'.lockOf M = l.lockOf M := by
  rw [State.lockOf, State.lockOf, h]

theorem State.singleOf_congr (h : l'.manager? M = l.manager? M) : l'.singleOf M = l.singleOf M := by
  rw [State.singleOf, State.singleOf, h]

theorem State.quiet_idle (hr : l.running = none) : l.Quiet M := by
  constructor <;> simp [State.asks, State.obtains, State.quits, State.uses, State.misses, State.whoever, hr]

theorem State.post?_modify {f : Task → Task} {z : Task} (ht : l'.tasks = l.tasks.modify t f)
    (hz : l.tasks[t]? = some z) :
    l'.post? = Function.update l.post? t (f z).status.place? := by
  funext i
  by_cases hi : i = t
  · subst hi
    simp [State.post?, ht, hz]
  · simp [State.post?, ht, hi, Ne.symm hi]

theorem State.hangingUp_modify {f : Task → Task} {z : Task} (ht : l'.tasks = l.tasks.modify t f)
    (hz : l.tasks[t]? = some z) :
    l'.hangingUp = Function.update l.hangingUp t (f z).status.bars := by
  funext i
  by_cases hi : i = t
  · subst hi
    simp [State.hangingUp, ht, hz]
  · simp [State.hangingUp, ht, hi, Ne.symm hi]

section Resumed

variable {signal : Option Failure} {st : Stack .unit} {z : Task}

theorem Resumed.place?_eq (hr : l.running = none) (h : Resumed l l' t signal st z) :
    l'.place? = Function.update l.place? t (⟨t, .unit, .give (z.answer signal), st⟩ : Running).place? := by
  have hpost : l'.post? = Function.update l.post? t none := State.post?_modify h.tasks h.task
  rw [State.place?_idle hr]
  funext i
  by_cases hi : i = t
  · subst hi
    have hp : l'.post? i = none := by rw [hpost, Function.update_self]
    rw [State.post?] at hp
    simp [State.place?, hp, h.running]
  · have hp : l'.post? i = l.post? i := by rw [hpost, Function.update_of_ne hi]
    rw [State.post?] at hp
    rw [Function.update_of_ne hi]
    simp [State.place?, hp, h.running, Ne.symm hi]

theorem Resumed.bears_eq (hr : l.running = none) (h : Resumed l l' t signal st z)
    (hb : st.bars (.give (z.answer signal)) = st.closes) : l'.bears = l.bears := by
  have hclose : l'.hangingUp = Function.update l.hangingUp t false := State.hangingUp_modify h.tasks h.task
  rw [State.bears_idle hr]
  funext i
  by_cases hi : i = t
  · subst hi
    have hno : l'.hangingUp i = false := by rw [hclose, Function.update_self]
    rw [State.hangingUp] at hno
    rw [State.bears, hno]
    simp [State.hangingUp, h.running, h.task, h.ready, Running.bears, Status.bars, hb]
  · have hsame : l'.hangingUp i = l.hangingUp i := by rw [hclose, Function.update_of_ne hi]
    rw [← hsame]
    simp [State.bears, State.hangingUp, h.running, Ne.symm hi]

end Resumed

theorem Status.Chained.held {w : Wait} {st : Stack .unit} (h : (Status.paused w st).Chained M .single) :
    w = .held ∧ st.Waits = false ∨ w = .lock M ∧ st.Waits = true := by
  cases h with
  | paused hf _ =>
    cases hf with
    | letIn => exact .inr ⟨rfl, rfl⟩
    | sent | asked | blockHeld => exact .inl ⟨rfl, rfl⟩

theorem Tended.unexpecting (h : Tended M .single l) (i : Nat) : ¬ l.Expects i := by
  rintro ⟨k, w, st, hk, hs, hw⟩
  have hc := h.tasks i k hk
  rw [hs] at hc
  rcases hc.held with ⟨rfl, _⟩ | ⟨rfl, _⟩ <;> exact hw trivial

end Idle

namespace Desk.Guarded

variable (h : x.Guarded careless M c)

include h in
theorem moves_of_eq {r : List Nat} {p : List State} (ht : Tended M .single l')
    (hm : l'.managers = x.loop.managers) (hs : l'.standalone = x.loop.standalone)
    (hf : ∀ (i : Nat) (k : Task), l'.tasks[i]? = some k → k.Plain) (hh : l'.Heeds M)
    (hret : ∀ t ∈ r, ∃ k s o, l'.tasks[t]? = some k ∧ k.status = .finished s o)
    (hg : (x.guard M c).Step careless c (Desk.guard M c ⟨l', r, p⟩)) :
    Moves careless M c x ⟨l', r, p⟩ := by
  refine ⟨hg, ht, ?_, ?_, hf, hh, hret, h.sound.step hg⟩
  · have hman : l'.manager? M = x.loop.manager? M := by rw [State.manager?, hm]; rfl
    exact hman ▸ h.manager
  · have hst : l'.standalone? c.id = x.loop.standalone? c.id := by rw [State.standalone?, hs]; rfl
    exact hst ▸ h.connection

theorem guard_same {r : List Nat} {p : List State} (hm : l'.managers = x.loop.managers)
    (hs : l'.standalone = x.loop.standalone) (hp : p = x.past ∨ p = x.past ++ [x.loop] ∧ x.loop.Quiet M) :
    Desk.guard M c ⟨l', r, p⟩ =
      { x.guard M c with place := l'.place?, lease := Desk.lease? ⟨l', r, p⟩, bears := l'.bears } := by
  have hman : l'.manager? M = x.loop.manager? M := by rw [State.manager?, hm]; rfl
  have hst : l'.standalone? c.id = x.loop.standalone? c.id := by rw [State.standalone?, hs]; rfl
  refine Guard.ext ?_ ?_ rfl rfl rfl ?_ ?_ ?_ ?_ ?_ ?_
  · exact State.lockOf_congr hman
  · exact State.singleOf_congr hman
  · exact congrArg (fun o => (Option.map (·.inUse) o).getD false) hst
  all_goals
    rcases hp with rfl | ⟨rfl, hq⟩
    · rfl
    · simp [Desk.guard, Desk.asked, Desk.obtained, Desk.quit, Desk.used, Desk.missed, hq.asks,
        hq.obtains, hq.quits, hq.uses, hq.misses]

include h in
theorem not_returned {z : Task} (hz : x.loop.tasks[t]? = some z) (hs : ∀ s o, z.status ≠ .finished s o) :
    t ∉ x.returned := by
  intro hm
  obtain ⟨k, s, o, hk, hf⟩ := h.returned t hm
  cases hz.symm.trans hk
  exact hs s o hf

include h in
theorem returned_modify {f : Task → Task} (ht : t ∉ x.returned) (hts : l'.tasks = x.loop.tasks.modify t f) :
    ∀ i ∈ x.returned, ∃ k s o, l'.tasks[i]? = some k ∧ k.status = .finished s o := by
  intro i hi
  obtain ⟨k, s, o, hk, hs⟩ := h.returned i hi
  have hne : t ≠ i := by
    rintro rfl
    exact ht hi
  exact ⟨k, s, o, by rw [hts, List.getElem?_modify_ne _ _ hne, hk], hs⟩

include h in
theorem finish_moves {o : Outcome u} (hr : x.loop.running = some ⟨t, u, .give o, .done u⟩) :
    Moves careless M c x ⟨x.loop.finish t o, x.returned, x.past ++ [x.loop]⟩ := by
  obtain ⟨hrt, z, hz, hzs⟩ := h.tended.running _ hr
  have hst := x.loop.finish_stirs t o
  have htasks : (x.loop.finish t o).tasks = x.loop.tasks.modify t fun k =>
      { k with status := .finished u o, followers := [] } := by
    refine List.ext_getElem? fun i => hst.spared i ?_
    rintro ⟨k, hk, hf⟩
    exact (h.plain t k hk).followers i hf
  have hrun : (x.loop.finish t o).running = none := hst.running
  have hq : x.loop.Quiet M := by
    constructor <;> cases o <;>
      simp [State.asks, State.obtains, State.quits, State.uses, State.misses, State.whoever, hr,
        Running.asks, Running.obtains, Running.quits, Running.uses, Running.misses]
  have ht : t ∉ x.returned := h.not_returned hz fun s o hs => by cases hzs.symm.trans hs
  have hplace : (x.loop.finish t o).place? = x.loop.place? := by
    rw [State.place?_idle hrun, State.post?_modify htasks hz]
    funext i
    by_cases hi : i = t
    · subst hi
      cases o <;> simp [State.place?, hz, hzs, hr, Status.place?, Running.place?]
    · rw [Function.update_of_ne hi]
      simp [State.place?, State.post?, hr, Ne.symm hi]
  have hlease : Desk.lease? ⟨x.loop.finish t o, x.returned, x.past ++ [x.loop]⟩ = x.lease? := by
    refine Desk.lease?_congr fun i => ?_
    rw [← State.lease?_lay hr ⟨z, hz, hzs⟩]
    exact State.lease?_congr hrun (by rw [htasks]; rfl)
  have hbear : (x.loop.finish t o).bears = x.loop.bears := by
    rw [State.bears_idle hrun, State.hangingUp_modify htasks hz]
    funext i
    by_cases hi : i = t
    · subst hi
      cases o <;> simp [State.bears, hz, hzs, hr, Status.bars, Running.bears, Stack.bars, Stack.closes]
    · rw [Function.update_of_ne hi]
      simp [State.bears, State.hangingUp, hr, Ne.symm hi]
  refine h.moves_of_eq ?_ hst.managers hst.standalone (fun i k hk => ?_) (State.heeds_idle hrun)
    (h.returned_modify ht htasks) (Guard.Step.rests.congr ?_)
  · refine ⟨fun r hr' => ?_, ?_⟩
    · cases hrun.symm.trans hr'
    · rw [htasks]
      exact AllChained.modify h.tended.tasks fun _ _ => .finished o
  · rw [htasks] at hk
    rcases modify_cases hk with ⟨_, hk⟩ | ⟨rfl, k', _, rfl⟩
    · exact h.plain i k hk
    · exact ⟨fun _ => List.not_mem_nil, by simp⟩
  · rw [guard_same hst.managers hst.standalone (.inr ⟨rfl, hq⟩), hplace, hlease, hbear]
    rfl

include h in
theorem resumed_moves {signal : Option Failure} {st : Stack .unit} {z : Task} (hr : x.loop.running = none)
    (hres : Resumed x.loop l' t signal st z) :
    Moves careless M c x ⟨l', x.returned, x.past ++ [x.loop]⟩ := by
  have hchain := h.tended.tasks t z hres.task
  rw [hres.ready] at hchain
  have hq : x.loop.Quiet M := State.quiet_idle hr
  have ht : t ∉ x.returned := h.not_returned hres.task fun s o hs => by cases hres.ready.symm.trans hs
  have hlease : Desk.lease? ⟨l', x.returned, x.past ++ [x.loop]⟩ = x.lease? :=
    Desk.lease?_congr (hres.lease? hr)
  have hbear : l'.bears = x.loop.bears := by
    refine hres.bears_eq hr ?_
    cases hchain with
    | made => cases z.answer none <;> simp [Stack.bars]
    | ready _ hf _ => cases hf <;> cases z.answer signal <;> simp [Stack.bars]
  refine h.moves_of_eq (h.tended.goesOn hres.task hres.ready hres.running hres.tasks) hres.managers
    hres.standalone (fun i k hk => ?_) (fun t' e k hr' => ?_) (h.returned_modify ht hres.tasks) ?_
  · rw [hres.tasks] at hk
    rcases modify_cases hk with ⟨_, hk⟩ | ⟨rfl, k', hk', rfl⟩
    · exact h.plain i k hk
    · exact ⟨(h.plain i k' hk').followers, by simp⟩
  · -- Signals are cancellations.
    have hrun := hres.running.symm.trans hr'
    simp only [Option.some.injEq, Running.mk.injEq, heq_eq_eq, Control.give.injEq, true_and] at hrun
    obtain ⟨_, ha, _⟩ := hrun
    simp only [Task.answer] at ha
    split at ha
    next hf =>
      cases ha
      split at hf
      next => exact (Option.some.inj hf).symm
      next => exact (h.plain t z hres.task).signal e st (hf ▸ hres.ready)
    next => cases ha
  · rw [guard_same hres.managers hres.standalone (.inr ⟨rfl, hq⟩), hres.place?_eq hr, hlease, hbear]
    have hold : (x.guard M c).place t = z.status.place? := by
      simp [Desk.guard, State.place?, hres.task, hr]
    rw [hres.ready] at hold
    have same : ∀ {p : Option Place}, (x.guard M c).place t = p → (x.guard M c).Step careless c
        { x.guard M c with place := Function.update (x.guard M c).place t p } := fun hp =>
      Guard.Step.rests.congr
        (Guard.ext rfl rfl (Function.update_eq_self_iff.mpr hp.symm).symm rfl rfl rfl rfl rfl rfl rfl rfl)
    cases hw : st.Waits with
    | false =>
      have hpt : (x.guard M c).place t = none := by
        rw [hold]
        cases signal <;> simp [Status.place?, hw]
      rw [Running.place?_give hw]
      exact same hpt
    | true =>
      cases st with
      | done => cases hw
      | push f k =>
        cases f with
        | letIn =>
          cases signal with
          | some e =>
            -- A task that has been cancelled stays so.
            obtain ⟨e', he⟩ : ∃ e', z.answer (some e) = .error e' := by
              unfold Task.answer
              split
              next hf => exact ⟨_, rfl⟩
              next hf => split at hf <;> cases hf
            rw [he]
            exact same hold
          | none =>
            cases ha : z.answer none with
            | ok => exact same hold
            | error e => exact .falters hold
        | _ => simp [Stack.Waits] at hw

include h in
theorem stirred_moves (hr : x.loop.running = none) (hst : Stirred x.loop.Expects x.loop l') :
    Moves careless M c x ⟨l', x.returned, x.past ++ [x.loop]⟩ := by
  have htasks : l'.tasks = x.loop.tasks :=
    List.ext_getElem? fun i => hst.spared i (h.tended.unexpecting i)
  have hq : x.loop.Quiet M := State.quiet_idle hr
  have hplace : l'.place? = x.loop.place? := by
    funext i
    rw [State.place?, State.place?, htasks, hst.running]
  have hlease : Desk.lease? ⟨l', x.returned, x.past ++ [x.loop]⟩ = x.lease? := by
    refine Desk.lease?_congr fun i => ?_
    rw [State.lease?, State.lease?, htasks, hst.running]
  have hbear : l'.bears = x.loop.bears := State.bears_congr htasks hst.running
  refine h.moves_of_eq ⟨?_, ?_⟩ hst.managers hst.standalone (htasks ▸ h.plain)
    (h.heeds.of_eq hst.running) (htasks ▸ h.returned) ?_
  · rw [hst.running, htasks]
    exact h.tended.running
  · rw [htasks]
    exact h.tended.tasks
  · rw [guard_same hst.managers hst.standalone (.inr ⟨rfl, hq⟩), hplace, hlease, hbear]
    exact .rests

include h in
theorem step_moves (hl : x.loop.step? = some l') :
    Moves careless M c x ⟨l', x.returned, x.past ++ [x.loop]⟩ := by
  cases hr : x.loop.running with
  | some r =>
    rw [State.step_running hr hl]
    rcases r.cases_on with ⟨u, w, k, he⟩ | ⟨u, o, he⟩
    · rw [he] at hr ⊢
      obtain ⟨d, hw, hk⟩ := h.tended.work hr
      rw [State.advance_on]
      exact h.work_moves hr hw hk
    · rw [he] at hr ⊢
      exact h.finish_moves hr
  | none =>
    rcases State.idle_stirs hr hl with ⟨t, signal, st, z, hres⟩ | hst
    · exact h.resumed_moves hr hres
    · exact h.stirred_moves hr hst

include h in
theorem made_moves {z : Task} (ht : Tended M .single l') (hts : l'.tasks = x.loop.tasks ++ [z])
    (hm : l'.managers = x.loop.managers) (hs : l'.standalone = x.loop.standalone) (hz : z.Plain)
    (hh : l'.Heeds M)
    (hg : l'.place? = x.loop.place? ∧ l'.lease? = x.loop.lease? ∧ l'.bears = x.loop.bears) :
    Moves careless M c x { x with loop := l' } := by
  obtain ⟨hplace, hlease, hbear⟩ := hg
  have hl : Desk.lease? { x with loop := l' } = x.lease? := Desk.lease?_congr (congrFun hlease)
  refine h.moves_of_eq ht hm hs (fun i k hk => ?_) hh (fun i hi => ?_) ?_
  · rw [hts] at hk
    rcases append_cases hk with hk | ⟨_, rfl⟩
    · exact h.plain i k hk
    · exact hz
  · obtain ⟨k, s, o, hk, hs⟩ := h.returned i hi
    exact ⟨k, s, o, by rw [hts, List.getElem?_append_left (List.getElem?_eq_some_iff.mp hk).1, hk], hs⟩
  · rw [guard_same hm hs (.inl rfl), hplace, hl, hbear]
    exact .rests

include h in
theorem enter_moves {d : Call u} (hr : x.loop.running = none) (hd : d.Served M .single) :
    Moves careless M c x { x with loop := x.loop.enter d } := by
  refine h.made_moves (h.tended.enter hd) rfl rfl rfl ⟨fun _ => List.not_mem_nil, by simp⟩ (fun _ _ _ he => by cases he)
    ⟨funext fun i => ?_, funext (State.lease?_enter hr d), ?_⟩
  · rw [State.place?, State.place?, hr]
    simp only [State.enter, Option.bind_some, Running.place?, ite_self, Option.bind_none, Option.or_none]
    exact bind_getElem?_append rfl i
  · funext i
    rw [State.bears_idle hr, State.bears]
    simp only [State.enter, State.hangingUp, Option.any_some, Running.bears, Stack.bars, Stack.closes, Bool.and_false,
      Bool.or_false]
    exact any_getElem?_append rfl i

include h in
theorem spawn_moves {d : Call u} (hd : d.Served M .single) :
    Moves careless M c x { x with loop := (x.loop.spawn d []).1 } := by
  refine h.made_moves (h.tended.spawn hd) rfl rfl rfl ⟨fun _ => List.not_mem_nil, by simp⟩ h.heeds
    ⟨funext fun i => ?_, funext (State.lease?_spawn d), funext fun i => ?_⟩
  · exact congrArg (fun v => Option.or v _) (bind_getElem?_append (by simp [Status.place?, Stack.Waits]) i)
  · exact congrArg (fun v => v || _) (any_getElem?_append (by simp [Status.bars, Stack.closes]) i)

include h in
theorem apart_moves (ht : l'.tasks = x.loop.tasks) (hr : l'.running = x.loop.running)
    (hm : l'.managers = x.loop.managers) (hs : l'.standalone = x.loop.standalone) :
    Moves careless M c x { x with loop := l' } := by
  have hplace : l'.place? = x.loop.place? := by
    funext i
    rw [State.place?, State.place?, ht, hr]
  have hlease : Desk.lease? { x with loop := l' } = x.lease? := by
    refine Desk.lease?_congr fun i => ?_
    rw [State.lease?, State.lease?, ht, hr]
  have hbear : l'.bears = x.loop.bears := State.bears_congr ht hr
  refine h.moves_of_eq ⟨?_, ht ▸ h.tended.tasks⟩ hm hs (ht ▸ h.plain) (h.heeds.of_eq hr)
    (ht ▸ h.returned) ?_
  · rw [hr, ht]
    exact h.tended.running
  · rw [guard_same hm hs (.inl rfl), hplace, hlease, hbear]
    exact .rests

include h in
theorem nudged_moves {f : Task → Task} (hr : x.loop.running = none) (hr' : l'.running = none)
    (ht : l'.tasks = x.loop.tasks.modify t f) (hm : l'.managers = x.loop.managers)
    (hs : l'.standalone = x.loop.standalone)
    (hf : ∀ k, x.loop.tasks[t]? = some k → k.Nudge True (· = .cancelled) (fun _ => False) (f k) ∧
      (f k).status.place? = k.status.place?) :
    Moves careless M c x { x with loop := l' } := by
  have hn : Nudged (fun _ => True) (fun _ e => e = .cancelled) (fun _ _ => False) x.loop.tasks l'.tasks := by
    rw [ht]
    exact .modify fun k hk => (hf k hk).1
  have hplace : l'.place? = x.loop.place? := by
    rw [State.place?_idle hr', State.place?_idle hr]
    cases hz : x.loop.tasks[t]? with
    | none =>
      have he : l'.tasks = x.loop.tasks := by
        rw [ht]
        exact List.modify_eq_self (List.getElem?_eq_none_iff.mp hz)
      funext i
      rw [State.post?, State.post?, he]
    | some z =>
      rw [State.post?_modify ht hz, (hf z hz).2]
      exact Function.update_eq_self_iff.mpr (by simp [State.post?, hz])
  have hlease : Desk.lease? { x with loop := l' } = x.lease? :=
    Desk.lease?_congr (State.lease?_nudged (hr'.trans hr.symm) hn)
  refine h.moves_of_eq (h.tended.nudged (hr'.trans hr.symm) hn) hm hs
    (hn.plain (fun _ _ => id) (fun _ _ => id) h.plain) (State.heeds_idle hr') (hn.ended h.returned) ?_
  rw [guard_same hm hs (.inl rfl), hplace, hlease, State.bears_idle hr', hn.hangingUp, ← State.bears_idle hr]
  exact .rests

include h in
theorem requestCancel_moves (hr : x.loop.running = none) (t : Nat) :
    Moves careless M c x { x with loop := x.loop.requestCancel t } :=
  h.nudged_moves hr hr rfl rfl rfl fun _ _ => ⟨⟨.same _, .inr trivial, fun _ hf => .inl hf⟩, rfl⟩

include h in
theorem wake_moves {z : Task} {st : Stack .unit} (hr : x.loop.running = none)
    (hz : x.loop.tasks[t]? = some z) (hs : z.status = .paused .held st) (signal : Option Failure)
    (hsig : ∀ e, signal = some e → e = .cancelled) (f : Engine.State → Engine.State) :
    Moves careless M c x { x with loop := (x.loop.modifyEngine f).wake t signal } := by
  have hc := h.tended.tasks t z hz
  rw [hs] at hc
  obtain ⟨status, context, flag, followers⟩ := z
  cases hs
  have hw : st.Waits = false := by
    rcases hc.held with ⟨_, hw⟩ | ⟨hw, _⟩
    · exact hw
    · cases hw
  have he : (x.loop.modifyEngine f).wake t signal = ((x.loop.modifyEngine f).modifyTask t fun k =>
      { k with status := .ready signal st }).enqueue (.step t) := by
    have hz' : (x.loop.modifyEngine f).tasks[t]? = some ⟨.paused .held st, context, flag, followers⟩ := hz
    simp only [State.wake, hz']
  rw [he]
  refine h.nudged_moves hr hr rfl rfl rfl fun k hk => ?_
  cases hz.symm.trans hk
  refine ⟨⟨.woken _ _ hsig, .inl rfl, fun _ hf => .inl hf⟩, ?_⟩
  cases signal <;> simp [Status.place?, hw]

include h in
theorem mark_moves {z : Task} {st : Stack .unit} (hr : x.loop.running = none)
    (hz : x.loop.tasks[t]? = some z) (hs : z.status = .paused (.lock M) st) :
    Moves careless M c x { x with
      loop := ((x.loop.modifyManager M fun k => { k with lock := k.lock.mark t .cancelled }).wake t
        (some .cancelled)) } := by
  have hc := h.tended.tasks t z hz
  rw [hs] at hc
  obtain ⟨status, context, flag, followers⟩ := z
  cases hs
  have hw : st.Waits = true := by
    rcases hc.held with ⟨hw, _⟩ | ⟨_, hw⟩
    · cases hw
    · exact hw
  have hm := (Roused.refl h.manager h.connection).modifyLock fun k => k.mark t .cancelled
  have hp : (x.guard M c).place t = some .waiting := by
    simp [Desk.guard, State.place?_idle hr, State.post?, hz, Status.place?, hw]
  have he : (x.loop.modifyManager M fun k => { k with lock := k.lock.mark t .cancelled }).wake t
      (some .cancelled) =
      ((x.loop.modifyManager M fun k => { k with lock := k.lock.mark t .cancelled }).modifyTask t fun k =>
        { k with status := .ready (some .cancelled) st }).enqueue (.step t) := by
    have hz' : (x.loop.modifyManager M fun k => { k with lock := k.lock.mark t .cancelled }).tasks[t]? =
        some ⟨.paused (.lock M) st, context, flag, followers⟩ := hz
    simp only [State.wake, hz']
  rw [he]
  generalize hl' : ((x.loop.modifyManager M fun k => { k with lock := k.lock.mark t .cancelled }).modifyTask
    t fun k => { k with status := .ready (some .cancelled) st }).enqueue (.step t) = l'
  have ht : l'.tasks = x.loop.tasks.modify t fun k => { k with status := .ready (some .cancelled) st } := by
    rw [← hl']
    rfl
  have hr' : l'.running = none := by
    rw [← hl']
    exact hr
  have hman : l'.manager? M =
      (x.loop.modifyManager M fun k => { k with lock := k.lock.mark t .cancelled }).manager? M := by
    rw [← hl']
    rfl
  have hn : Nudged (fun _ => True) (fun _ e => e = .cancelled) (fun _ _ => False) x.loop.tasks l'.tasks := by
    rw [ht]
    refine .modify fun k hk => ?_
    cases hz.symm.trans hk
    exact ⟨.woken _ _ fun _ he => (Option.some.inj he).symm, .inl rfl, fun _ hf => .inl hf⟩
  have hlease : Desk.lease? { x with loop := l' } = x.lease? := by
    refine Desk.lease?_congr fun i => ?_
    rw [State.lease?_idle hr', State.lease?_idle hr, ht]
    by_cases hi : i = t
    · subst hi
      simp [hz, Status.lease?]
    · simp [Ne.symm hi]
  have hg : Desk.guard M c { x with loop := l' } = { x.guard M c with
      lock := (x.guard M c).lock.mark t .cancelled
      place := Function.update (x.guard M c).place t (some .cancelled) } := by
    refine Guard.ext ?_ ?_ ?_ hlease ?_ ?_ rfl rfl rfl rfl rfl
    · exact (State.lockOf_congr hman).trans hm.lock
    · exact (State.singleOf_congr hman).trans hm.single
    · show l'.place? = _
      rw [State.place?_idle hr', State.post?_modify ht hz]
      simp [Desk.guard, State.place?_idle hr, Status.place?, hw]
    · show l'.bears = x.loop.bears
      rw [State.bears_idle hr', State.bears_idle hr, hn.hangingUp]
    · rw [← hl']
      rfl
  have hstep : (x.guard M c).Step careless c (Desk.guard M c { x with loop := l' }) :=
    (Guard.Step.marks hp).congr hg.symm
  refine ⟨hstep, h.tended.nudged (hr'.trans hr.symm) hn, hman ▸ hm.manager, ?_,
    hn.plain (fun _ _ => id) (fun _ _ => id) h.plain, State.heeds_idle hr', hn.ended h.returned,
    h.sound.step hstep⟩
  rw [← hl']
  exact h.connection

include h in
theorem cancel_moves (hr : x.loop.running = none) (t : Nat) :
    Moves careless M c x { x with loop := x.loop.cancel t } := by
  cases hz : x.loop.tasks[t]? with
  | none =>
    have he : x.loop.cancel t = x.loop ∨ x.loop.cancel t = x.loop.requestCancel t := by
      unfold State.cancel
      cases hn : x.loop.tasks.length with
      | zero => exact .inr rfl
      | succ n =>
        rw [State.cancelWithin, hz]
        exact .inl rfl
    rcases he with he | he
    · rw [he]
      exact ⟨.rests, h⟩
    · rw [he]
      exact h.requestCancel_moves hr t
  | some z =>
    obtain ⟨n, hn⟩ : ∃ n, x.loop.tasks.length = n + 1 :=
      ⟨x.loop.tasks.length - 1, by have := (List.getElem?_eq_some_iff.mp hz).1; omega⟩
    have hc := h.tended.tasks t z hz
    rw [State.cancel, hn, State.cancelWithin, hz]
    dsimp only
    obtain ⟨status, context, flag, followers⟩ := z
    cases status with
    | finished => exact ⟨.rests, h⟩
    | ready | running => exact h.requestCancel_moves hr t
    | paused w st =>
      rcases hc.held with ⟨rfl, _⟩ | ⟨rfl, _⟩
      · have hz' : (x.loop.modifyEngine fun e => e.letGo t).tasks[t]? =
            some ⟨.paused .held st, context, flag, followers⟩ := hz
        simp only [State.abandonWait, State.wakeInLine, hz']
        exact h.wake_moves hr hz rfl _ (fun _ he => (Option.some.inj he).symm) _
      · have hz' : (x.loop.modifyManager M fun k => { k with lock := k.lock.mark t .cancelled }).tasks[t]? =
            some ⟨.paused (.lock M) st, context, flag, followers⟩ := hz
        simp only [State.abandonWait, State.wakeInLine, hz']
        exact h.mark_moves hr hz rfl

include h in
theorem outside_moves {lock : Lock} {single next : Option Nat} {inUse : Bool} {r : List Nat}
    (hr : x.loop.running = none) (hm : Roused M c x.loop m lock single inUse next)
    (hret : ∀ t ∈ r, ∃ k s o, x.loop.tasks[t]? = some k ∧ k.status = .finished s o)
    (hs : (x.guard M c).Step careless c
      { x.guard M c with
        lock, single, inUse
        place := fun i => if next = some i then some .granted else (x.guard M c).place i
        lease := Desk.lease? { x with returned := r } }) :
    Moves careless M c x ⟨m, r, x.past⟩ := by
  have hr' := hm.running.trans hr
  have hg : Desk.guard M c ⟨m, r, x.past⟩ =
      { x.guard M c with
        lock, single, inUse
        place := fun i => if next = some i then some .granted else (x.guard M c).place i
        lease := Desk.lease? { x with returned := r } } := by
    refine Guard.ext hm.lock hm.single ?_ ?_ ?_ hm.inUse rfl rfl rfl rfl rfl
    · show m.place? = _
      rw [State.place?_idle hr']
      funext i
      rw [hm.posts]
      simp only [Desk.guard, State.place?_idle hr]
    · funext i
      exact congrArg (fun v => if i ∈ r then none else v) (State.lease?_nudged hm.running hm.tasks i)
    · show m.bears = x.loop.bears
      rw [State.bears_idle hr', State.bears_idle hr, hm.tasks.hangingUp]
  have hstep := hs.congr hg.symm
  exact ⟨hstep, h.tended.nudged hm.running hm.tasks, hm.manager, hm.connection,
    hm.tasks.plain (fun _ _ => False.elim) (fun _ _ => id) h.plain, State.heeds_idle hr',
    hm.tasks.ended hret, h.sound.step hstep⟩

include h in
theorem idle_waits (hr : x.loop.running = none) (hk : (x.loop.lockOf M).locked = true) :
    ∀ i, (x.loop.lockOf M).release.2 = some i → x.loop.post? i = some .waiting := fun i hi => by
  have hp := (h.sound.line.opened hk).next_waits hi
  rw [← State.place?_idle hr]
  exact hp

include h in
theorem kept_ended {c' : Lease} (hk : x.Keeps t c') :
    ∀ i ∈ t :: x.returned, ∃ k s o, x.loop.tasks[i]? = some k ∧ k.status = .finished s o := by
  intro i hi
  rcases List.mem_cons.mp hi with rfl | hi
  · obtain ⟨_, k, hk, hs⟩ := hk
    exact ⟨k, _, _, hk, hs⟩
  · exact h.returned i hi

include h in
theorem giveBack_moves {c' : Lease} (hr : x.loop.running = none) (hk : x.Keeps t c') :
    Moves careless M c x
      { x with loop := (x.loop.giveBack M (some c')).1, returned := t :: x.returned } := by
  have hl : (x.guard M c).lease t = some c' := hk.lease hr
  obtain ⟨hlocked, _, rfl, _⟩ := h.sound.held.has hl
  refine h.outside_moves hr (h.giveBack_roused hl (h.idle_waits hr hlocked)).1 (h.kept_ended hk) ?_
  refine (Guard.Step.returns hl).congr ?_
  simp only [Desk.lease?_returned]
  rfl

include h in
theorem forget_moves {c' : Lease} (hc : careless) (hr : x.loop.running = none) (hk : x.Keeps t c') :
    Moves careless M c x { x with returned := t :: x.returned } := by
  have hl : (x.guard M c).lease t = some c' := hk.lease hr
  obtain ⟨_, _, rfl, _⟩ := h.sound.held.has hl
  refine h.outside_moves hr (Roused.refl h.manager h.connection) (h.kept_ended hk) ?_
  refine (Guard.Step.forgets hc hl).congr ?_
  simp only [Desk.lease?_returned, reduceCtorEq, if_false]
  rfl

include h in
theorem releaseSingle_refused (id : Nat) (hu : x.loop.singleOf M = some id → x.loop.inUse id = false) :
    x.loop.releaseSingle M id = (x.loop, .error (.notCheckedOut (Pool.connectionName id))) := by
  obtain ⟨a, ha, _⟩ := h.manager
  have hsingle : x.loop.singleOf M = a.single := by rw [State.singleOf, ha]; rfl
  rw [hsingle] at hu
  simp only [State.releaseSingle, ha]
  split
  next hc =>
    rw [Bool.and_eq_true, decide_eq_true_eq] at hc
    have hin : ((x.loop.standalone? id).map (·.inUse)).getD false = false := hu hc.1
    cases hin.symm.trans hc.2
  next => rfl

include h in
theorem release_moves {c' : Lease} (hc : careless) (hr : x.loop.running = none)
    (hun : x.Unclaimed c'.id .single) :
    Moves careless M c x { x with loop := (x.loop.giveBack M (some c')).1 } := by
  obtain ⟨a, ha, hpool⟩ := h.manager
  have hgive : x.loop.giveBack M (some c') = x.loop.releaseSingle M c'.id := by
    simp [State.giveBack, ha, hpool]
  rw [hgive]
  by_cases hu : x.loop.singleOf M = some c'.id ∧ x.loop.inUse c'.id = true
  · obtain ⟨hs, hu⟩ := hu
    have hid : c'.id = c.id := by
      rcases h.sound.single with hn | hc
      · cases hs.symm.trans hn
      · exact Option.some.inj (hs.symm.trans hc)
    rw [hid] at hs hu hun ⊢
    -- The connection is in use though nobody has it: somebody has forgotten about it.
    obtain ⟨hlocked, hb, hnone⟩ : (x.loop.lockOf M).locked = true ∧ (∀ t, (x.guard M c).bears t = false) ∧
        ∀ t, (x.guard M c).lease t = none := by
      cases h.sound.held with
      | free _ _ _ h | passing _ _ _ _ h | stuck _ _ _ h => cases h.symm.trans hu
      | lent _ _ hl => exact absurd rfl (hun _ c hl)
      | lost _ hk hb hl => exact ⟨hk, hb, hl⟩
    have hsingle : a.single = some c.id := by rw [← hs, State.singleOf, ha]; rfl
    have hlock : a.lock.locked = true := by rw [← hlocked, State.lockOf, ha]; rfl
    have hin : ((x.loop.standalone? c.id).map (·.inUse)).getD false = true := hu
    have he : x.loop.releaseSingle M c.id = ((x.loop.setStandaloneUse c.id false).unlock M, .ok ()) := by
      simp [State.releaseSingle, ha, hin, hsingle, hlock]
    rw [he]
    have hm := ((Roused.refl h.manager h.connection).setUse false).setLock Lock.release
      (h.idle_waits hr hlocked)
    refine h.outside_moves hr hm h.returned ((Guard.Step.finds hc hb hnone hu).congr ?_)
    rfl
  · have he := h.releaseSingle_refused c'.id fun hs => by
      by_contra hn
      exact hu ⟨hs, Bool.eq_true_of_not_eq_false hn⟩
    rw [he]
    exact ⟨.rests, h⟩

include h in
theorem answer_moves {z : Task} {st : Stack .unit} (hr : x.loop.running = none)
    (hz : x.loop.tasks[t]? = some z) (hs : z.status = .paused .held st) :
    Moves careless M c x { x with loop := x.loop.answerHeld t } :=
  h.wake_moves hr hz hs none nofun _

end Desk.Guarded

theorem Desk.Step.moves (hs : x.Step M .single careless y) (h : x.Guarded careless M c) :
    Desk.Moves careless M c x y := by
  cases hs with
  | loop hl => exact h.step_moves hl
  | enter hr hc => exact h.enter_moves hr hc.served
  | spawn _ hc => exact h.spawn_moves hc.served
  | runs d s m hr _ => exact h.enter_moves hr (.run _ d _ s m)
  | plans d s m _ _ => exact h.spawn_moves (.run _ d _ s m)
  | giveBack hr hk _ => exact h.giveBack_moves hr hk
  | cancel t hr => exact h.cancel_moves hr t
  | answer hr hz hs => exact h.answer_moves hr hz hs
  | engine | tick => exact h.apart_moves rfl rfl rfl rfl
  | forget hc hr hk => exact h.forget_moves hc hr hk
  | release c' hc hr hun => exact h.release_moves hc hr hun
  | destroy _ _ _ hw => cases hw

theorem State.SetUp.shared (hs : l.SetUp M .single) : ∃ c, l.shared? M = some c := by
  obtain ⟨a, id, z, ha, _, _, hsingle, _, hz, _⟩ := hs
  exact ⟨z.lease, by simp [State.shared?, State.singleOf, ha, hsingle, hz]⟩

theorem State.SetUp.guarded (hi : l.Idle) (hs : l.SetUp M .single) (hc : l.shared? M = some c) :
    Desk.Guarded careless M c ⟨l, [], []⟩ := by
  obtain ⟨a, id, z, ha, _, hpool, hsingle, hlock, hz, huse⟩ := hs
  have hr := hi.1
  have htasks := hi.2
  have hid : z.lease.id = id := by
    have h := List.find?_some (p := fun z : Pool.Connection => z.id = id) hz
    exact of_decide_eq_true h
  obtain rfl : c = z.lease := by
    simpa [State.shared?, State.singleOf, ha, hsingle, hz] using hc.symm
  have hline : l.lockOf M = {} := by rw [State.lockOf, ha]; exact hlock
  have hplace : ∀ i, l.place? i = none := by
    intro i
    rw [State.place?_idle hr, State.post?]
    cases hk : l.tasks[i]? with
    | none => rfl
    | some k =>
      obtain ⟨⟨s, o, hs⟩, _⟩ := htasks i k hk
      simp [hs, Status.place?]
  have hbears : ∀ i, l.bears i = false := by
    intro i
    rw [State.bears_idle hr, State.hangingUp]
    cases hk : l.tasks[i]? with
    | none => rfl
    | some k =>
      obtain ⟨⟨s, o, hs⟩, _⟩ := htasks i k hk
      simp [hs, Status.bars]
  have hlease : ∀ i, Desk.lease? ⟨l, [], []⟩ i = none := fun i =>
    (if_neg List.not_mem_nil).trans (hi.lease i)
  have hused : l.inUse id = false := by rw [State.inUse, hz]; exact huse
  refine ⟨hi.tended, ⟨a, ha, hpool⟩, ?_,
    fun i k hk => ⟨(htasks i k hk).2.2, fun e st hs => ?_⟩, State.heeds_idle hr,
    fun t ht => (List.not_mem_nil ht).elim, ?_⟩
  · rw [hid]
    exact (congrArg _ hz).trans rfl
  · obtain ⟨⟨s, o, hs'⟩, _⟩ := htasks i k hk
    cases hs.symm.trans hs'
  · refine ⟨⟨?_, ?_, ?_, ?_, ?_, ?_, ?_, fun i hi => ?_⟩, ?_, ?_, ?_⟩
    · simp [Desk.guard, hline]
    · simp [Desk.guard, hline]
    · simp [Desk.guard, hplace]
    · simp [Desk.guard, hline]
    · simp [Desk.guard, hline, Lock.standing, Desk.obtained]
    · simp [Desk.guard, hline, Desk.asked, Desk.obtained, Desk.quit]
    · exact List.nil_sublist _
    · cases (hbears i).symm.trans hi
    · simp [Desk.guard, hline]
    · exact .free (by simp [Desk.guard, hline]) hbears hlease
        ((congrArg l.inUse hid).trans hused) rfl
    · exact .inr (by simp [Desk.guard, State.singleOf, ha, hsingle, hid])

theorem Desk.Steps.guarded (hs : Desk.Steps M .single careless x y) (h : x.Guarded careless M c) :
    y.Guarded careless M c := by
  induction hs with
  | refl => exact h
  | tail _ hs ih => exact (hs.moves ih).guarded

end SqliteAccess.Loop
