import SqliteAccess.Proofs.Loop.Nudge

/-!
How the operations of the loop change a pool and the tasks. A change is followed operation by
operation: the pool after it, the tasks that were nudged and those that were made.
-/

namespace SqliteAccess.Loop

structure Changed (p : Nat) (C : Nat → Prop) (D : Nat → Failure → Prop) (E : Nat → Follower → Prop)
    (l l' : State) (s : Pool.State) (N : Nat) (cs : List (Call .unit)) : Prop where
  pool : l'.pool? p = some s
  next : l'.nextConnection = N
  running : l'.running = l.running
  tasks : ∃ ts new, l'.tasks = ts ++ new ∧ Nudged C D E l.tasks ts ∧ List.Forall₂ (Made p) cs new

variable {p : Nat} {C : Nat → Prop} {D : Nat → Failure → Prop} {E : Nat → Follower → Prop}
  {l l' l'' : State} {s : Pool.State} {N : Nat} {cs : List (Call .unit)}

namespace State

theorem wake_of_paused {l : State} {k : Task} {w : Wait} {st : Stack .unit} {t : Nat} (hk : l.tasks[t]? = some k)
    (hs : k.status = .paused w st) (signal : Option Failure) :
    l.wake t signal = (l.modifyTask t fun k => { k with status := .ready signal st }).enqueue (.step t) := by
  obtain ⟨status, context, cancelRequested, followers⟩ := k
  cases hs
  rw [wake, hk]

theorem wake_pools (l : State) (t : Nat) (signal : Option Failure) :
    (l.wake t signal).pools = l.pools := by
  unfold wake
  split <;> rfl

theorem wake_running (l : State) (t : Nat) (signal : Option Failure) :
    (l.wake t signal).running = l.running := by
  unfold wake
  split <;> rfl

theorem wake_next (l : State) (t : Nat) (signal : Option Failure) :
    (l.wake t signal).nextConnection = l.nextConnection := by
  unfold wake
  split <;> rfl

end State

namespace Changed

theorem refl (h : l.pool? p = some s) : Changed p C D E l l s l.nextConnection [] :=
  ⟨h, rfl, rfl, l.tasks, [], by simp, .refl _ _ _ _, .nil⟩

theorem apart (h : Changed p C D E l l' s N cs) (hp : l''.pools = l'.pools)
    (hn : l''.nextConnection = l'.nextConnection) (hr : l''.running = l'.running)
    (ht : l''.tasks = l'.tasks) : Changed p C D E l l'' s N cs := by
  refine ⟨?_, hn.trans h.next, hr.trans h.running, ht ▸ h.tasks⟩
  rw [← h.pool]
  simp [State.pool?, hp]

theorem modifyPool (h : Changed p C D E l l' s N cs) (f : Pool.State → Pool.State) :
    Changed p C D E l (l'.modifyPool p f) (f s) N cs := by
  refine ⟨?_, h.next, h.running, h.tasks⟩
  have hp := h.pool
  simp only [State.pool?] at hp
  simp [State.pool?, State.modifyPool, hp]

theorem setPool (h : Changed p C D E l l' s N cs) (s' : Pool.State) :
    Changed p C D E l (l'.modifyPool p fun _ => s') s' N cs := h.modifyPool fun _ => s'

theorem report (h : Changed p C D E l l' s N cs) (r : Log.Record) :
    Changed p C D E l (l'.report r) s N cs := by
  unfold State.report
  split
  · exact h.apart rfl rfl rfl rfl
  · exact h

theorem nudge (h : Changed p C D E l l' s N []) (hp : l''.pools = l'.pools)
    (hc : l''.nextConnection = l'.nextConnection) (hr : l''.running = l'.running)
    (ht : Nudged C D E l'.tasks l''.tasks) :
    Changed p C D E l l'' s N [] := by
  obtain ⟨ts, new, he, hn, hm⟩ := h.tasks
  cases hm
  rw [List.append_nil] at he
  refine ⟨?_, hc.trans h.next, hr.trans h.running, l''.tasks, [], by simp, hn.trans (he ▸ ht), .nil⟩
  rw [← h.pool]
  simp [State.pool?, hp]

theorem mono {C' : Nat → Prop} {D' : Nat → Failure → Prop} {E' : Nat → Follower → Prop}
    (h : Changed p C D E l l' s N cs) (hc : ∀ i, C i → C' i) (hd : ∀ i e, D i e → D' i e)
    (he : ∀ i f, E i f → E' i f) :
    Changed p C' D' E' l l' s N cs := by
  obtain ⟨ts, new, ht, hn, hm⟩ := h.tasks
  exact ⟨h.pool, h.next, h.running, ts, new, ht, hn.mono hc hd he, hm⟩

theorem currentTask (h : Changed p C D E l l' s N cs) : l'.currentTask = l.currentTask := by
  simp [State.currentTask, State.current?, h.running]

theorem length (h : Changed p C D E l l' s N cs) : l'.tasks.length = l.tasks.length + cs.length := by
  obtain ⟨ts, new, he, hn, hm⟩ := h.tasks
  rw [he, List.length_append, hn.length, hm.length_eq]

theorem wake (h : Changed p C D E l l' s N []) (t : Nat) {signal : Option Failure}
    (hd : ∀ e, signal = some e → D t e) : Changed p C D E l (l'.wake t signal) s N [] :=
  h.nudge (State.wake_pools l' t signal) (State.wake_next l' t signal)
    (State.wake_running l' t signal) (State.wake_nudged l' t hd)

theorem wakeInLine (h : Changed p C D E l l' s N []) (t : Nat) {signal : Option Failure}
    (hd : ∀ e, signal = some e → D t e) : Changed p C D E l (l'.wakeInLine t signal) s N [] := by
  unfold State.wakeInLine
  split
  next n _ _ _ _ _ =>
    have hn : Changed p C D E l (l'.dropTimer n) s N [] := h.apart rfl rfl rfl rfl
    exact hn.wake t hd
  next => exact h.wake t hd

theorem spawn (h : Changed p C D E l l' s N cs) (c : Call .unit) {fs : List Follower}
    (hf : ∀ f ∈ fs, f = .dropBackground p) : Changed p C D E l (l'.spawn c fs).1 s N (cs ++ [c]) := by
  obtain ⟨ts, new, he, hn, hm⟩ := h.tasks
  let k : Task :=
    { status := .ready none (.push (.start c) (.done .unit)), context := l'.context, followers := fs }
  have hk : Made p c k := ⟨rfl, rfl, hf⟩
  have ht : (l'.spawn c fs).1.tasks = ts ++ (new ++ [k]) := by
    simp [State.spawn, State.enqueue, he, k]
  exact ⟨h.pool, h.next, h.running, ts, new ++ [k], ht, hn, List.rel_append hm (.cons hk .nil)⟩

theorem spawnBackground (h : Changed p C D E l l' s N cs) (c : Call .unit) :
    Changed p C D E l (l'.spawnBackground p c)
      { s with background := s.background ++ [l'.tasks.length] } N (cs ++ [c]) :=
  (h.spawn c (by simp)).modifyPool _

theorem spawnOpens (h : Changed p C D E l l' s N cs) (n : Nat) :
    Changed p C D E l (l'.spawnOpens p n) (s.expand l'.tasks.length n) N
      (cs ++ List.replicate n (.openBackground p)) := by
  induction n generalizing l' s cs with
  | zero =>
    rw [Pool.State.expand_zero, List.replicate_zero, List.append_nil]
    exact h
  | succ n ih =>
    have h' := (h.modifyPool Pool.State.reserveBackground).spawnBackground (.openBackground p)
    have ht : (l'.spawnOpen p).tasks.length = l'.tasks.length + 1 := by
      simp [State.spawnOpen, State.spawnBackground, State.spawn, State.enqueue, State.modifyPool]
    have hn : Changed p C D E l ((l'.spawnOpen p).spawnOpens p n) _ _ _ := ih h'
    rw [ht, List.append_assoc, List.singleton_append, ← List.replicate_succ] at hn
    rw [Pool.State.expand_succ]
    exact hn

theorem grow (h : Changed p C D E l l' s N cs) :
    ∃ m, l'.grow p = (m, s.growth.map fun _ => ()) ∧
      Changed p C D E l m (s.expand (l.tasks.length + cs.length) (opens s.growth)) N
        (cs ++ openers p s.growth) := by
  rw [← h.length]
  simp only [State.grow, h.pool]
  cases hg : s.growth with
  | error e => exact ⟨l', rfl, by simpa [opens, openers] using h⟩
  | ok n => exact ⟨_, rfl, h.spawnOpens n⟩

theorem ensureMinimum (h : Changed p C D E l l' s N cs) :
    ∃ m, l'.ensureMinimum p = (m, s.shortfall.map fun _ => ()) ∧
      Changed p C D E l m (s.expand (l.tasks.length + cs.length) (opens s.shortfall)) N
        (cs ++ openers p s.shortfall) := by
  rw [← h.length]
  simp only [State.ensureMinimum, h.pool]
  cases hg : s.shortfall with
  | error e => exact ⟨l', rfl, by simpa [opens, openers] using h⟩
  | ok n => exact ⟨_, rfl, h.spawnOpens n⟩

theorem checkin (h : Changed p C D E l l' s N []) (id : Nat) :
    Changed p C D E l (l'.checkin p id) (s.checkin id l'.clock).1 N [] := by
  have h' := h.setPool (s.checkin id l'.clock).1
  rw [State.checkin, h.pool]
  cases hs : (s.checkin id l'.clock).2 with
  | none => simpa only [hs] using h'
  | some t => simpa only [hs] using h'.wakeInLine t (by simp)

theorem failLongestWaiting (h : Changed p C D E l l' s N []) {e : Failure}
    (he : ∀ t, s.failFirst.2 = some t → D t e) :
    Changed p C D E l (l'.failLongestWaiting p e) s.failFirst.1 N [] := by
  have h' := h.setPool s.failFirst.1
  rw [State.failLongestWaiting, h.pool]
  cases hs : s.failFirst.2 with
  | none => simpa only [hs] using h'
  | some t => simpa only [hs] using h'.wakeInLine t fun _ hc => Option.some.inj hc ▸ he t hs

theorem register (h : Changed p C D E l l' s N cs) (c : Pool.Handle) :
    Changed p C D E l
      (State.modifyPool { l' with nextConnection := l'.nextConnection + 1 } p
        fun s => s.register l'.nextConnection c l'.clock)
      (s.register N c l'.clock) (N + 1) cs := by
  have h' : Changed p C D E l { l' with nextConnection := l'.nextConnection + 1 } s
      (l'.nextConnection + 1) cs := ⟨h.pool, rfl, h.running, h.tasks⟩
  rw [← h.next]
  exact h'.modifyPool _

theorem wakeAll (h : Changed p C D E l l' s N []) (ts : List Nat) {signal : Option Failure}
    (hs : ∀ t ∈ ts, ∀ e, signal = some e → D t e) :
    Changed p C D E l (ts.foldl (fun l t => l.wakeInLine t signal) l') s N [] := by
  induction ts generalizing l' with
  | nil => exact h
  | cons t ts ih =>
    rw [List.forall_mem_cons] at hs
    exact ih (h.wakeInLine t hs.1) hs.2

theorem modifyTask (h : Changed p C D E l l' s N []) {t : Nat} {f : Task → Task}
    (hf : ∀ k, l'.tasks[t]? = some k → k.Nudge (C t) (D t) (E t) (f k)) :
    Changed p C D E l (l'.modifyTask t f) s N [] := h.nudge rfl rfl rfl (.modify hf)

theorem requestCancel (h : Changed p C D E l l' s N []) {t : Nat} (hc : C t) :
    Changed p C D E l (l'.requestCancel t) s N [] :=
  h.modifyTask fun _ _ => ⟨.same _, .inr hc, fun _ hf => .inl hf⟩

theorem abandonAlone (h : Changed p C D E l l' s N []) {t : Nat} {w : Wait} (hw : w.Alone)
    (hd : D t .cancelled) :
    Changed p C D E l ((l'.abandonWait t w).wakeInLine t (some .cancelled)) s N [] := by
  have ha : Changed p C D E l (l'.abandonWait t w) s N [] := by
    cases w with
    | turn | task | tasks => cases hw
    | givenUp | opening | closing | held | sleep | lock => exact h.apart rfl rfl rfl rfl
  exact ha.wakeInLine t fun _ he => Option.some.inj he ▸ hd

theorem modifyLull (h : Changed p C D E l l' s N cs) (q : Nat) {f : Pool.State → Pool.State}
    (hf : s.Lull (f s)) : ∃ s', s.Lull s' ∧ Changed p C D E l (l'.modifyPool q f) s' N cs := by
  by_cases hq : q = p
  · subst hq
    exact ⟨f s, hf, h.modifyPool f⟩
  · have hp : (l'.modifyPool q f).pool? p = some s := by
      rw [← h.pool]
      simp [State.modifyPool, State.pool?, hq]
    exact ⟨s, .refl s, hp, h.next, h.running, h.tasks⟩

theorem abandon (h : Changed p C D E l l' s N []) {t : Nat} {w : Wait} (hd : D t .cancelled) :
    ∃ s', s.Lull s' ∧
      Changed p C D E l ((l'.abandonWait t w).wakeInLine t (some .cancelled)) s' N [] := by
  cases w with
  | turn q timer =>
    obtain ⟨s', hl, h'⟩ := h.modifyLull q (f := fun s => s.giveUp t) (.giveUp s t)
    exact ⟨s', hl, h'.wakeInLine t fun _ he => Option.some.inj he ▸ hd⟩
  | task | tasks => exact ⟨s, .refl s, h.wakeInLine t fun _ he => Option.some.inj he ▸ hd⟩
  | givenUp | opening | closing | held | sleep | lock => exact ⟨s, .refl s, h.abandonAlone trivial hd⟩

theorem cancelAlone (h : Changed p C D E l l' s N []) {t : Nat} {k : Task}
    (hk : l'.tasks[t]? = some k) (ha : k.Alone) (hc : C t) (hd : D t .cancelled) :
    Changed p C D E l (l'.cancel t) s N [] := by
  have hl : ∃ n, l'.tasks.length = n + 1 :=
    ⟨l'.tasks.length - 1, by have := (List.getElem?_eq_some_iff.mp hk).1; omega⟩
  obtain ⟨n, hn⟩ := hl
  rw [State.cancel, hn, State.cancelWithin, hk]
  obtain ⟨status, context, flag, followers⟩ := k
  cases status with
  | ready signal st => exact h.requestCancel hc
  | running => exact h.requestCancel hc
  | finished u o => exact h
  | paused w st =>
    have hw : w.Alone := ha w st rfl
    cases w with
    | turn | task | tasks => cases hw
    | givenUp | opening | closing | held | sleep | lock => exact h.abandonAlone trivial hd

theorem cancelWithin (h : Changed p C D E l l' s N []) {t : Nat} (depth : Nat) (hc : C t)
    (hd : D t .cancelled)
    (hp : ∀ k, l'.tasks[t]? = some k → k.Passes → ∀ i, C i ∧ D i .cancelled) :
    ∃ s', s.Lull s' ∧ Changed p C D E l (l'.cancelWithin t depth) s' N [] := by
  induction depth generalizing l' s t with
  | zero => exact ⟨s, .refl s, h.requestCancel hc⟩
  | succ depth ih =>
    rw [State.cancelWithin]
    cases hk : l'.tasks[t]? with
    | none => exact ⟨s, .refl s, h⟩
    | some k =>
      have hp := hp k hk
      obtain ⟨status, context, flag, followers⟩ := k
      cases status with
      | ready signal st => exact ⟨s, .refl s, h.requestCancel hc⟩
      | running => exact ⟨s, .refl s, h.requestCancel hc⟩
      | finished u o => exact ⟨s, .refl s, h⟩
      | paused w st =>
        cases w with
        | task r =>
          have ha := hp ⟨_, _, rfl, trivial⟩
          dsimp only
          split
          · exact ⟨s, .refl s, h.requestCancel hc⟩
          · exact ih h (ha r).1 (ha r).2 fun _ _ _ => ha
        | tasks ts b =>
          have ha := hp ⟨_, _, rfl, trivial⟩
          have h' := h.modifyTask (t := t)
            (f := fun k => { k with status := .paused (.tasks ts true) st }) fun k' hk' => by
              cases hk.symm.trans hk'
              exact ⟨.recounted ts ts b true st, .inl rfl, fun _ hf => .inl hf⟩
          dsimp only
          generalize l'.modifyTask t _ = m at h'
          clear hk hp h
          induction ts generalizing m s with
          | nil => exact ⟨s, .refl s, h'⟩
          | cons r ts ih' =>
            obtain ⟨s₁, h₁, hr⟩ := ih h' (ha r).1 (ha r).2 fun _ _ _ => ha
            obtain ⟨s₂, h₂, hs⟩ := ih' _ hr
            exact ⟨s₂, h₁.trans h₂, hs⟩
        | turn | givenUp | opening | closing | held | sleep | lock => exact h.abandon hd

theorem cancel (h : Changed p C D E l l' s N []) {t : Nat} (hc : C t) (hd : D t .cancelled)
    (hp : ∀ k, l'.tasks[t]? = some k → k.Passes → ∀ i, C i ∧ D i .cancelled) :
    ∃ s', s.Lull s' ∧ Changed p C D E l (l'.cancel t) s' N [] :=
  h.cancelWithin l'.tasks.length hc hd hp

theorem awaitTasks (h : Changed p C D E l l' s N []) (he : ∀ i, E i (.count l'.currentTask)) (ts : List Nat)
    (f : Frame .unit .unit) : Changed p C D E l (l'.awaitTasks ts f).1 s N [] := by
  unfold State.awaitTasks
  dsimp only
  generalize l'.currentTask = t at he ⊢
  induction ts generalizing l' with
  | nil => exact h
  | cons r ts ih =>
    apply ih
    dsimp only
    split
    · exact h.apart rfl rfl rfl rfl
    · refine h.modifyTask fun k _ => ⟨.same _, .inl rfl, fun f hf => ?_⟩
      rcases List.mem_append.mp hf with hf | hf
      · exact .inl hf
      · rw [List.mem_singleton.mp hf]
        exact .inr (he r)

end Changed

end SqliteAccess.Loop
