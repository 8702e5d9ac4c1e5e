import SqliteAccess.Proofs.Pool.Winding

/-!
The step that shuts a pool. It fails only where the sweep has failed before, and otherwise sets out to close the pool.
-/

namespace SqliteAccess.Loop

/-- The sweep has ended with a failure that is no cancellation. -/
def SweepFailed (l : State) (s : Pool.State) (e : Failure) : Prop :=
  e ≠ .cancelled ∧ ∃ r, s.reaper = some r ∧ l.endOf r = .error e

section Cancelling

variable {p t r : Nat} {l : State} {s : Pool.State} {k : Task}

theorem State.cancel_finished {u : Shape} {o : Outcome u} (h : l.Ended r o) : l.cancel r = l := by
  obtain ⟨⟨status, context, flag, followers⟩, hk, hs⟩ := h
  cases hs
  obtain ⟨n, hn⟩ : ∃ n, l.tasks.length = n + 1 :=
    ⟨l.tasks.length - 1, by have := (List.getElem?_eq_some_iff.mp hk).1; omega⟩
  rw [State.cancel, hn, State.cancelWithin, hk]

theorem State.requestCancel_task (hk : l.tasks[r]? = some k) :
    (l.requestCancel r).tasks[r]? = some { k with cancelRequested := true } := by
  simp [State.requestCancel, State.modifyTask, hk]

theorem State.wake_task {w : Wait} {st : Stack .unit} (hk : l.tasks[r]? = some k) (hs : k.status = .paused w st)
    (signal : Option Failure) : (l.wake r signal).tasks[r]? = some { k with status := .ready signal st } := by
  rw [State.wake_of_paused hk hs]
  simp [State.enqueue, State.modifyTask, hk]

theorem State.cancel_comes (hk : l.tasks[r]? = some k) (ha : k.Alone) (hr : k.status ≠ .running)
    (hf : ¬ l.isFinished r = true) : ∃ k' signal st, (l.cancel r).tasks[r]? = some k' ∧
      k'.status = .ready signal st ∧ (k'.cancelRequested = true ∨ signal = some .cancelled) := by
  obtain ⟨n, hn⟩ : ∃ n, l.tasks.length = n + 1 :=
    ⟨l.tasks.length - 1, by have := (List.getElem?_eq_some_iff.mp hk).1; omega⟩
  rw [State.cancel, hn, State.cancelWithin, hk]
  obtain ⟨status, context, flag, followers⟩ := k
  cases status with
  | ready signal st => exact ⟨_, signal, st, State.requestCancel_task hk, rfl, .inl rfl⟩
  | running => exact absurd rfl hr
  | finished u o => exact absurd (State.Ended.isFinished ⟨_, hk, rfl⟩) hf
  | paused w st =>
    have woken : ∀ {m : State}, m.tasks = l.tasks → ∃ k' signal st,
        (m.wakeInLine r (some .cancelled)).tasks[r]? = some k' ∧ k'.status = .ready signal st ∧
          (k'.cancelRequested = true ∨ signal = some .cancelled) := by
      intro m hm
      have hk' : m.tasks[r]? = _ := hm ▸ hk
      unfold State.wakeInLine
      split
      next n _ _ _ _ _ => exact ⟨_, _, st, State.wake_task (l := m.dropTimer n) hk' rfl _, rfl, .inr rfl⟩
      next => exact ⟨_, _, st, State.wake_task hk' rfl _, rfl, .inr rfl⟩
    have hw : w.Alone := ha w st rfl
    cases w with
    | turn | task | tasks => cases hw
    | givenUp | opening | closing | held | sleep | lock => exact woken rfl

end Cancelling

section Closing

variable {p t : Nat} {l : State} {s : Pool.State} {k : Stack .unit}

theorem State.closePool_finished (hp : l.pool? p = some s) (ho : s.closed = false) {r : Nat} (hr : s.reaper = some r)
    (hf : l.isFinished r = true) :
    l.closePool p = (l.modifyPool p Pool.State.shut).reaperEnded p (l.endOf r) := by
  obtain ⟨u, o, he⟩ := State.ended_of_isFinished hf
  have hcan : (l.modifyPool p Pool.State.shut).cancel r = l.modifyPool p Pool.State.shut :=
    State.cancel_finished (o := o) he
  have hfin : (l.modifyPool p Pool.State.shut).isFinished r = true := hf
  have hshut : (fun s : Pool.State => { s with closed := true }) = Pool.State.shut := rfl
  simp only [State.closePool, hp, ho, hr, hshut, hcan, hfin, Bool.false_eq_true, if_false, if_true]
  rfl

theorem State.reaperEnded_unwinds {B : Nat → Prop} (hp : l.pool? p = some s) (hc : s.closed = true)
    (hB : ∀ j ∈ s.background, B j) {o : Outcome .unit} (ho : o.Gentle) :
    (l.reaperEnded p o).2.Unwinds p B (.done .unit) := by
  obtain ⟨s', N, cs, ha, _⟩ := State.reaperEnded_acts hp hc o
  generalize (l.reaperEnded p o).2 = n at ha ⊢
  cases ha with
  | clears _ hd => exact hd.unwinds hB
  | clearFails he => exact absurd (ho _ rfl) he

theorem Sound.closePool_next (h : Sound p l s) (ha : Attentive p l) (hs : Staffed l s) (ho : s.closed = false)
    (hr : l.running = some ⟨t, .unit, .call (.closePool p), k⟩) (hn : ∀ e, ¬ SweepFailed l s e) :
    (∃ r, s.reaper = some r ∧ (l.closePool p).2 = .pause (.task r) (.reaperEnded p) ∧ ∃ k' signal st,
      (l.closePool p).1.tasks[r]? = some k' ∧ k'.status = .ready signal st ∧
        (k'.cancelRequested = true ∨ signal = some .cancelled)) ∨
      (∀ r, s.reaper = some r → l.isFinished r = true) ∧ (l.closePool p).2.Unwinds p l.Labours (.done .unit) := by
  have hshut : (l.modifyPool p Pool.State.shut).pool? p = some s.shut := ((Changed.unbounded h.pool).modifyPool _).pool
  have hB : ∀ j ∈ s.shut.background, l.Labours j := hs
  cases hreap : s.reaper with
  | none =>
    refine .inr ⟨by simp, ?_⟩
    have hcl : l.closePool p = (l.modifyPool p Pool.State.shut).reaperEnded p (.ok ()) := by
      simp only [State.closePool, h.pool, ho, hreap, Bool.false_eq_true, if_false]
      rfl
    rw [hcl]
    exact State.reaperEnded_unwinds hshut rfl hB fun e he => by cases he
  | some r =>
    by_cases hf : l.isFinished r = true
    · refine .inr ⟨fun r' hr' => Option.some.inj hr' ▸ hf, ?_⟩
      rw [State.closePool_finished h.pool ho hreap hf]
      refine State.reaperEnded_unwinds hshut rfl hB fun e he => ?_
      by_contra hne
      exact hn e ⟨hne, r, hreap, he⟩
    · refine .inl ⟨r, rfl, ?_⟩
      obtain ⟨x, hx, hal⟩ := h.reaper_alone hreap
      have hne : x.status ≠ .running := by
        intro hrun
        obtain ⟨_, r', hr', hrt⟩ := (ha r x hx).at_work hrun
        cases hr.symm.trans hr'
        obtain rfl : t = r := hrt
        have hpos := h.of_on (W := .closing) (w := .call (.closePool p)) hr
        have h0 := (h.reaper t hreap).2.2.2
        have h1 : Weight.closing.work (.call (.closePool p)) = 1 := rfl
        omega
      obtain ⟨k', signal, st, hk', hs', hcan⟩ :=
        State.cancel_comes (l := l.modifyPool p Pool.State.shut) hx hal hne hf
      have hfin : ¬ ((l.modifyPool p Pool.State.shut).cancel r).isFinished r = true := by
        intro hfin
        obtain ⟨_, _, z, hz, hzs⟩ := State.ended_of_isFinished hfin
        cases hk'.symm.trans hz
        cases hs'.symm.trans hzs
      have hshut' : (fun s : Pool.State => { s with closed := true }) = Pool.State.shut := rfl
      simp only [State.closePool, h.pool, ho, hreap, hshut', hfin, Bool.false_eq_true, if_false]
      exact ⟨trivial, _, signal, st, (List.getElem?_modify_eq _ _ _).trans (congrArg _ hk'), hs', hcan⟩

theorem Sound.closing_stack (h : Sound p l s) (hr : l.running = some ⟨t, .unit, .call (.closePool p), k⟩) :
    k = .done .unit := by
  have hf : k.Holds p (.closePool p) := (h.running _ hr).1
  cases hf with
  | done => rfl
  | push ha => cases ha

def State.shutBy (l : State) (p t : Nat) : State := (l.closePool p).1.carryOn t (l.closePool p).2 (.done .unit)

theorem State.shutBy_tasks (l : State) (p t : Nat) : (l.shutBy p t).tasks =
    (l.closePool p).1.tasks.modify t fun x => { x with status := (l.closePool p).2.lays (.done .unit) x.status } :=
  State.carryOn_tasks _ t _ _

theorem Sound.shuts (h : Sound p l s) (hr : l.running = some ⟨t, .unit, .call (.closePool p), .done .unit⟩) :
    ∃ s' cs, Act p t l.tasks.length l.nextConnection s (.call (.closePool p)) s' (l.closePool p).1.nextConnection cs
        (l.closePool p).2 ∧
      Changed p (fun i => s.reaper = some i) (Tells s s') (Follows (.call (.closePool p)) t s s') l (l.closePool p).1 s'
        (l.closePool p).1.nextConnection cs ∧
      Rouses p (fun _ _ => True) (fun i => i ≠ t) (fun _ _ => True) l (l.closePool p).1 := by
  have hr' : l.running = some ((Work.call (.closePool p)).on t (.done .unit)) := hr
  have hk : (Stack.done .unit).Holds p (.closePool p) := .done .closePool
  obtain ⟨s', cs, ha, hc⟩ := h.performs hr' (.call _) hk
  exact ⟨s', cs, ha, hc, h.rouses hr' (.call _) hk⟩

theorem Attentive.shutBy (h : Sound p l s) (ha : Attentive p l)
    (hr : l.running = some ⟨t, .unit, .call (.closePool p), .done .unit⟩) :
    ∃ k, (l.shutBy p t).tasks[t]? = some k ∧ k.cancelRequested = false ∧
      k.status = (l.closePool p).2.lays (.done .unit) .running := by
  obtain ⟨_, _, _, _, hrs⟩ := h.shuts hr
  obtain ⟨_, x, hx, hxs⟩ := h.running _ hr
  obtain ⟨y, hy, hxy⟩ := hrs.old t x hx
  have hys : y.status = .running := hxy.status.running hxs
  refine ⟨{ y with status := (l.closePool p).2.lays (.done .unit) y.status }, ?_,
    (hxy.flag.resolve_right fun hf => hf.1 rfl).trans ((ha t x hx).at_work hxs).1, by rw [hys]⟩
  rw [State.shutBy_tasks, List.getElem?_modify_eq, hy]
  rfl

theorem Sound.shutBy_followers (h : Sound p l s) (ho : s.closed = false)
    (hr : l.running = some ⟨t, .unit, .call (.closePool p), .done .unit⟩) {i : Nat} {k : Task}
    (hk : (l.shutBy p t).tasks[i]? = some k) (hm : .resume t ∈ k.followers) :
    s.reaper = some i ∧ ¬ l.isFinished i = true := by
  obtain ⟨s', cs, _, hch, hrs⟩ := h.shuts hr
  obtain ⟨z, hz, hmz⟩ : ∃ z : Task, (l.closePool p).1.tasks[i]? = some z ∧ .resume t ∈ z.followers := by
    rw [State.shutBy_tasks] at hk
    rcases modify_cases hk with ⟨_, hk⟩ | ⟨rfl, z, hz, rfl⟩
    · exact ⟨k, hk, hm⟩
    · exact ⟨z, hz, hm⟩
  rcases hch.task_cases hz with ⟨x, hx, hnx⟩ | ⟨c, _, _, hmade⟩
  · -- While the pool was open nobody was to be resumed.
    have hopen : .resume t ∉ x.followers := fun hold => by
      have hc := (h.followers i x hx t hold).1
      cases ho.symm.trans hc
    rcases hnx.followers _ hmz with hold | ⟨_, _, hreap⟩
    · exact absurd hold hopen
    · refine ⟨by simpa using hreap, fun hfin => ?_⟩
      obtain ⟨u, o, x₁, hx₁, hend⟩ := State.ended_of_isFinished hfin
      cases hx.symm.trans hx₁
      obtain ⟨z₁, hz₁, hr₁⟩ := hrs.old i x hx
      cases hz.symm.trans hz₁
      obtain ⟨fs, hfs, _, hnil⟩ := hr₁.followers
      rw [hfs, hnil u o hend, List.append_nil] at hmz
      exact hopen hmz
  · exact absurd (hmade.followers _ hmz) (by simp)

theorem Sound.shutBy_alone (h : Sound p l s) (ho : s.closed = false)
    (hr : l.running = some ⟨t, .unit, .call (.closePool p), .done .unit⟩) {i : Nat} (hit : i ≠ t)
    (hi : i < (l.shutBy p t).tasks.length) : Weight.shutting.of (l.shutBy p t) i = 0 := by
  obtain ⟨s', cs, hact, hch, _⟩ := h.shuts hr
  obtain ⟨_, hwi, hwj⟩ := h.work_weight (W := .shutting) (w := .call (.closePool p)) (n := (l.closePool p).2) hr hch
  by_cases hlt : i < l.tasks.length
  · exact (hwi i hlt hit).trans (h.shutting ho i)
  · obtain ⟨j, rfl⟩ := Nat.exists_eq_add_of_le (Nat.le_of_not_lt hlt)
    rw [State.shutBy, State.carryOn_length, hch.length] at hi
    exact hwj j (by omega)

theorem Winding.begins (h : Sound p l s) (ha : Attentive p l) (hs : Staffed l s) (ho : s.closed = false)
    (hf : l.opener.failCloses = []) (hr : l.running = some ⟨t, .unit, .call (.closePool p), .done .unit⟩)
    (hn : ∀ e, ¬ SweepFailed l s e) : Winding p t (l.shutBy p t) := by
  obtain ⟨s', cs, hact, hch, hrs⟩ := h.shuts hr
  obtain ⟨k, hk, hflag, hks⟩ := ha.shutBy h hr
  have faults : (l.shutBy p t).opener.failCloses = [] := by
    have hop : (l.shutBy p t).opener = (l.closePool p).1.opener := by
      unfold State.shutBy
      cases (l.closePool p).2 <;> rfl
    rw [hop]
    exact List.suffix_nil.mp (hf ▸ hrs.faults)
  have hw : l.running = some ((Work.call (.closePool p)).on t (.done .unit)) := hr
  rcases h.closePool_next ha hs ho hr hn with ⟨r, hreap, hp, k', signal, st, hk', hs', hcan⟩ | ⟨hfin, hun⟩
  · rw [hp] at hks
    have hrt : r ≠ t := by
      rintro rfl
      rw [State.shutBy_tasks, List.getElem?_modify_eq, hk'] at hk
      cases hk
      obtain ⟨_, x, hx, hxs⟩ := h.running _ hr
      obtain ⟨y, hy, hxy⟩ := hrs.old r x hx
      cases hk'.symm.trans hy
      cases hs'.symm.trans (hxy.status.running hxs)
    have hceases : (l.shutBy p t).Ceases r := by
      refine ⟨?_, .inl ⟨k', signal, st, ?_, hs', hcan⟩⟩
      · exact ((h.work_weight (W := .closing) hw hch).2.1 r (h.reaper r hreap).1 hrt).trans (h.reaper r hreap).2.2.2
      · rw [State.shutBy_tasks, List.getElem?_modify_ne _ _ (Ne.symm hrt)]
        exact hk'
    refine ⟨⟨k, hk, hflag, hks ▸ .sweeps hceases⟩, fun r hr => ?_, fun i y hy hm => ?_,
      fun i hit hi => h.shutBy_alone ho hr hit hi, faults⟩
    · rw [State.shutBy, hp] at hr
      cases hr
    · cases hreap.symm.trans (h.shutBy_followers ho hr hy hm).1
      exact ⟨k, _, hk, hks⟩
  · obtain ⟨hu, hrun⟩ := hun.carryOn (m := (l.closePool p).1) (t := t) (R := (l.shutBy p t).Ceases)
    have hserves : ∀ j, l.Labours j → (l.shutBy p t).Labours j := fun j hj => by
      refine ⟨?_, Nat.le_zero.mp (hj.2 ▸ ?_)⟩
      · rw [State.shutBy, State.carryOn_length, hch.length]
        exact Nat.lt_add_right _ hj.1
      · exact h.rooted_le hw (.call _) (hact.keeps (.call _)) hch (Weight.lingering_rooted p) hj.1
    refine ⟨⟨k, hk, hflag, hks ▸ hu.mono (fun _ _ _ hi => hi) hserves⟩, fun r hr _ => hrun r hr,
      fun i y hy hm => ?_, fun i hit hi => h.shutBy_alone ho hr hit hi, faults⟩
    obtain ⟨hreap, hnot⟩ := h.shutBy_followers ho hr hy hm
    exact absurd (hfin i hreap) hnot

end Closing

end SqliteAccess.Loop
