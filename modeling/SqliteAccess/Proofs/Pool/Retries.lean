import SqliteAccess.Proofs.Pool.Asleep
import SqliteAccess.Proofs.Pool.Wakeups

/-!
A driver that fails is not asked again and again: whenever a background open fails, fewer callers and
opens are left, though opens may be started anew.
-/

namespace SqliteAccess.Pool.State

variable {s s' s'' : State} {m M T : Nat}

theorem failFirst_waiting (s : State) : s.failFirst.1.waiting = s.waiting - 1 := by
  have ht := nextWaiter_turn s.waiters
  unfold failFirst
  generalize nextWaiter s.waiters = x at ht ⊢
  cases ht with
  | next before w rest hs hb hw =>
    have hb' : before.filter (·.pending) = [] := by simpa using hb
    simp [waiting, hs, hb', hw]
  | nobody hn =>
    have hn' : s.waiters.filter (·.pending) = [] := by simpa using hn
    simp [waiting, hn']

theorem size_freeSlot (s : State) (h : 1 ≤ s.pending) : s.freeSlot.size + 1 = s.size :=
  (Nat.add_assoc _ _ _).trans (congrArg (s.live.length + ·) (Nat.sub_add_cancel h))

def ahead (s : State) : Nat := max s.waiting s.spawned

def Helped (s : State) : Prop := 0 < s.spawned ∨ s.waiting = 0

structure Eases (s s' : State) : Prop where
  ahead : s'.ahead ≤ s.ahead
  helped : s.Helped → s'.Helped

theorem Eases.of (hw : s'.waiting ≤ s.waiting) (hs : s'.spawned = s.spawned) : s.Eases s' := by
  refine ⟨?_, fun h => ?_⟩
  · unfold State.ahead
    omega
  · unfold Helped at *
    omega

theorem Eases.grown (hz : s.settings.Sized m M) : s.Eases (s.expand T (Loop.opens s.growth)) := by
  have hw : ∀ n, (s.expand T n).waiting = s.waiting := fun _ => rfl
  have hs : ∀ n, (s.expand T n).spawned = s.spawned + n := fun _ => rfl
  rw [growth_eq hz]
  refine ⟨?_, fun h => ?_⟩
  · unfold State.ahead
    rw [hw, hs]
    dsimp only [Loop.opens]
    split <;> omega
  · unfold Helped at *
    rw [hw, hs]
    omega

theorem failed (hz : s.settings.Sized m M) (hc : s.closed = false) (hM : s.size < M)
    (hs : 0 < s.spawned) (h : s' = s.endBackground.failFirst.1)
    (h' : s'' = s'.expand T (Loop.opens s'.growth)) : s''.ahead < s.ahead ∧ s''.Helped := by
  have hw' : s'.waiting = s.waiting - 1 := h ▸ s.endBackground.failFirst_waiting
  have hs' : s'.spawned = s.spawned - 1 := by rw [h]; rfl
  have hsize : s'.size = s.size := by rw [h]; rfl
  have hg : s'.growth = .ok (min (s'.waiting - s'.spawned) (M - s'.size)) := by
    rw [growth_eq (by rw [h]; exact hz), show s'.closed = false by rw [h]; exact hc]
    rfl
  have hw'' : s''.waiting = s'.waiting := by rw [h']; rfl
  have hs'' : s''.spawned = s'.spawned + min (s'.waiting - s'.spawned) (M - s'.size) := by
    rw [h', hg]
    rfl
  unfold ahead Helped
  omega

end SqliteAccess.Pool.State

namespace SqliteAccess.Loop

/-- A background open is at its end, with a failure to connect. -/
def State.LosesOpen (l : State) (p : Nat) (e : Failure) : Prop :=
  e.isConnection = true ∧
    ∃ t k, l.running = some ⟨t, .lease, .give (.error e), .push (.openedBackground p) k⟩

def Call.Barren : {s : Shape} → Call s → Prop
  | _, .acquire _ | _, .closePool _ => False
  | _, _ => True

def Frame.Barren : {s t : Shape} → Frame s t → Outcome s → Prop
  | _, _, .opened _, .ok _ => False
  | _, _, .openedBackground _, _ | _, _, .swept _ _, _ => False
  | _, _, _, _ => True

def Running.Barren (r : Running) : Prop :=
  match r.control, r.stack with
  | .call c, _ => c.Barren
  | .give o, .push f _ => f.Barren o
  | .give _, .done _ => True

/-- Runs in which nothing happens to help callers in line, with the number of background opens that
have failed. -/
inductive Failing (p : Nat) (allowed : State → Event → Prop) (l : State) : Nat → State → Prop
  | start : Failing p allowed l 0 l
  | goesOn {n : Nat} {m m' : State} : Failing p allowed l n m → Step p allowed m m' →
      (∀ r, m.running = some r → r.Barren) → Failing p allowed l n m'
  | fails {n : Nat} {m m' : State} (e : Failure) : Failing p allowed l n m → m.LosesOpen p e →
      m.step? = some m' → Failing p allowed l (n + 1) m'

section Acts

variable {p t T N N' m M : Nat} {s s' : Pool.State} {u : Shape} {w : Work u} {cs : List (Call .unit)}
  {n : Next u} {k : Stack u}

theorem Act.barren (h : Act p t T N s w s' N' cs n) (hz : s.settings.Sized m M)
    (hb : (w.on t k).Barren) : s'.closed = s.closed ∧ s.Eases s' := by
  cases h
  case takes | opens | lines | shuts | shutsAtOnce | shutFails | shutBefore => exact hb.elim
  case openDone | openSpoilt | backgroundFailed | backgroundCut | backgroundLate | backgroundDone =>
    exact hb.elim
  case sweptCut | sweptOver | sweptFails => exact hb.elim
  case openFailed => exact ⟨rfl, .grown hz⟩
  case destroyed => exact ⟨rfl, .grown hz⟩
  case leaves => exact ⟨rfl, .of ((s.takeUp t).leaveLine_waiting_le t) rfl⟩
  case passesOn id e now _ =>
    have hk := ((s.takeUp t).leaveLine t).checkin_spec id now
    have hw := (s.takeUp t).leaveLine_waiting_le t
    refine ⟨?_, .of ?_ hk.counts.2⟩
    · generalize (((s.takeUp t).leaveLine t).checkin id now).1 = s' at hk
      cases hk <;> rfl
    · rw [hk.waiting]
      exact (Nat.sub_le _ _).trans hw
  case removes hr =>
    rw [(Pool.State.remove?_eq hr).2]
    exact ⟨rfl, .of (Nat.le_refl _) rfl⟩
  case clears => exact ⟨rfl, .of (Nat.zero_le _) rfl⟩
  all_goals exact ⟨rfl, .of (Nat.le_refl _) rfl⟩

theorem Act.loses {n : Next .unit} {e : Failure} (he : e.isConnection = true)
    (h : Act p t T N s (.back (.openedBackground p) (.error e)) s' N' cs n) :
    s' = s.endBackground.failFirst.1.expand T (Loop.opens s.endBackground.failFirst.1.growth) := by
  cases h with
  | backgroundFailed _ h₁ => rw [h₁]
  | backgroundCut hne => cases he.symm.trans hne

end Acts

section Moves

variable {p m M : Nat} {X Y : Prop} {v : Option Event} {l l' : State} {s s' : Pool.State} {e : Failure}

theorem Move.eases (hm : Move p X Y v l l' s s') (hz : s.settings.Sized m M)
    (hb : ∀ r, l.running = some r → r.Barren) : s'.closed = s.closed ∧ s.Eases s' := by
  cases hm with
  | work hr _ _ ha => exact ha.barren hz (hb _ hr)
  | aside _ _ ha => exact ⟨ha.constant.2.2.2, .of ha.waiting_le ha.counts.2.1⟩

theorem Act.room {t T N N' : Nat} {u : Shape} {w : Work u} {d : Call u} {k : Stack u}
    {cs : List (Call .unit)} {n : Next u} (h : Act p t T N s w s' N' cs n) (hd : w.Of p d)
    (hk : k.Holds p d) (hp : Weight.slots.work w ≤ s.pending) (hM : s.size ≤ M)
    (hn : n = .give (.error e)) (ho : k.Opens) : s'.size < M := by
  have slot : ∀ {w : Work .lease} {n : Next .lease}, w.Of p (.openSlot p) →
      Act p t T N s w s' N' cs n → Weight.slots.work w ≤ s.pending → n = .give (.error e) →
      s'.size < M := by
    intro w n hd h hp hn
    cases hd with
    | call =>
      cases h
      cases hn
    | back o hf =>
      cases hf with
      | start hr => cases hr
      | registering =>
        cases h with
        | registers => cases hn
        | frees e' =>
          have := s.size_freeSlot hp
          omega
  cases hk with
  | done => exact ho.elim
  | push ha _ _ =>
    cases ha with
    | opened | openedBackground => exact slot hd h hp hn
    | registering | destroyed | evicting | swept | draining => exact ho.elim

theorem Move.room (h : Sound p l s) (hc : Counted m M l s) (hm : Move p X Y v l l' s s') {r : Running}
    (hr : l'.running = some r) (hrep : r.Repairs) : s'.size < M := by
  obtain ⟨ho, e, he⟩ := hrep
  cases hm with
  | @work _ w _ t k n _ _ hr' hd hk ha _ heq =>
    subst heq
    have hp := Weight.work_le_total (W := .slots) h hr'
    rw [← hc.pending] at hp
    cases n with
    | give o =>
      cases hr
      exact ha.room hd hk hp hc.size (congrArg _ (Control.give.inj he)) ho
    | call | jump =>
      cases hr
      cases he
    | pause | again => cases hr
  | aside _ _ ha =>
    cases ha with
    | ends _ _ hc' => cases hc'.running.symm.trans hr
    | @goesOn t signal st x _ hk hs hr' =>
      cases hr'.symm.trans hr
      have hf := h.tasks t x hk
      rw [hs] at hf
      cases hf with
      | made => exact ho.elim
      | ready _ hp => cases hp <;> exact ho.elim
    | lull hn _ hc' => cases hn.symm.trans (hc'.running.symm.trans hr)
    | enters _ _ hr' =>
      cases hr'.symm.trans hr
      cases he
    | spawns _ _ hr' => cases hr'.symm.trans hr
    | releases _ hn _ _ hc' | discards hn _ _ hc' => cases hn.symm.trans (hc'.running.symm.trans hr)

end Moves

/-- No open in the background is cancelled from outside. -/
def LeavesOpens (l : State) : Event → Prop
  | .cancel t => Weight.background.of l t = 0
  | _ => True

theorem LeavesOpens.spares {p : Nat} {l : State} {s : Pool.State} (hs : Sound p l s) {e : Event}
    (h : LeavesOpens l e) : e.Spares (s.closed = true) True l := by
  cases e with
  | cancel t =>
    cases hc : s.closed with
    | true => exact .inl rfl
    | false => exact .inr ⟨h, hs.shutting hc t⟩
  | answerOpen => exact fun _ => .inr trivial
  | enter | spawn | release | answerClose | driver | tick => trivial

structure Poised (p m M : Nat) (l : State) (s : Pool.State) : Prop where
  counted : Counted m M l s
  calm : Calm l
  lined : Lined p l s
  asleep : Asleep p l s
  room : ∀ r, l.running = some r → r.Repairs → s.size < M

/-- The failure is told to the longest waiting caller, if there is one, who leaves the line, and nobody
else learns of it. Only where no time to wait can be read from the settings the caller may be gone. -/
def Spreads (p : Nat) (e : Failure) (l l' : State) (s s' : Pool.State) : Prop :=
  ∃ first, Pool.nextWaiter s.waiters = (s'.waiters, first) ∧
    (∀ i < l.tasks.length, first ≠ some i → l'.tasks[i]? = l.tasks[i]?) ∧
    ∀ i, first = some i →
      (∃ e', Config.optionalSeconds s.settings.acquireTimeoutMs = .error e') ∨
        ∃ k timer, l.tasks[i]? = some k ∧
          k.status = .paused (.turn p timer) (.push (.inLine p) (.done .lease)) ∧
          l'.tasks[i]? = some { k with status := .ready (some e) (.push (.inLine p) (.done .lease)) }

section Failures

variable {p m M n : Nat} {X Y : Prop} {v : Option Event} {l l' : State} {s s' : Pool.State}
  {e : Failure}

theorem Poised.step (h : Sound p l s) (hp : Poised p m M l s) (hst : Step p LeavesOpens l l')
    (hm : Move p (s.closed = true) True v l l' s s') (hopen : s'.closed = false) :
    Poised p m M l' s' :=
  ⟨hp.counted.move h hp.calm hm, hp.calm.move h (by simp [hm.was_open hopen]) hm, hp.lined.move h hm,
    hp.asleep.step h hp.lined hp.counted.sized hst hm (hm.sound h) hopen,
    fun _ => hm.room h hp.counted⟩

theorem Move.loses (h : Sound p l s) (hl : l.LosesOpen p e) (hm : Move p X Y v l l' s s') :
    1 ≤ Weight.background.total l ∧
      ∃ T, s' = s.endBackground.failFirst.1.expand T (opens s.endBackground.failFirst.1.growth) := by
  obtain ⟨he, t, k, hr⟩ := hl
  cases hm with
  | @work _ w _ _ _ _ _ _ hr' _ _ ha =>
    have hb := Weight.work_le_total (W := .background) h hr'
    cases w with
    | call c => cases hr.symm.trans hr'
    | back f o =>
      cases hr.symm.trans hr'
      exact ⟨hb, _, ha.loses he⟩
  | aside _ _ ha =>
    cases ha with
    | ends _ hr' => cases hr.symm.trans hr'
    | goesOn hn | lull hn | enters _ hn | spawns _ hn | releases _ hn | discards hn =>
      cases hn.symm.trans hr

theorem Poised.fails (h : Sound p l s) (hp : Poised p m M l s) (hopen : s.closed = false)
    (hl : l.LosesOpen p e) (hm : Move p X Y v l l' s s') :
    s'.closed = false ∧ s'.ahead < s.ahead ∧ s'.Helped := by
  obtain ⟨hb, T, hs'⟩ := hm.loses h hl
  rw [← hp.counted.spawned] at hb
  obtain ⟨he, t, k, hr⟩ := hl
  have hM : s.size < M := hp.room _ hr ⟨trivial, e, rfl⟩
  exact ⟨by rw [hs']; exact hopen, Pool.State.failed hp.counted.sized hopen hM hb rfl hs'⟩

theorem Sound.dozing {i : Nat} (h : Sound p l s) (hd : l.Dozes p i) :
    ∃ k timer, l.tasks[i]? = some k ∧
      k.status = .paused (.turn p timer) (.push (.inLine p) (.done .lease)) := by
  obtain ⟨k, timer, st, hk, hs⟩ := hd
  have hf := h.tasks i k hk
  rw [hs] at hf
  cases hf with
  | paused hpause hst =>
    cases hpause
    cases hst with
    | push hrest hst =>
      cases hrest
      cases hst with
      | done => exact ⟨k, timer, hk, hs⟩
      | push ha => cases ha

theorem State.LosesOpen.step (hl : l.LosesOpen p e) (hp : l.pool? p = some s)
    (hst : l.step? = some l') : ∃ m : State, m.tasks = l.tasks ∧ m.pool? p = some s.endBackground ∧
      ∀ i < l.tasks.length, l'.tasks[i]? = (m.failLongestWaiting p e).tasks[i]? := by
  obtain ⟨he, t, k, hr⟩ := hl
  have hm := ((Changed.unbounded hp).modifyPool Pool.State.endBackground).report
    (State.poolRecord Log.warning ("Background connection creation failed: " ++ e.text))
  refine ⟨State.report (l.modifyPool p _) _, State.report_tasks _ _, hm.pool, fun i hi => ?_⟩
  have hlen := (hm.failLongestWaiting (e := e) fun _ _ => trivial).length
  obtain ⟨o, ho⟩ := State.growThen_gives _ p (Except.ok () : Outcome .unit)
  have advanced : ∀ x : State × Next .unit, l.openedBackground p (.error e) = x → x.2 = .give o →
      l'.tasks = x.1.tasks := by
    rintro ⟨m, n⟩ hx rfl
    rw [State.step?, hr] at hst
    rw [← Option.some.inj hst]
    simp [State.advance, resume, hx, State.carryOn]
  rw [advanced _ (by rw [State.openedBackground, if_pos he]) ho]
  exact State.growThen_tasks _ p _ (by rw [hlen]; exact Nat.lt_add_right _ hi)

theorem Poised.spreads (h : Sound p l s) (hp : Poised p m M l s) (hl : l.LosesOpen p e)
    (hst : l.step? = some l') (hm : Move p X Y v l l' s s') : Spreads p e l l' s s' := by
  obtain ⟨m, ht, hs, htasks⟩ := hl.step h.pool hst
  obtain ⟨_, T, hs'⟩ := hm.loses h hl
  have hfirst : Pool.nextWaiter s.waiters = (s'.waiters, s.failFirst.2) := by rw [hs']; rfl
  refine ⟨s.failFirst.2, hfirst, fun i hi hne => ?_, fun i hi => ?_⟩
  · rw [htasks i hi, ← ht]
    exact State.failLongestWaiting_tasks_ne hs hne e
  · by_cases hread : ∃ e', Config.optionalSeconds s.settings.acquireTimeoutMs = .error e'
    · exact .inl hread
    · have hturn := Pool.nextWaiter_turn s.waiters
      rw [hfirst, hi] at hturn
      have haw : s.Awaits i := by
        generalize s'.waiters = ws at hturn
        cases hturn with
        | next before w rest hw _ hpend => exact ⟨w, by simp [hw], rfl, hpend⟩
      obtain ⟨k, timer, hk, hk'⟩ := h.dozing (hp.asleep (fun e he => hread ⟨e, he⟩) i haw)
      refine .inr ⟨k, timer, hk, hk', ?_⟩
      rw [htasks i (List.getElem?_eq_some_iff.mp hk).1]
      exact State.failLongestWaiting_tasks_self hs hi (ht ▸ hk) hk' e

structure Withers (p m M : Nat) (s₀ : Pool.State) (n : Nat) (l : State) (s : Pool.State) : Prop where
  sound : Sound p l s
  poised : Poised p m M l s
  stillOpen : s.closed = false
  ahead : n + s.ahead ≤ s₀.ahead
  helped : s₀.Helped → s.Helped

theorem Failing.withers {s₀ : Pool.State} {l₀ : State} (h : Sound p l₀ s₀) (hp : Poised p m M l₀ s₀)
    (hopen : s₀.closed = false) (hf : Failing p LeavesOpens l₀ n l) :
    ∃ s, Withers p m M s₀ n l s := by
  induction hf with
  | start => exact ⟨s₀, h, hp, hopen, by omega, id⟩
  | goesOn _ hst hb ih =>
    obtain ⟨s, hw⟩ := ih
    obtain ⟨v, s', hm⟩ := hst.move (X := s.closed = true) (Y := True) hw.sound .inl
      fun e he => he.spares hw.sound
    obtain ⟨hcl, he⟩ := hm.eases hw.poised.counted.sized hb
    have hopen' := hcl.trans hw.stillOpen
    exact ⟨s', hm.sound hw.sound, hw.poised.step hw.sound hst hm hopen', hopen',
      (Nat.add_le_add_left he.ahead _).trans hw.ahead, fun h => he.helped (hw.helped h)⟩
  | fails e _ hl hst ih =>
    obtain ⟨s, hw⟩ := ih
    obtain ⟨s', hm⟩ := State.step_move (X := s.closed = true) (Y := True) hw.sound hst
    obtain ⟨hopen', hlt, hh⟩ := hw.poised.fails hw.sound hw.stillOpen hl hm
    have ha := hw.ahead
    exact ⟨s', hm.sound hw.sound, hw.poised.step hw.sound (.loop hst) hm hopen', hopen', by omega,
      fun _ => hh⟩

end Failures

theorem Poised.ofPool {settings : Config.PoolSettings} {m M : Nat} (hz : settings.Sized m M) :
    Poised Session.Pooling.number m M (.ofPool settings) (Pool.fresh settings) :=
  ⟨.ofPool hz, .ofPool settings, .ofPool settings, fun _ _ ⟨_, hw, _⟩ => (nomatch hw),
    fun _ hr => (nomatch hr)⟩

/-- A driver that keeps failing is asked no more than once for each caller in line, or for each open
that was on its way if those were more: with each failure, fewer are left. A failure is told to the
longest waiting caller alone, and once no open is on its way any more nobody is left waiting. -/
theorem failures_run_out {settings : Config.PoolSettings} {m M : Nat} {l : State}
    (hz : settings.Sized m M) (h : Reachable settings LeavesOpens l) :
    ∃ s, l.pool? Session.Pooling.number = some s ∧
      (s.closed = false → s.spawned = Weight.background.total l ∧
        ∀ n l', Failing Session.Pooling.number LeavesOpens l n l' →
          ∃ s', l'.pool? Session.Pooling.number = some s' ∧
            s'.spawned = Weight.background.total l' ∧
            n + max s'.waiting s'.spawned ≤ max s.waiting s.spawned ∧
            (0 < s.spawned → s'.spawned = 0 → s'.waiting = 0) ∧
            ∀ e l'', l'.LosesOpen Session.Pooling.number e → l'.step? = some l'' →
              ∃ s'', l''.pool? Session.Pooling.number = some s'' ∧
                max s''.waiting s''.spawned < max s'.waiting s'.spawned ∧
                Spreads Session.Pooling.number e l' l'' s' s'') := by
  obtain ⟨s, hs, hp⟩ := Reachable.induction
    (I := fun l s => s.closed = false → Poised Session.Pooling.number m M l s) (fun _ => .ofPool hz) (by
    intro l l' s hs hp hst
    obtain ⟨v, s', hm⟩ := hst.move (X := s.closed = true) (Y := True) hs .inl fun e he => he.spares hs
    exact ⟨s', hm.sound hs, fun hopen => (hp (hm.was_open hopen)).step hs hst hm hopen⟩) h
  refine ⟨s, hs.pool, fun hopen => ⟨(hp hopen).counted.spawned, fun n l' hf => ?_⟩⟩
  obtain ⟨s', hw⟩ := hf.withers hs (hp hopen) hopen
  refine ⟨s', hw.sound.pool, hw.poised.counted.spawned, hw.ahead, fun hpos hzero => ?_,
    fun e l'' hl hst => ?_⟩
  · exact (hw.helped (.inl hpos)).resolve_left (by omega)
  · obtain ⟨s'', hm⟩ := State.step_move (X := True) (Y := True) hw.sound hst
    exact ⟨s'', (hm.sound hw.sound).pool, (hw.poised.fails hw.sound hw.stillOpen hl hm).2.1,
      hw.poised.spreads hw.sound hl hst hm⟩

def outage : Failure := .raised ⟨"RuntimeError", "out of handles"⟩

def opensAgain : State := (thirdWaits.after (.answerOpen 0 (some outage))).settleWithin 13

def failsAgain (k : Nat) : State := (opensAgain.after (.answerOpen 4 (some outage))).settleWithin k

theorem opensAgain_failing : Failing Session.Pooling.number LeavesOpens opensAgain 0 (failsAgain 3) := by
  have goesOn : ∀ k, Failing Session.Pooling.number LeavesOpens opensAgain 0 (failsAgain k) →
      (failsAgain k).step? = some (failsAgain (k + 1)) →
      (∀ r, (failsAgain k).running = some r → r.Barren) →
      Failing Session.Pooling.number LeavesOpens opensAgain 0 (failsAgain (k + 1)) :=
    fun _ h hst hb => h.goesOn (.loop hst) hb
  have h₀ : Failing Session.Pooling.number LeavesOpens opensAgain 0 (failsAgain 0) :=
    Failing.start.goesOn (.event (.answerOpen 4 (some outage)) rfl trivial trivial) fun r hr => nomatch hr
  have h₁ := goesOn 0 h₀ rfl fun r hr => nomatch hr
  have h₂ := goesOn 1 h₁ rfl fun r hr => by cases hr; trivial
  exact goesOn 2 h₂ rfl fun r hr => by cases hr; trivial

theorem failures_run_out_opensAgain : tight.Sized 0 1 ∧ Reachable tight LeavesOpens opensAgain ∧
    ∃ s s' s'', opensAgain.pool? Session.Pooling.number = some s ∧ s.closed = false ∧
      s.waiting = 2 ∧ s.spawned = 1 ∧ s.spawned = Weight.background.total opensAgain ∧
      (failsAgain 3).pool? Session.Pooling.number = some s' ∧
      (failsAgain 4).pool? Session.Pooling.number = some s'' ∧
      Failing Session.Pooling.number LeavesOpens opensAgain 1 (failsAgain 4) ∧
      1 + max s''.waiting s''.spawned ≤ max s.waiting s.spawned ∧
      Spreads Session.Pooling.number (State.creationFailure outage) (failsAgain 3) (failsAgain 4) s' s'' := by
  have h : Reachable tight LeavesOpens opensAgain :=
    ((thirdWaits_reachable (fun _ _ => trivial) fun _ => trivial).after
      (e := .answerOpen 0 (some outage)) rfl trivial trivial).settleWithin 13
  have hw : (opensAgain.pool? Session.Pooling.number).map (fun s => (s.closed, s.waiting, s.spawned)) =
      some (false, 2, 1) := rfl
  have hl : (failsAgain 3).LosesOpen Session.Pooling.number (State.creationFailure outage) :=
    ⟨rfl, 4, .done .unit, rfl⟩
  have hst : (failsAgain 3).step? = some (failsAgain 4) := rfl
  obtain ⟨s, hs, hrun⟩ := failures_run_out tight_sized h
  rw [hs, Option.map_some, Option.some.injEq, Prod.mk.injEq, Prod.mk.injEq] at hw
  obtain ⟨hopen, hwait, hspawn⟩ := hw
  obtain ⟨hcount, hfail⟩ := hrun hopen
  obtain ⟨s', hs', _, _, _, hlast⟩ := hfail 0 _ opensAgain_failing
  obtain ⟨s'', hs'', _, hspread⟩ := hlast _ _ hl hst
  obtain ⟨s₁, hs₁, _, hbound, _⟩ := hfail 1 _ (opensAgain_failing.fails _ hl hst)
  cases hs''.symm.trans hs₁
  exact ⟨tight_sized, h, s, s', s'', hs, hopen, hwait, hspawn, hcount, hs', hs'',
    opensAgain_failing.fails _ hl hst, hbound, hspread⟩

end SqliteAccess.Loop
