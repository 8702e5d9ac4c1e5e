import SqliteAccess.Proofs.Pool.Roused
import SqliteAccess.Proofs.Pool.Staff

/-!
No task is forgotten. Whoever can go on has its next step in the queue, and whoever waits for something in the loop
is known to what it waits for.
-/

namespace SqliteAccess.Loop

def State.following (l : State) (r : Nat) (f : Follower) : Nat :=
  ((l.tasks[r]?).map fun k => k.followers.count f).getD 0

def State.dues (l : State) (t j : Nat) : Nat := l.ready.count (.count t j) + l.following j (.count t)

def Wait.Attended (p : Nat) (l : State) (t : Nat) : Wait → Prop
  | .turn q _ => q = p → l.Awaits p t
  | .givenUp _ => .notice t ∈ l.ready
  | .task r => 0 < l.following r (.resume t)
  | .tasks ts _ => ts ≠ [] ∧ ∀ j, ts.count j ≤ l.dues t j
  | _ => True

def Task.Attended (p : Nat) (l : State) (t : Nat) (k : Task) : Prop :=
  match k.status with
  | .ready _ _ => .step t ∈ l.ready
  | .paused w _ => w.Attended p l t
  | .running => k.cancelRequested = false ∧ ∃ r, l.running = some r ∧ r.task = t
  | .finished _ _ => k.followers = []

namespace Task.Attended

variable {p t : Nat} {l : State} {k : Task} {st : Stack .unit}

theorem waits {w : Wait} (h : k.Attended p l t) (hs : k.status = .paused w st) : w.Attended p l t := by
  rwa [Task.Attended, hs] at h

theorem at_work (h : k.Attended p l t) (hs : k.status = .running) :
    k.cancelRequested = false ∧ ∃ r, l.running = some r ∧ r.task = t := by
  rwa [Task.Attended, hs] at h

theorem unfollowed {u : Shape} {o : Outcome u} (h : k.Attended p l t) (hs : k.status = .finished u o) :
    k.followers = [] := by
  rwa [Task.Attended, hs] at h

end Task.Attended

def Attentive (p : Nat) (l : State) : Prop := ∀ (i : Nat) (k : Task), l.tasks[i]? = some k → k.Attended p l i

inductive Wait.Minds (t : Nat) : Wait → Job → Prop
  | notice (p : Nat) : Wait.Minds t (.givenUp p) (.notice t)
  | count (ts : List Nat) (b : Bool) (ended : Nat) : Wait.Minds t (.tasks ts b) (.count t ended)

inductive Task.Minds (t : Nat) (k : Task) : Job → Prop
  | step {signal : Option Failure} {st : Stack .unit} : k.status = .ready signal st → Task.Minds t k (.step t)
  | wait {w : Wait} {st : Stack .unit} {j : Job} : k.status = .paused w st → w.Minds t j → Task.Minds t k j

section Attending

variable {p t : Nat} {A : Nat → Option Failure → Prop} {C : Nat → Prop} {E : Nat → Follower → Prop}
  {l l' m : State} {s : Pool.State} {k k' : Task} {w : Wait}

theorem mem_of_count_le {j : Job} {ready ready' : List Job} (h : ready.count j ≤ ready'.count j) (hj : j ∈ ready) :
    j ∈ ready' :=
  List.count_pos_iff.mp (Nat.lt_of_lt_of_le (List.count_pos_iff.mpr hj) h)

theorem Wait.Attended.mono (h : w.Attended p l t) (hq : ∀ j, w.Minds t j → l.ready.count j ≤ l'.ready.count j)
    (hf : ∀ r f, l.following r f ≤ l'.following r f)
    (hl : ∀ timer, w = .turn p timer → l.Awaits p t → l'.Awaits p t) : w.Attended p l' t := by
  cases w with
  | turn q timer =>
    rintro rfl
    exact hl timer rfl (h rfl)
  | givenUp q => exact mem_of_count_le (hq _ (.notice q)) h
  | task r => exact Nat.lt_of_lt_of_le h (hf r _)
  | tasks ts b => exact ⟨h.1, fun j => (h.2 j).trans (Nat.add_le_add (hq _ (.count ts b j)) (hf j _))⟩
  | opening | closing | held | sleep | lock => trivial

theorem Task.Attended.mono (h : k.Attended p l t) (hq : ∀ j, k.Minds t j → l.ready.count j ≤ l'.ready.count j)
    (hf : ∀ r f, l.following r f ≤ l'.following r f)
    (hl : ∀ timer st, k.status = .paused (.turn p timer) st → l.Awaits p t → l'.Awaits p t)
    (hr : k.status = .running → l'.running = l.running) : k.Attended p l' t := by
  obtain ⟨status, context, flag, followers⟩ := k
  cases status with
  | ready => exact mem_of_count_le (hq _ (.step rfl)) h
  | paused w st =>
    exact Wait.Attended.mono h (fun j hj => hq j (.wait rfl hj)) hf fun timer hw => hl timer st (hw ▸ rfl)
  | running =>
    obtain ⟨hflag, r, hr', ht⟩ := h
    exact ⟨hflag, r, (hr rfl).trans hr', ht⟩
  | finished => exact h

theorem Rouses.following_le (h : Rouses p A C E l l') (r : Nat) (f : Follower) :
    l.following r f ≤ l'.following r f := by
  unfold State.following
  cases hk : l.tasks[r]? with
  | none => exact Nat.zero_le _
  | some k =>
    obtain ⟨k', hk', hr⟩ := h.old r k hk
    obtain ⟨fs, hfs, _⟩ := hr.followers
    simp [hk', hfs, List.count_append]

theorem State.following_congr (ht : l'.tasks = l.tasks) (r : Nat) (f : Follower) :
    l'.following r f = l.following r f := by
  rw [State.following, State.following, ht]

theorem State.following_modify {g : Task → Task} (hg : ∀ k, (g k).followers = k.followers) (r : Nat) (f : Follower) :
    (l.modifyTask t g).following r f = l.following r f := by
  unfold State.following State.modifyTask
  by_cases hr : t = r
  · subst hr
    cases hk : l.tasks[t]? <;> simp [hk, hg]
  · rw [List.getElem?_modify_ne _ _ hr]

theorem Task.Attended.of_roused {A' : Option Failure → Prop} {C' : Prop} {E' : Follower → Prop}
    (ha : k.Attended p l t) (hr : k.Roused A' C' (.step t ∈ l'.ready) E' k') (hq : l.ready ⊆ l'.ready)
    (hC : k.status = .running → ¬ C' ∧ l'.running = l.running)
    (hw : ∀ w st, k'.status = .paused w st → w.Attended p l' t) : k'.Attended p l' t := by
  have hst := hr.status
  obtain ⟨status, context, flag, followers⟩ := k
  obtain ⟨status', context', flag', followers'⟩ := k'
  cases hst with
  | same =>
    cases status with
    | ready => exact hq ha
    | paused w st => exact hw w st rfl
    | running =>
      obtain ⟨hflag, r, hr', ht⟩ := ha
      obtain ⟨hc, hrun⟩ := hC rfl
      exact ⟨(hr.flag.resolve_right fun h => hc h.1).trans hflag, r, hrun.trans hr', ht⟩
    | finished u o =>
      obtain ⟨fs, hfs, _, hend⟩ := hr.followers
      rw [hend u o rfl, List.append_nil] at hfs
      exact hfs.trans ha
  | woken w signal st _ hj => exact hj
  | cut ts b st => exact hw _ st rfl

theorem Task.Attended.roused (ha : k.Attended p l t) (h : Rouses p A C E l l')
    (hC : ∀ r, l.running = some r → r.task = t → ¬ C t)
    (hr : k.Roused (A t) (C t) (.step t ∈ l'.ready) (E t) k') (hk : l.tasks[t]? = some k)
    (hk' : l'.tasks[t]? = some k') : k'.Attended p l' t := by
  refine ha.of_roused hr h.ready.subset (fun hs => ⟨?_, h.running⟩) fun w st hs' => ?_
  · obtain ⟨_, r, hr', ht⟩ := ha.at_work hs
    exact hC r hr' ht
  · have kept : w.Attended p l t → w.Attended p l' t := fun hw =>
      hw.mono (fun j _ => h.ready.sublist.count_le j) h.following_le fun timer hw' =>
        h.line t ⟨k', timer, st, hk', hw' ▸ hs'⟩
    obtain ⟨k₁, hk₁, hs | ⟨ts, b, rfl, hs⟩⟩ := h.paused hk' hs'
    all_goals
      cases hk.symm.trans hk₁
      have hwaits := ha.waits hs
      exact kept hwaits

theorem Attentive.rouses (ha : Attentive p l) (h : Rouses p A C E l l')
    (hC : ∀ r, l.running = some r → ¬ C r.task) : Attentive p l' := by
  intro i k' hk'
  by_cases hlt : i < l.tasks.length
  · have hk := List.getElem?_eq_getElem hlt
    obtain ⟨k₁, hk₁, hr⟩ := h.old i _ hk
    cases hk'.symm.trans hk₁
    exact (ha i _ hk).roused h (fun r hr' ht => ht ▸ hC r hr') hr hk hk'
  · obtain ⟨⟨signal, st, hs⟩, hj, _⟩ := h.new i k' hk' (Nat.le_of_not_lt hlt)
    rw [Task.Attended, hs]
    exact hj

theorem State.Awaits.of_pools (h : l.Awaits p t) (hp : l'.pools = l.pools) : l'.Awaits p t := by
  rwa [State.Awaits, State.pool?, hp]

theorem Attentive.carryOn {u : Shape} {n : Next u} {st : Stack u} {r : Running} (ha : Attentive p m)
    (hr : m.running = some r) (hrt : r.task = t) (hk : m.tasks[t]? = some k) (hs : k.status = .running)
    (hn : ∀ w f, n = .pause w f → w.Attended p m t) : Attentive p (m.carryOn t n st) := by
  have hq : m.ready <+: (m.carryOn t n st).ready := by
    cases n with
    | again => exact List.prefix_append _ _
    | give | call | jump | pause => exact List.prefix_refl _
  have hp : (m.carryOn t n st).pools = m.pools := by cases n <;> rfl
  have hf : ∀ r f, (m.carryOn t n st).following r f = m.following r f := fun r f =>
    (State.following_congr (m.carryOn_tasks t n st) r f).trans (State.following_modify (fun _ => by rfl) r f)
  intro i x hx
  rw [State.carryOn_tasks] at hx
  rcases modify_cases hx with ⟨hi, hx⟩ | ⟨rfl, y, hy, rfl⟩
  · refine (ha i x hx).mono (fun j _ => hq.sublist.count_le j) (fun r f => (hf r f).ge) (fun _ _ _ h => h.of_pools hp)
      fun hx' => ?_
    obtain ⟨_, r', hr', ht⟩ := (ha i x hx).at_work hx'
    cases hr.symm.trans hr'
    exact absurd (ht.symm.trans hrt) hi
  · cases hk.symm.trans hy
    cases n with
    | give | call | jump =>
      have ht := ha _ k hk
      simp only [Task.Attended, Next.lays, hs] at ht ⊢
      exact ⟨ht.1, _, rfl, rfl⟩
    | pause w f =>
      exact Wait.Attended.mono (hn w f rfl) (fun j _ => hq.sublist.count_le j) (fun r f => (hf r f).ge)
        fun _ _ h => h.of_pools hp
    | again f => exact List.mem_append_right _ (List.mem_singleton_self _)

theorem State.dues_enqueue (l : State) (t r j : Nat) :
    (l.enqueue (.count t r)).dues t j = l.dues t j + if r = j then 1 else 0 := by
  simp only [State.dues, State.enqueue, List.count_append, List.count_singleton, State.following]
  by_cases hr : r = j
  · simp [hr]
    omega
  · simp [hr]

theorem State.dues_follow {r : Nat} (hr : r < l.tasks.length) (t j : Nat) :
    (l.modifyTask r fun k => { k with followers := k.followers ++ [.count t] }).dues t j =
      l.dues t j + if r = j then 1 else 0 := by
  simp only [State.dues, State.modifyTask, State.following]
  by_cases hrj : r = j
  · subst hrj
    simp [List.getElem?_eq_getElem hr]
    omega
  · simp [hrj]

theorem State.awaitTasks_dues {ts : List Nat} (hts : ∀ j ∈ ts, j < l.tasks.length) (f : Frame .unit .unit) (j : Nat) :
    l.dues l.currentTask j + ts.count j ≤ (l.awaitTasks ts f).1.dues l.currentTask j := by
  unfold State.awaitTasks
  dsimp only
  generalize l.currentTask = t
  induction ts generalizing l with
  | nil => exact Nat.le_refl _
  | cons r ts ih =>
    rw [List.forall_mem_cons] at hts
    rw [List.foldl_cons]
    have hcount : (r :: ts).count j = ts.count j + if r = j then 1 else 0 := by simp [List.count_cons]
    rw [hcount]
    by_cases hf : l.isFinished r = true
    · rw [if_pos hf]
      refine le_trans ?_ (ih hts.2)
      rw [State.dues_enqueue]
      omega
    · rw [if_neg hf]
      refine le_trans ?_ (ih (by simpa [State.modifyTask] using hts.2))
      rw [State.dues_follow hts.1]
      omega

theorem State.drainFrom_attends (hp : l.pool? p = some s) (hs : ∀ j ∈ s.background, j < l.tasks.length)
    (ids : List Nat) {f : Frame .unit .unit} (hn : (l.drainFrom p ids).2 = .pause w f) :
    w.Attended p (l.drainFrom p ids).1 l.currentTask := by
  cases ids with
  | cons id ids => cases hn
  | nil =>
    simp only [State.drainFrom, hp] at hn ⊢
    split
    next hb =>
      rw [if_pos hb] at hn
      cases hn
    next hb =>
      rw [if_neg hb] at hn
      obtain rfl : Wait.tasks s.background false = w := by
        injection hn
      refine ⟨fun he => hb (by simp [he]), fun j => ?_⟩
      have hle := State.awaitTasks_dues hs (.backgroundEnded p) j
      omega

theorem State.clearLine_attends (hp : l.pool? p = some s) (hs : ∀ j ∈ s.background, j < l.tasks.length)
    {f : Frame .unit .unit} (hn : (l.clearLine p).2 = .pause w f) :
    w.Attended p (l.clearLine p).1 l.currentTask := by
  have hc := ((Changed.unbounded hp).setPool s.cleared).wakeAll ((s.waiters.filter (·.pending)).map (·.task))
    fun _ _ e (_ : some .poolClosed = some e) => trivial
  simp only [State.clearLine, hp] at hn ⊢
  rw [← hc.currentTask]
  refine State.drainFrom_attends hc.pool (fun j hj => ?_) s.idle hn
  rw [hc.length]
  exact Nat.lt_add_right _ (hs j hj)

theorem State.reaperEnded_attends (hp : l.pool? p = some s) (hs : ∀ j ∈ s.background, j < l.tasks.length)
    (o : Outcome .unit) {f : Frame .unit .unit} (hn : (l.reaperEnded p o).2 = .pause w f) :
    w.Attended p (l.reaperEnded p o).1 l.currentTask := by
  unfold State.reaperEnded at hn ⊢
  split at hn
  · exact State.clearLine_attends hp hs hn
  · split at hn
    next he =>
      rw [if_pos he]
      exact State.clearLine_attends hp hs hn
    next => cases hn

theorem State.closePool_attends (h : Sound p l s) (hs : ∀ j ∈ s.background, j < l.tasks.length)
    {f : Frame .unit .unit} (hn : (l.closePool p).2 = .pause w f) :
    w.Attended p (l.closePool p).1 l.currentTask := by
  have hshut : (l.modifyPool p Pool.State.shut).pool? p = some s.shut := ((Changed.unbounded h.pool).modifyPool _).pool
  unfold State.closePool at hn ⊢
  rw [h.pool] at hn ⊢
  dsimp only at hn ⊢
  split at hn
  next => cases hn
  next hc =>
    rw [if_neg hc]
    cases hr : s.reaper with
    | none =>
      rw [hr] at hn
      exact State.reaperEnded_attends hshut hs _ hn
    | some r =>
      rw [hr] at hn
      obtain ⟨k, hk, ha⟩ := h.reaper_alone hr
      have hx : Changed p (fun _ => True) (fun _ _ => True) (fun _ _ => True) l
          ((l.modifyPool p fun s => { s with closed := true }).cancel r) s.shut l.nextConnection [] :=
        ((Changed.unbounded h.pool).modifyPool Pool.State.shut).cancelAlone hk ha trivial trivial
      have hlen := hx.length
      have ht := hx.currentTask
      dsimp only at hn ⊢
      generalize (l.modifyPool p fun s => { s with closed := true }).cancel r = m at hx hn hlen ht ⊢
      rw [← ht]
      rw [List.length_nil, Nat.add_zero] at hlen
      split at hn
      next hf =>
        rw [if_pos hf]
        exact State.reaperEnded_attends hx.pool (fun j hj => hlen ▸ hs j hj) _ hn
      next hf =>
        rw [if_neg hf]
        obtain rfl : Wait.task r = w := by injection hn
        have hlt : r < m.tasks.length := hlen ▸ (h.reaper r hr).1
        simp [Wait.Attended, State.following, State.modifyTask, List.getElem?_eq_getElem hlt]

theorem State.acquire_notices {q : Nat} {f : Frame .unit .lease} (hn : (l.acquire p).2 = .pause (.givenUp q) f) :
    .notice l.currentTask ∈ (l.acquire p).1.ready := by
  have stands : ∀ (m : State) (s : Pool.State), m.currentTask = l.currentTask →
      (m.standInLine p s).2 = .pause (.givenUp q) f → .notice l.currentTask ∈ (m.standInLine p s).1.ready := by
    intro m s ht hn
    unfold State.standInLine at hn ⊢
    dsimp only at hn ⊢
    rw [ht] at hn ⊢
    generalize State.grow _ p = x at hn ⊢
    obtain ⟨m', e | _⟩ := x
    · cases hn
    · dsimp only at hn ⊢
      split at hn
      · cases hn
      · cases hn
      next d hd =>
        split at hn
        next hle =>
          rw [if_pos hle]
          exact List.mem_append_right _ (List.mem_singleton_self _)
        next => cases hn
  unfold State.acquire at hn ⊢
  cases hp : l.pool? p with
  | none =>
    rw [hp] at hn
    cases hn
  | some s =>
    have ht : (l.startPool p s).currentTask = l.currentTask :=
      (State.startPool_changed (C := fun _ => True) (D := fun _ _ => True) (E := fun _ _ => True) hp).currentTask
    rw [hp] at hn
    dsimp only at hn ⊢
    split at hn
    next => cases hn
    next hc =>
      rw [if_neg hc]
      split at hn
      next => cases hn
      next hi =>
        split at hn
        next => cases hn
        next hm =>
          rw [if_neg hm]
          exact stands _ s ht hn

variable {u : Shape} {v : Work u} {d : Call u} {st : Stack u}

theorem Work.attends (h : Sound p l s) (hs : Staffed l s) (hr : l.running = some (v.on t st)) (hd : v.Of p d)
    (hk : st.Holds p d) {f : Frame .unit u} (hn : (v.perform l).2 = .pause w f) :
    w.Attended p (v.perform l).1 t := by
  have hlen : ∀ j ∈ s.background, j < l.tasks.length := fun j hj => (hs j hj).1
  obtain ⟨s', cs, ha, hc⟩ := h.performs hr hd hk
  obtain rfl : l.currentTask = t := by simp [State.currentTask, State.current?, hr]
  rw [hn] at ha
  have hpool := hc.pool
  generalize (v.perform l).1.nextConnection = N at ha
  cases ha
  case lines h₁ hst =>
    cases hst with
    | waits timer =>
      intro _
      refine ⟨_, hpool, ⟨l.currentTask, true⟩, ?_, rfl, rfl⟩
      rw [h₁]
      exact List.mem_append_right _ (List.mem_singleton_self _)
    | givesUp => exact State.acquire_notices hn
  case askWaits | closeWaits => trivial
  case evicts he | evictsOn he => cases he
  case reaps hr | sweptOver hr =>
    cases hr
    trivial
  case shuts => exact State.closePool_attends h hlen hn
  case shutsAtOnce => exact State.closePool_attends h hlen hn
  case clears o _ => exact State.reaperEnded_attends h.pool hlen o hn
  case drains ids _ => exact State.drainFrom_attends h.pool hlen ids hn

theorem Sound.not_dozing (h : Sound p l s) (hr : l.running = some (v.on t st)) : ¬ l.Dozes p l.currentTask := by
  have ht : l.currentTask = t := by simp [State.currentTask, State.current?, hr]
  obtain ⟨x, hx, hs⟩ := h.at_work hr
  rw [ht]
  exact fun hd => hd.ne hx (by simp [hs]) rfl

theorem Sound.rouses (h : Sound p l s) (hr : l.running = some (v.on t st)) (hd : v.Of p d) (hk : st.Holds p d) :
    Rouses p (fun _ _ => True) (fun i => i ≠ t) (fun _ _ => True) l (v.perform l).1 := by
  refine Work.rouses hd hk h.pool (h.not_dozing hr) (fun _ _ _ => trivial) (fun _ => trivial) fun hc => .inr ?_
  refine ⟨fun _ _ => trivial, fun _ _ => trivial, fun r hr' => ⟨?_, h.reaper_alone hr'⟩⟩
  rintro rfl
  have h0 := (h.reaper r hr').2.2.2
  have hpos : 0 < Weight.closing.work v := by
    cases v with
    | call c => cases c <;> first | exact Nat.one_pos | exact hc.elim
    | back f => cases f <;> first | exact Nat.one_pos | exact hc.elim
  have hof := h.of_on (W := .closing) hr
  omega

theorem Attentive.work (ha : Attentive p l) (h : Sound p l s) (hs : Staffed l s) (hr : l.running = some (v.on t st))
    (hd : v.Of p d) (hk : st.Holds p d) : Attentive p ((v.perform l).1.carryOn t (v.perform l).2 st) := by
  have hrs := h.rouses hr hd hk
  obtain ⟨x, hx, hst⟩ := h.at_work hr
  obtain ⟨y, hy, hxy⟩ := hrs.old t x hx
  have hm : Attentive p (v.perform l).1 := ha.rouses hrs fun r hr' => by
    cases hr.symm.trans hr'
    simp
  have hys : y.status = .running := hxy.status.running hst
  exact hm.carryOn (hrs.running.trans hr) (Work.on_task v t st) hy hys fun w f hn => Work.attends h hs hr hd hk hn

end Attending

section Ending

variable {p t : Nat} {l l' : State} {s : Pool.State}

theorem Rouses.follow {A : Nat → Option Failure → Prop} {C : Nat → Prop} {E : Nat → Follower → Prop}
    (h : Rouses p A C E l l') (t : Nat) (f : Follower)
    (ha : ∀ i, f = .resume i → ∀ signal, A i signal) : Rouses p A C E l (l'.follow t f) := by
  cases f with
  | dropBackground | count => exact h.apart rfl (List.prefix_append _ _) rfl rfl (List.suffix_refl _)
  | resume i => exact h.wake i (ha i rfl _)

theorem State.followAll (p : Nat) (l : State) (t : Nat) (fs : List Follower) :
    Rouses p (fun _ _ => True) (fun _ => False) (fun _ _ => False) l (fs.foldl (fun l f => l.follow t f) l) ∧
      (∀ i, .resume i ∈ fs → ∀ k w st, (fs.foldl (fun l f => l.follow t f) l).tasks[i]? = some k →
        k.status ≠ .paused w st) ∧
      ∀ i, l.ready.count (.count i t) + fs.count (.count i) ≤
        (fs.foldl (fun l f => l.follow t f) l).ready.count (.count i t) := by
  induction fs generalizing l with
  | nil => exact ⟨.refl, by simp, fun _ => Nat.le_refl _⟩
  | cons f fs ih =>
    obtain ⟨hr, hres, hcount⟩ := ih (l.follow t f)
    have hf : Rouses p (fun _ _ => True) (fun _ => False) (fun _ _ => False) l (l.follow t f) :=
      Rouses.refl.follow t f fun _ _ _ => trivial
    refine ⟨hf.trans hr, fun i hi k w st hk hs => ?_, fun i => ?_⟩
    · rcases List.mem_cons.mp hi with rfl | hi
      · obtain ⟨k₁, hk₁, hs₁ | ⟨_, _, _, hs₁⟩⟩ := hr.paused hk hs
        · exact l.wake_not_paused i _ hk₁ _ _ hs₁
        · exact l.wake_not_paused i _ hk₁ _ _ hs₁
      · exact hres i hi k w st hk hs
    · refine le_trans ?_ (hcount i)
      rw [List.count_cons]
      cases f with
      | dropBackground q => simp [State.follow, State.enqueue]
      | count j =>
        simp only [State.follow, State.enqueue, List.count_append, List.count_singleton]
        by_cases hj : j = i
        · simp [hj]
          omega
        · simp [hj]
      | resume j =>
        have := hf.ready.sublist.count_le (.count i t)
        simp
        omega

theorem State.following_lay_ne {u : Shape} (o : Outcome u) {r : Nat} (hr : t ≠ r) (f : Follower) :
    (l.lay t o).following r f = l.following r f := by
  simp [State.following, State.lay, State.modifyTask, hr]

theorem Attentive.finish {u : Shape} {r : Running} {k : Task} (ha : Attentive p l) (o : Outcome u)
    (hr : l.running = some r) (hrt : r.task = t) (hk : l.tasks[t]? = some k) : Attentive p (l.finish t o) := by
  have heq : l.finish t o = k.followers.foldl (fun l f => l.follow t f) (l.lay t o) := by
    simp [State.finish, State.lay, hk]
  obtain ⟨hrs, hres, hcount⟩ := State.followAll p (l.lay t o) t k.followers
  rw [← heq] at hrs hres hcount
  intro i x' hx'
  by_cases hlt : i < (l.lay t o).tasks.length
  swap
  · obtain ⟨⟨signal, st, hs⟩, hj, _⟩ := hrs.new i x' hx' (Nat.le_of_not_lt hlt)
    rw [Task.Attended, hs]
    exact hj
  obtain ⟨x₁, hx₁, hrd⟩ := hrs.old i _ (List.getElem?_eq_getElem hlt)
  cases hx'.symm.trans hx₁
  have hlay := List.getElem?_eq_getElem hlt
  generalize (l.lay t o).tasks[i] = x at hlay hrd
  rcases modify_cases hlay with ⟨hi, hx⟩ | ⟨rfl, y, _, rfl⟩
  · refine (ha i x hx).of_roused (l := l) hrd hrs.ready.subset (fun hs => ?_) fun w st hs => ?_
    · obtain ⟨_, r', hr', ht⟩ := (ha i x hx).at_work hs
      cases hr.symm.trans hr'
      exact absurd (ht.symm.trans hrt) hi
    · have hold : w.Attended p l i := by
        obtain ⟨x₂, hx₂, hs | ⟨ts, b, rfl, hs⟩⟩ := hrs.paused hx' hs
        all_goals
          cases hlay.symm.trans hx₂
          have hwaits := (ha i x hx).waits hs
          exact hwaits
      cases w with
      | turn q timer =>
        rintro rfl
        exact hrs.line i ⟨x', timer, st, hx', hs⟩ (hold rfl)
      | givenUp => exact hrs.ready.subset hold
      | task r =>
        by_cases hrt : t = r
        · -- It has just been told.
          subst hrt
          have hpos : 0 < k.followers.count (.resume i) := by simpa [Wait.Attended, State.following, hk] using hold
          exact absurd hs (hres i (List.count_pos_iff.mp hpos) x' _ st hx')
        · have hle := hrs.following_le r (.resume i)
          rw [State.following_lay_ne o hrt] at hle
          exact Nat.lt_of_lt_of_le hold hle
      | tasks ts b =>
        refine ⟨hold.1, fun j => (hold.2 j).trans ?_⟩
        have hle := hrs.ready.sublist.count_le (.count i j)
        by_cases hj : t = j
        · subst hj
          have hc := hcount i
          have hf : l.following t (.count i) = k.followers.count (.count i) := by simp [State.following, hk]
          have hready : (l.lay t o).ready = l.ready := rfl
          rw [hready] at hc
          simp only [State.dues, hf]
          omega
        · have hf := hrs.following_le j (.count i)
          rw [State.following_lay_ne o hj] at hf
          exact Nat.add_le_add hle hf
      | opening | closing | held | sleep | lock => trivial
  · refine Task.Attended.of_roused (l := l.lay i o) (k := { y with status := .finished u o, followers := [] }) rfl hrd
      hrs.ready.subset (fun hs => by cases hs) fun w st hs => ?_
    obtain ⟨x₂, hx₂, hs | ⟨_, _, _, hs⟩⟩ := hrs.paused hx' hs
    all_goals
      cases hlay.symm.trans hx₂
      cases hs

end Ending

section Jobs

variable {p t : Nat} {l l' m : State} {s : Pool.State} {k : Task} {j : Job}

theorem Attentive.popped (ha : Attentive p l) (ht : m.tasks = l.tasks) (hp : m.pools = l.pools)
    (hr : m.running = l.running) (hq : l.ready = j :: m.ready) (hk : m.tasks[t]? = some k) (hj : ¬ k.Minds t j) :
    k.Attended p m t := by
  refine (ha t k (ht ▸ hk)).mono (fun j' hj' => ?_) (fun r f => (State.following_congr ht r f).ge)
    (fun _ _ _ h => h.of_pools hp) fun _ => hr
  have hne : j ≠ j' := fun he => hj (he ▸ hj')
  rw [hq, List.count_cons_of_ne hne]

theorem Task.Attended.modified {g : Task → Task} (hg : ∀ k, (g k).followers = k.followers) {i : Nat}
    (h : k.Attended p m i) : k.Attended p (m.modifyTask t g) i :=
  h.mono (fun _ _ => Nat.le_refl _) (fun r f => (State.following_modify hg r f).ge) (fun _ _ _ h => h) fun _ => rfl

theorem Attentive.wakes {w : Wait} {st : Stack .unit}
    (ha : ∀ (i : Nat) (x : Task), i ≠ t → m.tasks[i]? = some x → x.Attended p m i)
    (hk : m.tasks[t]? = some k) (hs : k.status = .paused w st) (signal : Option Failure) :
    Attentive p (m.wake t signal) := by
  rw [State.wake_of_paused hk hs]
  intro i x hx
  rcases modify_cases hx with ⟨hi, hx⟩ | ⟨rfl, y, _, rfl⟩
  · have hm : x.Attended p (m.modifyTask t fun k => { k with status := .ready signal st }) i :=
      (ha i x hi hx).modified fun _ => by rfl
    exact hm.mono (fun j _ => (List.sublist_append_left _ _).count_le j) (fun _ _ => Nat.le_refl _)
      (fun _ _ _ h => h.of_pools rfl) fun _ => rfl
  · exact List.mem_append_right _ (List.mem_singleton_self _)

theorem Attentive.ring (ha : Attentive p m) (hr : m.running = none) (n : Nat) : Attentive p (m.ring n) := by
  have roused : ∀ {l'}, Rouses p (fun _ _ => True) (fun _ => True) (fun _ _ => True) m l' → Attentive p l' :=
    fun h => ha.rouses h (by simp [hr])
  unfold State.ring
  generalize m.tasks.findIdx? _ = owner
  cases owner with
  | none => exact ha
  | some t =>
    dsimp only
    split
    next q _ _ _ _ _ _ =>
      rw [State.wake_modifyPool]
      exact roused ((Rouses.refl.wake t trivial).giveUp (m.not_dozes_wake t _) q)
    next => exact roused (Rouses.refl.wake t trivial)

theorem Attentive.stepTask
    (ha : ∀ (i : Nat) (x : Task), m.tasks[i]? = some x → ¬ x.Minds i (.step t) → x.Attended p m i)
    (hr : m.running = none) : Attentive p (m.stepTask t) := by
  rw [State.stepTask]
  split
  next signal st _ b _ hk =>
    intro i x hx
    rcases modify_cases hx with ⟨hi, hx⟩ | ⟨rfl, y, _, rfl⟩
    · have hold := ha i x hx fun hj => by
        cases hj with
        | step => exact hi rfl
        | wait _ hw => cases hw
      have hm : x.Attended p (m.modifyTask t fun k => { k with status := .running, cancelRequested := false }) i :=
        hold.modified fun _ => by rfl
      refine hm.mono (fun _ _ => Nat.le_refl _) (fun _ _ => Nat.le_refl _) (fun _ _ _ h => h) fun hs => ?_
      obtain ⟨_, r, hr', _⟩ := hold.at_work hs
      cases hr.symm.trans hr'
    · exact ⟨rfl, _, rfl, rfl⟩
  next hne =>
    intro i x hx
    refine ha i x hx fun hj => ?_
    obtain ⟨status, _, _, _⟩ := x
    cases hj with
    | step hs =>
      cases hs
      exact hne _ _ _ _ _ hx
    | wait _ hw => cases hw

theorem Attentive.count {ended : Nat} (ha : Attentive p l) (ht : m.tasks = l.tasks) (hp : m.pools = l.pools)
    (hr : m.running = l.running) (hq : l.ready = .count t ended :: m.ready) : Attentive p (m.count t ended) := by
  rw [State.count]
  split
  next ts b st _ _ _ hk =>
    have others : ∀ (i : Nat) (x : Task), i ≠ t → (m.modifyTask t fun k =>
        { k with status := .paused (.tasks (ts.erase ended) b) st }).tasks[i]? = some x →
        x.Attended p (m.modifyTask t fun k => { k with status := .paused (.tasks (ts.erase ended) b) st }) i := by
      intro i x hi hx
      rw [State.modifyTask, List.getElem?_modify_ne _ _ hi.symm] at hx
      refine (ha.popped ht hp hr hq hx fun hj => ?_).modified fun _ => by rfl
      cases hj with
      | wait _ hw =>
        cases hw
        exact hi rfl
    dsimp only
    split
    next => exact Attentive.wakes others (by simp only [State.modifyTask, List.getElem?_modify_eq, hk]; rfl) rfl _
    next hne =>
      intro i x hx
      by_cases hi : i = t
      · subst hi
        rcases modify_cases hx with ⟨hi, _⟩ | ⟨_, y, hy, rfl⟩
        · exact absurd rfl hi
        · have hold := ha i y (ht ▸ hy)
          cases hk.symm.trans hy
          refine ⟨fun he => hne (by simp [he]), fun j => ?_⟩
          have hle : ts.count j ≤ l.dues i j := hold.2 j
          have hf : l.following j (.count i) = m.following j (.count i) := (State.following_congr ht j _).symm
          rw [State.dues, hf, hq, List.count_cons] at hle
          rw [State.dues, State.following_modify fun _ => by rfl, State.modifyTask, List.count_erase]
          by_cases hj : ended = j
          · simp only [hj, beq_self_eq_true, if_true] at hle ⊢
            omega
          · simp only [beq_iff_eq, Job.count.injEq, true_and, hj, if_false] at hle ⊢
            omega
      · exact others i x hi hx
  next hne =>
    intro i x hx
    refine ha.popped ht hp hr hq hx fun hj => ?_
    obtain ⟨status, _, _, _⟩ := x
    cases hj with
    | wait hs hw =>
      cases hw
      cases hs
      exact hne _ _ _ _ _ _ hx

theorem Attentive.notice (ha : Attentive p l) (ht : m.tasks = l.tasks) (hp : m.pools = l.pools)
    (hr : m.running = l.running) (hq : l.ready = .notice t :: m.ready) : Attentive p (m.notice t) := by
  rw [State.notice]
  split
  next hk =>
    refine Attentive.wakes (fun i x hi hx => ha.popped ht hp hr hq hx fun hj => ?_) hk rfl _
    cases hj with
    | wait _ hw =>
      cases hw
      exact hi rfl
  next hne =>
    intro i x hx
    refine ha.popped ht hp hr hq hx fun hj => ?_
    obtain ⟨status, _, _, _⟩ := x
    cases hj with
    | wait hs hw =>
      cases hw
      cases hs
      exact hne _ _ _ _ _ hx

theorem Attentive.perform (ha : Attentive p l) (ht : m.tasks = l.tasks) (hp : m.pools = l.pools)
    (hl : l.running = none) (hr : m.running = none) (hq : l.ready = j :: m.ready) : Attentive p (m.perform j) := by
  have hrl : m.running = l.running := hr.trans hl.symm
  cases j with
  | step t => exact Attentive.stepTask (fun i x hx hj => ha.popped ht hp hrl hq hx hj) hr
  | ring n =>
    refine Attentive.ring (fun i x hx => ha.popped ht hp hrl hq hx fun hj => ?_) hr n
    cases hj with
    | wait _ hw => cases hw
  | dropBackground q t =>
    have hm : Attentive p m := fun i x hx => ha.popped ht hp hrl hq hx fun hj => by
      cases hj with
      | wait _ hw => cases hw
    have hd : Rouses p (fun _ _ => True) (fun _ => True) (fun _ _ => True) m (m.perform (.dropBackground q t)) :=
      Rouses.refl.tidy q fun _ _ => rfl
    exact hm.rouses hd (by simp [hr])
  | count t ended => exact ha.count ht hp hrl hq
  | notice t => exact ha.notice ht hp hrl hq

theorem Attentive.nextJob (ha : Attentive p m) (hr : m.running = none) (hj : m.nextJob = some l') :
    Attentive p l' := by
  unfold State.nextJob at hj
  split at hj
  next => cases hj
  next j rest hq =>
    cases hj
    exact ha.perform (m := { m with ready := rest, turnLeft := m.turnLeft - 1 }) rfl rfl hr hr hq

theorem Attentive.advance (ha : Attentive p l) (h : Sound p l s) (hs : Staffed l s) {r : Running}
    (hr : l.running = some r) : Attentive p (l.advance r) := by
  obtain ⟨hf, k, hk, _⟩ := h.running r hr
  have work : ∀ {u : Shape} {w : Work u} {d : Call u} {st : Stack u}, r = w.on r.task st →
      w.Of p d → st.Holds p d → Attentive p (l.advance r) := by
    intro u w d st hw hd hst
    rw [hw, State.advance_on]
    exact ha.work h hs (hw ▸ hr) hd hst
  obtain ⟨t, u, control, st⟩ := r
  cases control with
  | call c => exact work (w := .call c) rfl (.call c) hf
  | give o =>
    cases st with
    | push f st =>
      cases hf with
      | push hrest hst => exact work (w := .back f o) rfl (.back o hrest) hst
    | done => exact ha.finish o hr rfl hk

theorem Attentive.after (ha : Attentive p l) (h : Sound p l s) (hr : l.running = none) {e : Event} (he : e.Offered p) :
    Attentive p (l.after e) := by
  have roused : ∀ {l'}, Rouses p (fun _ _ => True) (fun _ => True) (fun _ _ => True) l l' → Attentive p l' :=
    fun h => ha.rouses h (by simp [hr])
  cases e with
  | enter c =>
    intro i x hx
    rcases append_cases hx with hx | ⟨rfl, rfl⟩
    · have hold := ha i x hx
      refine hold.mono (fun _ _ => Nat.le_refl _) (fun r f => ?_) (fun _ _ _ h => h) fun hs => ?_
      · unfold State.following State.after State.enter
        by_cases hlt : r < l.tasks.length
        · rw [List.getElem?_append_left hlt]
        · simp [List.getElem?_eq_none (Nat.le_of_not_lt hlt)]
      · obtain ⟨_, r, hr', _⟩ := hold.at_work hs
        cases hr.symm.trans hr'
    · exact ⟨rfl, _, rfl, rfl⟩
  | spawn c => exact roused (Rouses.refl.spawn c (by simp))
  | release q id =>
    cases he
    exact roused (.release h.pool id fun _ _ => trivial)
  | cancel t => exact roused (Rouses.refl.cancelWithin _ trivial trivial fun _ _ _ _ => ⟨trivial, trivial⟩)
  | answerOpen t signal =>
    unfold State.after State.answerOpen
    dsimp only
    split
    next n _ _ _ _ _ =>
      have ho : Rouses p (fun _ _ => True) (fun _ => True) (fun _ _ => True) l
          (l.modifyOpener fun o => o.dropOpen n) := Rouses.refl.apart rfl (List.prefix_refl _) rfl rfl (List.suffix_refl _)
      exact roused (ho.wake t trivial)
    next => exact ha
  | answerClose t signal =>
    unfold State.after State.answerClose
    dsimp only
    split
    next c _ _ _ _ _ =>
      have ho : Rouses p (fun _ _ => True) (fun _ => True) (fun _ _ => True) l
          (l.modifyOpener fun o => o.dropClose c) := Rouses.refl.apart rfl (List.prefix_refl _) rfl rfl (List.suffix_refl _)
      exact roused (ho.wake t trivial)
    next => exact ha
  | driver o => exact ha
  | tick now => exact roused (Rouses.refl.apart rfl (List.prefix_refl _) rfl rfl (List.suffix_refl _))

theorem Attentive.step {allowed : State → Event → Prop} (ha : Attentive p l) (h : Sound p l s) (hs : Staffed l s)
    (hst : Step p allowed l l') : Attentive p l' := by
  cases hst with
  | event e hr he _ => exact ha.after h hr he
  | loop hl =>
    unfold State.step? at hl
    split at hl
    next r hr =>
      cases hl
      exact ha.advance h hs hr
    next hr =>
      split at hl
      · have hm : Attentive p l.startTurn := by
          have hrs : Rouses p (fun _ _ => True) (fun _ => True) (fun _ _ => True) l l.startTurn :=
            Rouses.refl.apart rfl (List.prefix_append _ _) rfl rfl (List.suffix_refl _)
          exact ha.rouses hrs (by simp [hr])
        exact hm.nextJob hr hl
      · exact ha.nextJob hr hl

end Jobs

theorem Attentive.ofPool (settings : Config.PoolSettings) (p : Nat) : Attentive p (.ofPool settings) := by
  have ht : (State.ofPool settings).tasks = [] := rfl
  simp [Attentive, ht]

end SqliteAccess.Loop
