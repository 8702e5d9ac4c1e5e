import SqliteAccess.Proofs.Loop.Change

/-!
Every step of a call of a pool is one of the acts, and changes nothing but the pool, the tasks that
it wakes and those that it makes.
-/

namespace SqliteAccess.Loop

def Frame.Closing : {s t : Shape} → Frame s t → Prop
  | _, _, .reaperEnded _ | _, _, .draining _ _ | _, _, .backgroundEnded _ => True
  | _, _, _ => False

def Work.Closing : {u : Shape} → Work u → Prop
  | _, .call (.closePool _) => True
  | _, .call _ => False
  | _, .back f _ => f.Closing

def Tells (s s' : Pool.State) (t : Nat) (e : Failure) : Prop :=
  (e = .cancelled → s.reaper = some t) ∧
    (e.isConnection = true → Pool.nextWaiter s.waiters = (s'.waiters, some t)) ∧
    (e ≠ .cancelled → ∃ w ∈ s.waiters, w.task = t)

def Follows {u : Shape} (w : Work u) (t : Nat) (s s' : Pool.State) (i : Nat) (f : Follower) : Prop :=
  s'.closed = true ∧ w.Closing ∧ (f = .resume t ∧ s.reaper = some i ∨ f = .count t)

def Acts (p : Nat) (l : State) (s : Pool.State) {u : Shape} (w : Work u) (x : State × Next u) :
    Prop :=
  ∃ s' N cs, Act p l.currentTask l.tasks.length l.nextConnection s w s' N cs x.2 ∧
    Changed p (fun i => s.reaper = some i) (Tells s s') (Follows w l.currentTask s s') l x.1 s' N cs

theorem Tells.poolClosed {s : Pool.State} (s' : Pool.State) {w : Pool.Waiter} (hw : w ∈ s.waiters) :
    Tells s s' w.task .poolClosed := ⟨nofun, nofun, fun _ => ⟨w, hw, rfl⟩⟩

namespace Acts

variable {p : Nat} {l : State} {s : Pool.State}

theorem of {u : Shape} {w : Work u} {l' : State} {n : Next u} {s' : Pool.State} {N : Nat}
    {cs : List (Call .unit)} (ha : Act p l.currentTask l.tasks.length l.nextConnection s w s' N cs n)
    (hc : Changed p (fun _ => False) (fun _ _ => False) (fun _ _ => False) l l' s' N cs) :
    Acts p l s w (l', n) :=
  ⟨s', N, cs, ha, hc.mono (by simp) (by simp) (by simp)⟩

end Acts

section Steps

variable {p : Nat} {l l' : State} {s : Pool.State} {N : Nat} {cs : List (Call .unit)}
  {C : Nat → Prop} {D : Nat → Failure → Prop} {E : Nat → Follower → Prop}

theorem State.startPool_changed (h : l.pool? p = some s) :
    Changed p C D E l (l.startPool p s) (s.awake l.tasks.length) l.nextConnection (starters p s) := by
  unfold State.startPool starters
  split
  next hs =>
    rw [Pool.State.awake_of_started hs]
    exact .refl h
  next hs =>
    have ha : s.awake l.tasks.length = { s with started := true, reaper := some l.tasks.length } := by
      simp [Pool.State.awake, hs]
    rw [ha]
    exact ((Changed.refl h).spawn (.reap p) (by simp)).modifyPool
      fun s => { s with started := true, reaper := some l.tasks.length }

theorem Changed.standInLine {q s₁ : Pool.State} (h : Changed p C D E l l' s N cs)
    (hs : s₁ = s.enqueue l.currentTask) (hc : q.settings = s.settings) :
    ∃ s' m n, l'.standInLine p q = (m, n) ∧
      Stands p l.currentTask (s₁.expand (l.tasks.length + cs.length) (opens s₁.growth)) s₁.growth s' n ∧
      Changed p C D E l m s' N (cs ++ openers p s₁.growth) := by
  have h₁ := h.modifyPool fun s => s.enqueue l.currentTask
  rw [← hs] at h₁
  obtain ⟨m, hm, hg⟩ := h₁.grow
  simp only [State.standInLine, h.currentTask, hm]
  cases hr : s₁.growth with
  | error e =>
    rw [hr] at hg
    exact ⟨_, _, _, rfl, .fails e (.inl rfl), hg⟩
  | ok k =>
    rw [hr] at hg
    have hset : q.settings = (s₁.expand (l.tasks.length + cs.length) (opens (.ok k))).settings := by
      rw [hc, hs]
      rfl
    simp only [Except.map, hset]
    cases ho : Config.optionalSeconds
        (s₁.expand (l.tasks.length + cs.length) (opens (.ok k))).settings.acquireTimeoutMs with
    | error e => exact ⟨_, _, _, rfl, .fails e (.inr ho), hg⟩
    | ok d =>
      cases d with
      | none => exact ⟨_, _, _, rfl, .waits none, hg⟩
      | some d =>
        dsimp only
        split
        · have hu := hg.modifyPool fun s => s.giveUp l.currentTask
          exact ⟨_, _, _, rfl, .givesUp, hu.apart rfl rfl rfl rfl⟩
        · exact ⟨_, _, _, rfl, .waits _, hg.apart rfl rfl rfl rfl⟩

theorem State.acquire_acts (h : l.pool? p = some s) :
    Acts p l s (.call (.acquire p)) (l.acquire p) := by
  unfold State.acquire
  rw [h]
  dsimp only
  cases hc : s.closed with
  | true => exact .of (.refused hc) (.refl h)
  | false =>
    have h₁ : Changed p (fun _ => False) (fun _ _ => False) (fun _ _ => False) l (l.startPool p s) _ _ _ :=
      State.startPool_changed h
    rw [h₁.pool]
    dsimp only [Option.bind_some, Bool.false_eq_true, if_false]
    cases ht : (s.awake l.tasks.length).takeIdle? with
    | some x =>
      obtain ⟨s', id⟩ := x
      have hl := h₁.setPool s'
      have hi : (State.modifyPool (l.startPool p s) p fun _ => s').leaseOf p id = s'.leaseOf id := by
        simp [State.leaseOf, hl.pool, Pool.State.leaseOf]
      dsimp only
      rw [hi]
      exact .of (.takes hc ht) hl
    | none =>
      have hi : s.idle = [] := Pool.State.takeIdle?_none (s := s.awake l.tasks.length) ht
      dsimp only
      cases hm : s.mayOpen with
      | true => exact .of (.opens hc hi hm) (h₁.modifyPool _)
      | false =>
        obtain ⟨s', m, n, hl, hst, hch⟩ := h₁.standInLine (q := s) rfl rfl
        simp only [hl]
        exact .of (.lines hc hi hm rfl hst) hch

theorem Changed.growThen {u : Shape} (h : Changed p C D E l l' s N cs) (o : Outcome u) :
    ∃ m, l'.growThen p o = (m, .give (orFailure s.growth o)) ∧
      Changed p C D E l m (s.expand (l.tasks.length + cs.length) (opens s.growth)) N
        (cs ++ openers p s.growth) := by
  obtain ⟨m, hm, hg⟩ := h.grow
  refine ⟨m, ?_, hg⟩
  rw [State.growThen, hm]
  cases s.growth <;> rfl

theorem State.growThen_gives {u : Shape} (l : State) (p : Nat) (o : Outcome u) :
    ∃ o', (l.growThen p o).2 = .give o' := by
  unfold State.growThen
  split
  · exact ⟨_, rfl⟩
  · exact ⟨_, rfl⟩

theorem State.opened_acts (h : l.pool? p = some s) (o : Outcome .lease) :
    Acts p l s (.back (.opened p) o) (l.opened p o) := by
  cases o with
  | error e =>
    obtain ⟨m, hm, hg⟩ := (Changed.refl h).growThen (Except.error e : Outcome .lease)
    rw [State.opened, hm]
    exact .of (.openFailed e) hg
  | ok c =>
    obtain ⟨m, hm, hg⟩ := (Changed.refl h).ensureMinimum
    simp only [State.opened, hm]
    cases hs : s.shortfall with
    | error e =>
      rw [hs] at hg
      have hm' : Changed p (fun _ => False) (fun _ _ => False) (fun _ _ => False) l m s l.nextConnection [] := by
        simpa [opens, openers] using hg
      exact .of (.openSpoilt c hs) hm'
    | ok n =>
      refine .of (.openDone c hs) ?_
      rw [hs] at hg ⊢
      exact hg.modifyPool _

theorem State.openSlot_acts (h : l.pool? p = some s) (hs : s.source = .opener) :
    Acts p l s (.call (.openSlot p)) (l.openSlot p) := by
  simp only [State.openSlot, h, hs]
  exact .of .asks (.refl h)

theorem State.askOpen_acts (h : l.pool? p = some s) : Acts p l s (.call .askOpen) l.askOpen := by
  unfold State.askOpen
  dsimp only
  split
  · exact .of (.askWaits _) ((Changed.refl h).apart rfl rfl rfl rfl)
  · refine .of (.askEnds _ ?_) ((Changed.refl h).apart rfl rfl rfl rfl)
    cases (l.opener.ask.2.nextOpenFault).1 <;> simp [State.orFault]

theorem State.registering_acts (h : l.pool? p = some s) (o : Outcome .handle) :
    Acts p l s (.back (.registering p) o) (l.registering p o) := by
  have hf := (Changed.refl (C := fun _ => False) (D := fun _ _ => False) (E := fun _ _ => False) h).modifyPool
    Pool.State.freeSlot
  cases o with
  | error e => exact .of (.frees e) hf
  | ok c =>
    have hr := hf.register c
    simp only [State.registering, hr.pool]
    exact .of (.registers c l.clock) (hr.report _)

theorem State.inLine_acts (h : l.pool? p = some s) (o : Outcome .unit) :
    Acts p l s (.back (.inLine p) o) (l.inLine p o) := by
  have ht : Changed p (fun _ => False) (fun _ _ => False) (fun _ _ => False) l _ _ _ _ :=
    (Changed.refl h).modifyPool fun s => s.takeUp l.currentTask
  simp only [State.inLine, h, Option.bind_some]
  cases hg : s.handedTo? l.currentTask with
  | none =>
    cases o with
    | ok x => exact .of (.misled hg) ht
    | error e => exact .of (.leaves e hg) (ht.modifyPool fun s => s.leaveLine l.currentTask)
  | some id =>
    cases o with
    | ok x =>
      refine .of ?_ ht
      rw [State.leaseOf, ht.pool]
      exact .served hg
    | error e =>
      have hl := (ht.modifyPool fun s => s.leaveLine l.currentTask).checkin id
      exact .of (.passesOn e l.clock hg) hl

theorem State.openedBackground_acts (h : l.pool? p = some s) (o : Outcome .lease) :
    Acts p l s (.back (.openedBackground p) o) (l.openedBackground p o) := by
  have he : Changed p (fun _ => False) (fun _ _ => False) (fun _ _ => False) l _ _ _ _ :=
    (Changed.refl h).modifyPool Pool.State.endBackground
  cases o with
  | error e =>
    simp only [State.openedBackground]
    split
    next hc =>
      have hne : e ≠ .cancelled := by
        rintro rfl
        cases hc
      have hd : ∀ i e, False → Tells s s.endBackground.failFirst.1 i e := nofun
      have hf := ((he.report (State.poolRecord Log.warning
        ("Background connection creation failed: " ++ e.text))).mono (fun _ => id) hd
          (fun _ _ => id)).failLongestWaiting (e := e) fun t ht =>
            ⟨fun hc => absurd hc hne, fun _ => Prod.ext rfl ht, fun _ =>
              Pool.mem_of_nextWaiter (Prod.ext rfl ht)⟩
      obtain ⟨m, hm, hg⟩ := hf.growThen (Except.ok () : Outcome .unit)
      rw [hm]
      exact ⟨_, _, _, .backgroundFailed hc rfl, hg.mono (by simp) (fun _ _ => id) (by simp)⟩
    next hc => exact .of (.backgroundCut (by simpa using hc)) he
  | ok c =>
    simp only [State.openedBackground, he.pool]
    split
    next hc => exact .of (.backgroundLate c hc) he
    next hc => exact .of (.backgroundDone c l.clock (Bool.eq_false_iff.mpr hc)) (he.checkin c.id)

theorem State.destroy_acts (h : l.pool? p = some s) (hs : s.source = .opener) (id : Nat) :
    Acts p l s (.call (.destroy p id)) (l.destroy p id) := by
  simp only [State.destroy, h]
  cases hr : s.remove? id with
  | none => exact .of (.gone hr) (.refl h)
  | some x =>
    obtain ⟨s', c⟩ := x
    have hsrc : s'.source = .opener := by
      simp only [Pool.State.remove?, Option.map_eq_some_iff] at hr
      obtain ⟨c', _, hc⟩ := hr
      cases hc
      exact hs
    simp only [State.closeHandle, hsrc]
    exact .of (.removes hr) ((Changed.refl h).setPool s')

theorem State.askClose_acts (h : l.pool? p = some s) (c : Pool.Handle) :
    Acts p l s (.call (.askClose c)) (l.askClose c) := by
  unfold State.askClose
  dsimp only
  split
  · exact .of (.closeWaits c _) ((Changed.refl h).apart rfl rfl rfl rfl)
  · exact .of (.closeEnds c _) ((Changed.refl h).apart rfl rfl rfl rfl)

theorem State.destroyed_acts (h : l.pool? p = some s) (id : Nat) (o : Outcome .unit) :
    Acts p l s (.back (.destroyed p id) o) (l.destroyed p id o) := by
  obtain ⟨m, hm, hg⟩ := ((Changed.refl h).report (State.poolRecord Log.debug
    ("Destroyed connection " ++ Pool.connectionName id))).growThen o
  rw [State.destroyed, hm]
  exact .of (.destroyed id o) hg

theorem State.endEviction_acts {w : Work .count} (h : l.pool? p = some s) (n : Nat)
    (ha : ∀ k, Sweeps p s k →
      Act p l.currentTask l.tasks.length l.nextConnection s w s l.nextConnection [] k) :
    Acts p l s w (l.endEviction n) := by
  unfold State.endEviction
  split
  · exact .of (ha _ (.ends _)) (.refl h)
  · exact .of (ha _ (.ends _)) ((Changed.refl h).report _)

theorem State.evictFrom_acts {w : Work .count} (h : l.pool? p = some s) (n : Nat) (ids : List Nat)
    (ha : ∀ k, Sweeps p s k →
      Act p l.currentTask l.tasks.length l.nextConnection s w s l.nextConnection [] k) :
    Acts p l s w (l.evictFrom p s n ids) := by
  induction ids with
  | nil => exact State.endEviction_acts h n ha
  | cons id ids ih =>
    unfold State.evictFrom
    split
    next hi =>
      split
      next hs => exact .of (ha _ (.evicts ids n (by simpa using hi) hs)) (.refl h)
      next => exact State.endEviction_acts h n ha
    next => exact ih

theorem State.evict_acts (h : l.pool? p = some s) : Acts p l s (.call (.evict p)) (l.evict p) := by
  simp only [State.evict, h]
  split
  next e _ => exact .of (.evicts (.ends _)) (.refl h)
  next => exact State.evictFrom_acts h 0 _ fun _ hk => .evicts hk

theorem State.evicting_acts (h : l.pool? p = some s) (rest : List Nat) (n : Nat)
    (o : Outcome .unit) :
    Acts p l s (.back (.evicting p rest n) o) (l.evicting p rest n o) := by
  cases o with
  | error e => exact .of (.evictsOn rest n _ (.ends _)) (.refl h)
  | ok x =>
    simp only [State.evicting, h]
    exact State.evictFrom_acts h (n + 1) rest fun _ hk => .evictsOn rest n _ hk

theorem Changed.sleep (h : Changed p C D E l l' s N cs) (d i : Float) :
    ∃ m n, l'.sleep d (.rested p i) = (m, n) ∧ Rests p n ∧ Changed p C D E l m s N cs := by
  unfold State.sleep
  split
  · exact ⟨_, _, rfl, .again i, h⟩
  · exact ⟨_, _, rfl, .sleeps _ i, h.apart rfl rfl rfl rfl⟩

theorem State.reap_acts (h : l.pool? p = some s) : Acts p l s (.call (.reap p)) (l.reap p) := by
  simp only [State.reap, h]
  split
  next e he => exact .of (.reapFails he) (.refl h)
  next i _ =>
    obtain ⟨m, n, hm, hr, hc⟩ := (Changed.refl h).sleep i i
    rw [hm]
    exact .of (.reaps hr) hc

theorem State.rested_acts (h : l.pool? p = some s) (i : Float) (o : Outcome .unit) :
    Acts p l s (.back (.rested p i) o) (l.rested p i o) := by
  cases o with
  | error e => exact .of (.restCut i e) (.refl h)
  | ok x => exact .of (.restOver i) (.refl h)

theorem State.swept_acts (h : l.pool? p = some s) (i : Float) (o : Outcome .count) :
    Acts p l s (.back (.swept p i) o) (l.swept p i o) := by
  have go : ∀ l', Changed p (fun _ => False) (fun _ _ => False) (fun _ _ => False) l l' s l.nextConnection [] →
      Acts p l s (.back (.swept p i) o) (l'.swept p i (.ok 0)) := by
    intro l' hl
    obtain ⟨m, hm, hg⟩ := hl.ensureMinimum
    simp only [State.swept, hm]
    cases hs : s.shortfall with
    | error e =>
      rw [hs] at hg
      have hm' : Changed p (fun _ => False) (fun _ _ => False) (fun _ _ => False) l m s l.nextConnection [] := by
        simpa [opens, openers] using hg
      exact .of (.sweptFails i o hs) hm'
    | ok k =>
      obtain ⟨m', n, hm', hr, hc⟩ := hg.sleep i i
      simp only [Except.map, hm']
      rw [hs] at hc
      refine .of (.sweptOver i o hs hr) ?_
      rw [hs]
      exact hc
  unfold State.swept
  dsimp only
  split
  · exact .of (.sweptCut i) (.refl h)
  · exact go _ ((Changed.refl h).report _)
  · exact go _ (.refl h)

theorem Changed.endClose (h : Changed p C D E l l' s N cs) :
    ∃ m, l'.endClose p = (m, .give (.ok ())) ∧ Changed p C D E l m s N cs :=
  ⟨_, rfl, h.report _⟩

theorem Changed.drainFrom (h : Changed p C D E l l' s N []) (he : ∀ i, E i (.count l.currentTask))
    (rest : List Nat) : ∃ m n, l'.drainFrom p rest = (m, n) ∧ Drains p s rest n ∧ Changed p C D E l m s N [] := by
  cases rest with
  | cons id rest => exact ⟨_, _, rfl, .destroys id rest, h⟩
  | nil =>
    simp only [State.drainFrom, h.pool]
    split
    · obtain ⟨m, hm, hc⟩ := h.endClose
      exact ⟨m, _, hm, .ends, hc⟩
    · exact ⟨_, _, rfl, .waits, h.awaitTasks (by rwa [h.currentTask]) s.background (.backgroundEnded p)⟩

theorem Changed.clearLine (h : Changed p C D E l l' s N []) (he : ∀ i, E i (.count l.currentTask))
    (hd : ∀ w ∈ s.waiters, D w.task .poolClosed) :
    ∃ m n, l'.clearLine p = (m, n) ∧ Drains p s.cleared s.idle n ∧
      Changed p C D E l m s.cleared N [] := by
  have hf := (h.setPool s.cleared).wakeAll ((s.waiters.filter (·.pending)).map (·.task))
    fun t ht e (he : some Failure.poolClosed = some e) => by
      obtain ⟨w, hw, rfl⟩ := List.mem_map.mp ht
      exact Option.some.inj he ▸ hd w (List.mem_filter.mp hw).1
  simp only [State.clearLine, h.pool]
  exact hf.drainFrom he s.idle

theorem Changed.reaperEnded (h : Changed p C D E l l' s N []) (he : ∀ i, E i (.count l.currentTask))
    (hd : ∀ w ∈ s.waiters, D w.task .poolClosed) (o : Outcome .unit) :
    (∃ m n, l'.reaperEnded p o = (m, n) ∧ Drains p s.cleared s.idle n ∧
      Changed p C D E l m s.cleared N []) ∨
    ∃ e, o = .error e ∧ e ≠ .cancelled ∧ l'.reaperEnded p o = (l', .give (.error e)) := by
  cases o with
  | ok x => exact .inl (h.clearLine he hd)
  | error e =>
    by_cases hc : e = .cancelled
    · rw [State.reaperEnded, if_pos hc]
      exact .inl (h.clearLine he hd)
    · exact .inr ⟨e, rfl, hc, by simp [State.reaperEnded, hc]⟩

theorem State.reaperEnded_acts (h : l.pool? p = some s) (hc : s.closed = true) (o : Outcome .unit) :
    Acts p l s (.back (.reaperEnded p) o) (l.reaperEnded p o) := by
  have hf : ∀ i, Follows (.back (.reaperEnded p) o) l.currentTask s s.cleared i (.count l.currentTask) :=
    fun _ => ⟨hc, trivial, .inr rfl⟩
  rcases (Changed.refl h).reaperEnded (p := p) hf (fun _ => Tells.poolClosed _) o with
    ⟨m, n, hm, hd, hch⟩ | ⟨e, rfl, he, hm⟩
  · rw [hm]
    exact ⟨_, _, _, .clears o hd, hch⟩
  · rw [hm]
    exact .of (.clearFails he) (.refl h)

theorem State.draining_acts (h : l.pool? p = some s) (hc : s.closed = true) (rest : List Nat)
    (o : Outcome .unit) : Acts p l s (.back (.draining p rest) o) (l.draining p rest o) := by
  cases o with
  | error e => exact .of (.drainFails rest e) (.refl h)
  | ok x =>
    have hf : ∀ i, Follows (.back (.draining p rest) (.ok x)) l.currentTask s s i (.count l.currentTask) :=
      fun _ => ⟨hc, trivial, .inr rfl⟩
    obtain ⟨m, n, hm, hd, hch⟩ := (Changed.refl h).drainFrom hf rest
    rw [State.draining, hm]
    exact ⟨_, _, _, .drains hd, hch⟩

theorem State.backgroundEnded_acts (h : l.pool? p = some s) (o : Outcome .unit) :
    Acts p l s (.back (.backgroundEnded p) o) (l.backgroundEnded p o) := by
  cases o with
  | error e => exact .of (.gathers _) (.refl h)
  | ok x =>
    obtain ⟨m, hm, hc⟩ := (Changed.refl h).endClose
    rw [State.backgroundEnded, hm]
    exact .of (.gathers _) hc

theorem State.closePool_acts (h : l.pool? p = some s)
    (hr : s.closed = false → ∀ r, s.reaper = some r → ∃ k, l.tasks[r]? = some k ∧ k.Alone) :
    Acts p l s (.call (.closePool p)) (l.closePool p) := by
  simp only [State.closePool, h]
  split
  next hc => exact .of (.shutBefore hc) (.refl h)
  next hc =>
    have hc : s.closed = false := Bool.eq_false_iff.mpr hc
    have hf : ∀ {s' : Pool.State} {i : Nat} {f : Follower}, s'.closed = true →
        f = .resume l.currentTask ∧ s.reaper = some i ∨ f = .count l.currentTask →
        Follows (.call (.closePool p)) l.currentTask s s' i f := fun hs hf => ⟨hs, trivial, hf⟩
    have hs : Changed p (fun i => s.reaper = some i) (fun i e => ∀ s', Tells s s' i e)
        (Follows (.call (.closePool p)) l.currentTask s s.shut) l (l.modifyPool p Pool.State.shut) s.shut
        _ [] := (Changed.refl h).modifyPool _
    have shut : ∀ l' o, Changed p (fun i => s.reaper = some i) (fun i e => ∀ s', Tells s s' i e)
        (Follows (.call (.closePool p)) l.currentTask s s.shut) l l' s.shut l.nextConnection [] →
        Acts p l s (.call (.closePool p)) (l'.reaperEnded p o) := by
      intro l' o hl
      rcases hl.reaperEnded (fun _ => hf rfl (.inr rfl)) (fun _ hw s' => Tells.poolClosed s' hw) o with
        ⟨m, n, hm, hd, hch⟩ | ⟨e, _, _, hm⟩
      · rw [hm]
        exact ⟨_, _, _, .shutsAtOnce hc hd, hch.mono (fun _ => id) (fun _ _ ht => ht _) fun _ _ => id⟩
      · rw [hm]
        exact ⟨_, _, _, .shutFails e hc, hl.mono (fun _ => id) (fun _ _ ht => ht _) fun _ _ => id⟩
    cases hr' : s.reaper with
    | none => exact shut _ _ hs
    | some r =>
      obtain ⟨k, hk, ha⟩ := hr hc r hr'
      have hx := hs.cancelAlone (t := r) hk ha hr' fun _ => ⟨fun _ => hr', nofun, fun hne => absurd rfl hne⟩
      dsimp only
      split
      · exact shut _ _ hx
      · refine ⟨_, _, _, .shuts hc hr', ?_⟩
        refine Changed.modifyTask (hx.mono (fun _ => id) (fun _ _ ht => ht _) fun _ _ => id) fun k _ =>
          ⟨.same _, .inl rfl, fun f hm => ?_⟩
        refine (List.mem_append.mp hm).imp_right fun hm => hf rfl (.inl ?_)
        rw [List.mem_singleton.mp hm]
        exact ⟨congrArg _ hx.currentTask, hr'⟩

end Steps

variable {p : Nat} {l : State} {s : Pool.State}

theorem Work.perform_acts {u : Shape} {w : Work u} {d : Call u} {k : Stack u} (hw : w.Of p d)
    (hk : k.Holds p d) (h : l.pool? p = some s) (hs : s.source = .opener)
    (hr : s.closed = false → ∀ r, s.reaper = some r → ∃ k, l.tasks[r]? = some k ∧ k.Alone)
    (hc : ∀ {v : Shape} (f : Frame v u) (o : Outcome v), w = .back f o → f.Closing → s.closed = true) :
    Acts p l s w (w.perform l) := by
  cases hw with
  | call =>
    cases hk with
    | done hd =>
      cases hd with
      | acquire => exact l.acquire_acts h
      | openBackground => exact .of .opensBackground (.refl h)
      | destroy id => exact l.destroy_acts h hs id
      | evict => exact l.evict_acts h
      | reap => exact l.reap_acts h
      | closePool => exact l.closePool_acts h hr
    | push ha _ _ =>
      cases ha with
      | opened => exact l.openSlot_acts h hs
      | openedBackground => exact l.openSlot_acts h hs
      | registering => exact l.askOpen_acts h
      | destroyed id c => exact l.askClose_acts h c
      | evicting id => exact l.destroy_acts h hs id
      | draining id => exact l.destroy_acts h hs id
      | swept => exact l.evict_acts h
  | back o hf =>
    cases hf with
    | start hd =>
      cases o with
      | ok x => exact .of (.started d) (.refl h)
      | error e => exact .of (.neverStarted d e) (.refl h)
    | askedOpen n => exact .of (.answered n o) (.refl h)
    | askedClose fault c =>
      cases o with
      | ok x => exact .of (.closeAnswered fault _ _) (.refl h)
      | error e => exact .of (.closeAnswered fault _ _) (.refl h)
    | opened => exact l.opened_acts h o
    | inLine => exact l.inLine_acts h o
    | registering => exact l.registering_acts h o
    | openedBackground => exact l.openedBackground_acts h o
    | destroyed id => exact l.destroyed_acts h id o
    | evicting rest n => exact l.evicting_acts h rest n o
    | rested i => exact l.rested_acts h i o
    | swept i => exact l.swept_acts h i o
    | reaperEnded => exact l.reaperEnded_acts h (hc _ o rfl trivial) o
    | draining rest => exact l.draining_acts h (hc _ o rfl trivial) rest o
    | backgroundEnded => exact l.backgroundEnded_acts h o

end SqliteAccess.Loop
