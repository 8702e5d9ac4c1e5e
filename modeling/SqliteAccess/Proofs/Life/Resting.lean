import SqliteAccess.Proofs.Life.Governing

/-!
What rests in a pool, or has been handed to a caller in line, is a connection of that pool, and no connection
that there has been is forgotten.
-/

namespace SqliteAccess.Pool.State

def stock (s : State) : List Nat × List (Nat × Nat) × List Connection × Bool :=
  (s.idle, s.handed, s.connections, s.closed)

structure Stocked (s : State) : Prop where
  idle : ∀ id ∈ s.idle, ∃ c ∈ s.leases, c.id = id
  handed : ∀ x ∈ s.handed, ∃ c ∈ s.leases, c.id = x.2

variable {s s' : State} {id t : Nat} {now : Float}

theorem leases_of_stock (he : s'.stock = s.stock) : s'.leases = s.leases :=
  congrArg (fun x => x.2.2.1.map Connection.lease) he

theorem Stocked.congr (h : s.Stocked) (he : s'.stock = s.stock) : s'.Stocked := by
  have hl := leases_of_stock he
  simp only [stock, Prod.mk.injEq] at he
  obtain ⟨hi, hh, _⟩ := he
  exact ⟨by rw [hi, hl]; exact h.idle, by rw [hh, hl]; exact h.handed⟩

theorem leases_update (s : State) (id : Nat) {f : Connection → Connection} (hf : ∀ c, (f c).lease = c.lease) :
    (s.update id f).leases = s.leases := by
  unfold leases update
  rw [List.map_map]
  refine List.map_congr_left fun c _ => ?_
  by_cases hc : c.id = id <;> simp [hc, hf]

theorem leases_checkout (s : State) (id : Nat) : (s.checkout id).leases = s.leases :=
  s.leases_update id fun _ => rfl

theorem Stocked.update (h : s.Stocked) (id : Nat) {f : Connection → Connection} (hf : ∀ c, (f c).lease = c.lease) :
    (s.update id f).Stocked :=
  ⟨by rw [s.leases_update id hf]; exact h.idle, by rw [s.leases_update id hf]; exact h.handed⟩

theorem Stocked.checkin (h : s.Stocked) (hid : ∃ c ∈ s.leases, c.id = id) (now : Float) :
    (s.checkin id now).1.Stocked ∧ (s.checkin id now).1.leases = s.leases := by
  have hspec := s.checkin_spec id now
  generalize (s.checkin id now).1 = s' at hspec
  cases hspec with
  | serves before w rest =>
    have hl : ({ s.checkout id with waiters := rest, handed := s.handed ++ [(w.task, id)] } : State).leases =
        s.leases := s.leases_checkout id
    refine ⟨⟨fun i hi => ?_, fun x hx => ?_⟩, hl⟩
    · rw [hl]
      exact h.idle i hi
    · rw [hl]
      rcases List.mem_append.mp hx with hx | hx
      · exact h.handed x hx
      · rw [List.mem_singleton.mp hx]
        exact hid
  | rests =>
    have hl : ({ s with waiters := [] }.rest id now : State).leases = s.leases :=
      ({ s with waiters := [] } : State).leases_update id fun _ => rfl
    refine ⟨⟨fun i hi => ?_, fun x hx => ?_⟩, hl⟩
    · rw [hl]
      rcases List.mem_append.mp hi with hi | hi
      · exact h.idle i hi
      · rw [List.mem_singleton.mp hi]
        exact hid
    · rw [hl]
      exact h.handed x hx

theorem Stocked.takeIdle (h : s.Stocked) (ht : s.takeIdle? = some (s', id)) :
    s'.Stocked ∧ s'.leases = s.leases ∧ ∃ c ∈ s.leases, c.id = id := by
  obtain ⟨hi, hs⟩ := takeIdle?_eq ht
  have hl : s'.leases = s.leases := by
    rw [hs]
    exact leases_checkout _ id
  have hh : s'.handed = s.handed := by
    rw [hs]
    rfl
  refine ⟨⟨fun i hin => ?_, fun x hx => ?_⟩, hl, h.idle id (by simp [hi])⟩
  · rw [hl]
    exact h.idle i (by simp [hi, hin])
  · rw [hl]
    exact h.handed x (hh ▸ hx)

theorem Stocked.takeUp (h : s.Stocked) (t : Nat) : (s.takeUp t).Stocked :=
  ⟨h.idle, fun x hx => h.handed x (List.mem_of_mem_eraseP hx)⟩

theorem Stocked.handedTo (h : s.Stocked) (ht : s.handedTo? t = some id) : ∃ c ∈ s.leases, c.id = id := by
  obtain ⟨x, hx, rfl⟩ := Option.map_eq_some_iff.mp ht
  exact h.handed x (List.mem_of_find?_eq_some hx)

theorem Stocked.without (h : s.Stocked) (id : Nat) : (s.without id).Stocked := by
  have hl := s.leases_without id
  refine ⟨fun i hi => ?_, fun x hx => ?_⟩
  · rw [hl]
    exact h.idle i (List.mem_of_mem_erase hi)
  · rw [hl]
    exact h.handed x hx

theorem Stocked.register (h : s.Stocked) (n : Nat) (g : Handle) (now : Float) :
    (s.freeSlot.register n g now).Stocked ∧ (s.freeSlot.register n g now).leases = s.leases ++ [⟨n, g⟩] := by
  have hl : (s.freeSlot.register n g now).leases = s.leases ++ [⟨n, g⟩] := by
    simp [leases, State.register, freeSlot, Connection.lease]
  refine ⟨⟨fun i hi => ?_, fun x hx => ?_⟩, hl⟩
  · rw [hl]
    obtain ⟨c, hc, he⟩ := h.idle i hi
    exact ⟨c, List.mem_append_left _ hc, he⟩
  · rw [hl]
    obtain ⟨c, hc, he⟩ := h.handed x hx
    exact ⟨c, List.mem_append_left _ hc, he⟩

theorem mem_leases_of_find (h : ∃ c, s.find? id = some c) : ∃ c ∈ s.leases, c.id = id := by
  obtain ⟨c, hc⟩ := h
  exact ⟨c.lease, List.mem_map_of_mem (find?_mem hc), find?_id hc⟩

end SqliteAccess.Pool.State

namespace SqliteAccess.Loop

open SqliteAccess.Pool (Handle Lease)

namespace State

def pooled (l : State) : List Lease := l.pools.flatMap (·.leases)

/-- The pool has the connection, or has had it. -/
def Has (l : State) (p : Nat) (c : Lease) : Prop := ∃ s, l.pool? p = some s ∧ c ∈ s.leases

def stock (l : State) : List (List Nat × List (Nat × Nat) × List Pool.Connection × Bool) :=
  l.pools.map Pool.State.stock

def Stocked (l : State) : Prop := ∀ s ∈ l.pools, s.Stocked

end State

structure Restocks (l m : State) : Prop where
  has : ∀ p c, m.Has p c ↔ l.Has p c
  stocked : l.Stocked → m.Stocked

variable {l m n : State} {p t id M : Nat} {c : Lease} {u : Shape} {w : Work u}

theorem State.Has.pooled (h : l.Has p c) : c ∈ l.pooled := by
  obtain ⟨s, hs, hc⟩ := h
  exact List.mem_flatMap.mpr ⟨s, List.mem_of_getElem? hs, hc⟩

theorem State.mem_pooled : c ∈ l.pooled ↔ ∃ p, l.Has p c := by
  refine ⟨fun h => ?_, fun ⟨_, h⟩ => h.pooled⟩
  obtain ⟨s, hs, hc⟩ := List.mem_flatMap.mp h
  obtain ⟨p, hp, he⟩ := List.getElem_of_mem hs
  exact ⟨p, s, he ▸ List.getElem?_eq_getElem hp, hc⟩

theorem State.Stocked.pool {s : Pool.State} (h : l.Stocked) (hs : l.pool? p = some s) : s.Stocked :=
  h s (List.mem_of_getElem? hs)

namespace Restocks

theorem refl (l : State) : Restocks l l := ⟨fun _ _ => .rfl, id⟩

theorem trans (h : Restocks l m) (h' : Restocks m n) : Restocks l n :=
  ⟨fun p c => (h'.has p c).trans (h.has p c), fun hs => h'.stocked (h.stocked hs)⟩

theorem of_stock (h : m.stock = l.stock) : Restocks l m := by
  have hlen : m.pools.length = l.pools.length := by simpa [State.stock] using congrArg List.length h
  have hget : ∀ i (hi : i < l.pools.length), (m.pools[i]).stock = (l.pools[i]).stock := fun i hi => by
    have he := List.getElem_of_eq h (i := i) (by simpa [State.stock, hlen] using hi)
    simpa [State.stock] using he
  have hleases : ∀ i (hi : i < l.pools.length), (m.pools[i]).leases = (l.pools[i]).leases := fun i hi =>
    Pool.State.leases_of_stock (hget i hi)
  refine ⟨fun p c => ⟨fun ⟨s, hs, hc⟩ => ?_, fun ⟨s, hs, hc⟩ => ?_⟩, fun hl s hs => ?_⟩
  · obtain ⟨hp, rfl⟩ := List.getElem?_eq_some_iff.mp hs
    have hp' : p < l.pools.length := hlen ▸ hp
    exact ⟨l.pools[p], List.getElem?_eq_getElem hp', hleases p hp' ▸ hc⟩
  · obtain ⟨hp, rfl⟩ := List.getElem?_eq_some_iff.mp hs
    exact ⟨m.pools[p], List.getElem?_eq_getElem (hlen ▸ hp), hleases p hp ▸ hc⟩
  · obtain ⟨i, hi, rfl⟩ := List.getElem_of_mem hs
    exact (hl _ (List.getElem_mem (hlen ▸ hi))).congr (hget i (hlen ▸ hi))

theorem setPool {s s' : Pool.State} (hp : l.pool? p = some s) (hl : s'.leases = s.leases)
    (hs : s.Stocked → s'.Stocked) : Restocks l (l.modifyPool p fun _ => s') := by
  obtain ⟨hlt, _⟩ := List.getElem?_eq_some_iff.mp hp
  refine ⟨fun q c => ?_, fun hall x hx => ?_⟩
  · by_cases hq : p = q
    · subst hq
      have hq : (l.modifyPool p fun _ => s').pool? p = some s' := by simp [State.pool?, State.modifyPool, hlt]
      rw [State.Has, State.Has, hq, hp]
      simp [hl]
    · simp [State.Has, State.pool?, State.modifyPool, hq]
  · obtain ⟨i, hi, rfl⟩ := List.getElem_of_mem hx
    simp only [State.modifyPool, List.getElem_modify]
    split
    · exact hs (hall.pool hp)
    · exact hall _ (List.getElem_mem _)

theorem modifyPool {f : Pool.State → Pool.State} (hf : ∀ s, (f s).leases = s.leases)
    (hs : ∀ s : Pool.State, s.Stocked → (f s).Stocked) : Restocks l (l.modifyPool p f) := by
  cases hp : l.pool? p with
  | none =>
    have hle : l.pools.length ≤ p := List.getElem?_eq_none_iff.mp hp
    rw [State.modifyPool, List.modify_eq_self hle]
    exact .refl l
  | some s =>
    have he : l.modifyPool p f = l.modifyPool p fun _ => f s := by
      obtain ⟨hlt, rfl⟩ := List.getElem?_eq_some_iff.mp hp
      refine congrArg (fun ps => ({ l with pools := ps } : State)) (List.ext_getElem (by simp) fun i _ _ => ?_)
      simp only [List.getElem_modify]
      split
      next hi => subst hi; rfl
      next => rfl
    rw [he]
    exact .setPool hp (hf s) (hs s)

end Restocks

namespace State

theorem stock_of_pools (h : m.pools = l.pools) : m.stock = l.stock := by
  rw [stock, stock, h]

theorem stock_modifyPool (l : State) (p : Nat) {f : Pool.State → Pool.State} (hf : ∀ s, (f s).stock = s.stock) :
    (l.modifyPool p f).stock = l.stock := by
  refine List.ext_getElem (by simp [stock, modifyPool]) fun i _ _ => ?_
  simp only [stock, modifyPool, List.getElem_map, List.getElem_modify]
  split
  · exact hf _
  · rfl

theorem stock_setPool {s s' : Pool.State} (hp : l.pool? p = some s) (hs : s'.stock = s.stock) :
    (l.modifyPool p fun _ => s').stock = l.stock := by
  refine List.ext_getElem (by simp [stock, modifyPool]) fun i _ _ => ?_
  simp only [stock, modifyPool, List.getElem_map, List.getElem_modify]
  split
  next he =>
    subst he
    obtain ⟨_, he⟩ := List.getElem?_eq_some_iff.mp hp
    rw [he, hs]
  next => rfl

@[simp] theorem stock_report (l : State) (r : Log.Record) : (l.report r).stock = l.stock := by
  unfold report
  split <;> rfl

@[simp] theorem stock_reportAll (l : State) (rs : List Log.Record) : (l.reportAll rs).stock = l.stock := by
  unfold reportAll
  induction rs generalizing l with
  | nil => rfl
  | cons r rs ih => exact (ih (l.report r)).trans (l.stock_report r)

@[simp] theorem stock_wake (l : State) (t : Nat) (signal : Option Failure) : (l.wake t signal).stock = l.stock :=
  stock_of_pools (l.wake_pools t signal)

@[simp] theorem stock_wakeInLine (l : State) (t : Nat) (signal : Option Failure) :
    (l.wakeInLine t signal).stock = l.stock := by
  unfold wakeInLine
  split
  · exact stock_wake _ t signal
  · exact l.stock_wake t signal

theorem stock_wakeAll (l : State) (ts : List Nat) (signal : Option Failure) :
    (ts.foldl (fun l t => l.wakeInLine t signal) l).stock = l.stock := by
  induction ts generalizing l with
  | nil => rfl
  | cons t ts ih => exact (ih _).trans (l.stock_wakeInLine t signal)

@[simp] theorem stock_setContext (l : State) (c : Option Log.CorrelationId) : (l.setContext c).stock = l.stock := by
  unfold setContext
  split <;> rfl

@[simp] theorem stock_enterScope (l : State) : l.enterScope.1.stock = l.stock :=
  stock_setContext { l with fresh := (Log.Scope.enter l.context none l.fresh).2 } _

@[simp] theorem stock_leaveScope (l : State) (restores : Bool) : (l.leaveScope restores).stock = l.stock := by
  unfold leaveScope
  split
  · exact l.stock_setContext none
  · rfl

@[simp] theorem stock_setLock (l : State) (M : Nat) (f : Access.Lock → Access.Lock × Option Nat) :
    (l.setLock M f).stock = l.stock := by
  unfold setLock
  split
  · rfl
  · dsimp only
    split
    · exact stock_wake _ _ none
    · rfl

@[simp] theorem stock_spawnBackground (l : State) (p : Nat) (c : Call .unit) :
    (l.spawnBackground p c).stock = l.stock :=
  stock_modifyPool _ p fun _ => rfl

@[simp] theorem stock_spawnOpens (l : State) (p n : Nat) : (l.spawnOpens p n).stock = l.stock := by
  induction n generalizing l with
  | zero => rfl
  | succ n ih =>
    have hr : (l.modifyPool p Pool.State.reserveBackground).stock = l.stock := l.stock_modifyPool p fun _ => rfl
    exact (ih _).trans ((stock_spawnBackground _ p _).trans hr)

@[simp] theorem stock_grow (l : State) (p : Nat) : (l.grow p).1.stock = l.stock := by
  unfold grow
  split
  · rfl
  · split
    · rfl
    · exact l.stock_spawnOpens p _

@[simp] theorem stock_ensureMinimum (l : State) (p : Nat) : (l.ensureMinimum p).1.stock = l.stock := by
  unfold ensureMinimum
  split
  · rfl
  · split
    · rfl
    · exact l.stock_spawnOpens p _

@[simp] theorem stock_growThen (l : State) (p : Nat) (o : Outcome u) : (l.growThen p o).1.stock = l.stock := by
  have hg := l.stock_grow p
  unfold growThen
  generalize l.grow p = x at hg
  obtain ⟨m, e | _⟩ := x <;> exact hg

@[simp] theorem stock_startPool (l : State) (p : Nat) (s : Pool.State) : (l.startPool p s).stock = l.stock := by
  unfold startPool
  split
  · rfl
  · exact stock_modifyPool _ p fun _ => rfl

theorem stock_standInLine (l : State) (p : Nat) (s : Pool.State) : (l.standInLine p s).1.stock = l.stock := by
  have hg := (stock_grow (l.modifyPool p fun s => s.enqueue l.currentTask) p).trans
    (l.stock_modifyPool p fun _ => rfl)
  unfold standInLine
  dsimp only
  generalize (l.modifyPool p fun s => s.enqueue l.currentTask).grow p = x at hg ⊢
  obtain ⟨m, e | _⟩ := x
  · exact hg
  · dsimp only
    split
    · exact hg
    · exact hg
    · split
      · exact (m.stock_modifyPool p (f := fun s => s.giveUp l.currentTask) fun _ => rfl).trans hg
      · exact hg

@[simp] theorem stock_failLongestWaiting (l : State) (p : Nat) (e : Failure) :
    (l.failLongestWaiting p e).stock = l.stock := by
  unfold failLongestWaiting
  split
  · rfl
  next s hs =>
    have hp : (l.modifyPool p fun _ => s.failFirst.1).stock = l.stock := stock_setPool hs rfl
    dsimp only
    split
    · exact (stock_wakeInLine _ _ _).trans hp
    · exact hp

theorem stock_abandonWait (l : State) (t : Nat) (w : Wait) : (l.abandonWait t w).stock = l.stock := by
  cases w with
  | turn p => exact l.stock_modifyPool p fun _ => rfl
  | _ => rfl

theorem stock_cancelWithin (l : State) (t depth : Nat) : (l.cancelWithin t depth).stock = l.stock := by
  induction depth generalizing l t with
  | zero => rfl
  | succ depth ih =>
    have hall : ∀ (ts : List Nat) (l : State), (ts.foldl (fun l k => l.cancelWithin k depth) l).stock = l.stock := by
      intro ts
      induction ts with
      | nil => exact fun _ => rfl
      | cons k ts ih' => exact fun l => (ih' _).trans (ih l k)
    unfold cancelWithin
    split
    · rfl
    · split
      · rfl
      · rfl
      · rfl
      · split
        · rfl
        · exact ih l _
      · exact hall _ _
      · exact (stock_wakeInLine _ t _).trans (l.stock_abandonWait t _)

@[simp] theorem stock_cancel (l : State) (t : Nat) : (l.cancel t).stock = l.stock := l.stock_cancelWithin t _

@[simp] theorem stock_awaitTasks (l : State) (ts : List Nat) (f : Frame .unit .unit) :
    (l.awaitTasks ts f).1.stock = l.stock := by
  unfold awaitTasks
  dsimp only
  generalize l.currentTask = t
  induction ts generalizing l with
  | nil => rfl
  | cons k ts ih =>
    refine (ih _).trans ?_
    dsimp only
    split <;> rfl

end State

namespace Restocks

theorem checkin (hid : ∃ c, l.Has p c ∧ c.id = id) : Restocks l (l.checkin p id) := by
  unfold State.checkin
  split
  · exact .refl l
  next s hs =>
    obtain ⟨c, ⟨s', hs', hc⟩, hid⟩ := hid
    cases hs.symm.trans hs'
    have hback := fun h : s.Stocked => h.checkin ⟨c, hc, hid⟩ l.clock
    have hleases : (s.checkin id l.clock).1.leases = s.leases := by
      rw [Pool.State.leases_eq, Pool.State.leases_eq, (s.checkin_spec id l.clock).roll]
    have hp := Restocks.setPool hs hleases fun h => (hback h).1
    dsimp only
    split
    · exact hp.trans (.of_stock (State.stock_wakeInLine _ _ none))
    · exact hp

theorem release (l : State) (p id : Nat) : Restocks l (l.release p id).1 := by
  unfold State.release
  split
  · exact .refl l
  next s hs =>
    split
    · exact .refl l
    next hr =>
      split
      · have hfree : Restocks l (l.modifyPool p fun s => s.setFree id) :=
          .modifyPool (fun s => s.leases_update id fun _ => rfl) fun s hs => hs.update id fun _ => rfl
        exact hfree.trans (.of_stock (State.stock_spawnBackground _ p _))
      · refine .checkin ?_
        have hfind : ∃ c, s.find? id = some c := by
          unfold Pool.State.checkRelease at hr
          split at hr
          · cases hr
          next c hc => exact ⟨c, hc⟩
        obtain ⟨c, hc, he⟩ := Pool.State.mem_leases_of_find hfind
        exact ⟨c, ⟨s, hs, hc⟩, he⟩

theorem releaseSingle (l : State) (M id : Nat) : Restocks l (l.releaseSingle M id).1 := by
  unfold State.releaseSingle
  dsimp only
  split
  · exact .refl l
  · split
    · split
      · exact .of_stock (State.stock_setLock _ M _)
      · exact .of_stock rfl
    · exact .refl l

theorem giveBack (l : State) (M : Nat) (lease : Option Lease) : Restocks l (l.giveBack M lease).1 := by
  unfold State.giveBack
  split
  · exact .refl l
  · split
    · exact .release l _ _
    · exact .releaseSingle l M _

theorem endBlock (l : State) (M : Nat) (lease : Option Lease) (o : Outcome u) :
    Restocks l (l.endBlock M lease o).1 := by
  obtain ⟨o', ho⟩ := l.endBlock_eq M lease o
  rw [ho]
  exact .giveBack l M lease

theorem endCall (l : State) (M : Nat) (lease : Option Lease) (restores : Bool) (o : Outcome u) :
    Restocks l (l.endCall M lease restores o).1 :=
  (Restocks.endBlock l M lease o).trans (.of_stock (State.stock_leaveScope _ restores))

theorem usePool (l : State) (M : Nat) (d : Access.Database) (settings : Config.PoolSettings) :
    Restocks l (l.usePool M d settings) := by
  refine .trans (m := { l with pools := l.pools ++ [{ settings, source := .database d }] }) ?_
    (.of_stock (State.stock_report _ _))
  refine ⟨fun q c => ⟨fun ⟨s, hs, hc⟩ => ?_, fun ⟨s, hs, hc⟩ => ⟨s, ?_, hc⟩⟩, fun hall s hs => ?_⟩
  · rcases Nat.lt_or_ge q l.pools.length with hq | hq
    · exact ⟨s, (List.getElem?_append_left hq).symm.trans hs, hc⟩
    · have hin := List.mem_of_getElem? ((List.getElem?_append_right hq).symm.trans hs)
      rw [List.mem_singleton.mp hin] at hc
      cases hc
  · rw [← hs]
    exact List.getElem?_append_left (List.getElem?_eq_some_iff.mp hs).1
  · rcases List.mem_append.mp hs with hs | hs
    · exact hall s hs
    · rw [List.mem_singleton.mp hs]
      exact ⟨nofun, nofun⟩

end Restocks

namespace State

theorem stock_ring (l : State) (n : Nat) : (l.ring n).stock = l.stock := by
  unfold ring
  generalize l.tasks.findIdx? _ = owner
  cases owner with
  | none => rfl
  | some t =>
    dsimp only
    split
    · exact (stock_wake _ t _).trans (l.stock_modifyPool _ fun _ => rfl)
    · exact l.stock_wake t none

theorem stock_count (l : State) (t ended : Nat) : (l.count t ended).stock = l.stock := by
  unfold count
  split
  · dsimp only
    split
    · exact stock_wake _ t _
    · rfl
  · rfl

theorem stock_perform (l : State) (j : Job) : (l.perform j).stock = l.stock := by
  cases j with
  | step t =>
    unfold perform stepTask
    dsimp only
    split <;> rfl
  | ring n => exact l.stock_ring n
  | dropBackground p t => exact l.stock_modifyPool p fun _ => rfl
  | count t ended => exact l.stock_count t ended
  | notice t =>
    unfold perform notice
    dsimp only
    split
    · exact l.stock_wake t _
    · rfl

theorem stock_followAll (l : State) (t : Nat) (fs : List Follower) :
    (fs.foldl (fun l f => l.follow t f) l).stock = l.stock := by
  induction fs generalizing l with
  | nil => rfl
  | cons f fs ih =>
    refine (ih _).trans ?_
    cases f with
    | dropBackground | count => rfl
    | resume k => exact l.stock_wake k _

theorem stock_idle {l' : State} (hr : l.running = none) (hl : l.step? = some l') : l'.stock = l.stock := by
  have job : ∀ {m : State}, m.stock = l.stock → m.nextJob = some l' → l'.stock = l.stock := by
    intro m hm hj
    unfold nextJob at hj
    split at hj
    · cases hj
    · cases hj
      exact (stock_perform _ _).trans hm
  unfold step? at hl
  rw [hr] at hl
  dsimp only at hl
  split at hl
  · exact job (m := l.startTurn) rfl hl
  · exact job rfl hl

end State

theorem State.Happens.restocks {may : {s : Shape} → State → Call s → Prop} {l' : State} (hs : l.Happens may l') :
    (∃ (t : Nat) (u : Shape) (w : Work u) (k : Stack u), l.running = some (w.on t k)) ∨ Restocks l l' := by
  cases hs with
  | loop hl =>
    cases hr : l.running with
    | none => exact .inr (.of_stock (State.stock_idle hr hl))
    | some r =>
      rcases r.cases_on with ⟨u, w, k, he⟩ | ⟨u, o, he⟩
      · exact .inl ⟨r.task, u, w, k, congrArg some he⟩
      · refine .inr (.of_stock ?_)
        rw [State.step_running hr hl, he]
        exact State.stock_followAll _ _ _
  | giveBack M c _ => exact .inr (.giveBack l M (some c))
  | cancel t _ => exact .inr (.of_stock (l.stock_cancel t))
  | answer => exact .inr (.of_stock (State.stock_wake _ _ none))
  | enter | spawn | engine | tick => exact .inr (.of_stock rfl)

end SqliteAccess.Loop
