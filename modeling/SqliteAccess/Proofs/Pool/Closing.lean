import SqliteAccess.Proofs.Pool.Counters
import SqliteAccess.Proofs.Pool.Sweep

/-!
A pool that has been shut stays shut. It takes in no caller and does not grow, what is in use stays
with its owner until it is given back and then leaves the pool, and once the call that has shut it is
over nobody stands in line again.
-/

namespace SqliteAccess.Loop

section Shutting

variable {p i t : Nat} {l : State} {s : Pool.State}

theorem State.drainFrom_ne (l : State) (p : Nat) (rest : List Nat) (e : Failure) :
    (l.drainFrom p rest).2 ≠ .give (.error e) := by
  unfold State.drainFrom
  split
  · exact nofun
  · split
    · exact nofun
    · split <;> exact nofun

theorem State.clearLine_ne (l : State) (p : Nat) (e : Failure) :
    (l.clearLine p).2 ≠ .give (.error e) := by
  unfold State.clearLine
  split
  · exact nofun
  · exact State.drainFrom_ne _ p _ e

theorem State.reaperEnded_ne (l : State) (p : Nat) {o : Outcome .unit} (ho : o.Gentle) (e : Failure) :
    (l.reaperEnded p o).2 ≠ .give (.error e) := by
  cases o with
  | ok => exact l.clearLine_ne p e
  | error e' =>
    rw [State.reaperEnded, if_pos (ho e' rfl)]
    exact l.clearLine_ne p e

theorem State.Gentle.endOf (h : Sound p l s) (hg : l.Gentle i) : (l.endOf i).Gentle := by
  intro e he
  obtain ⟨u, hend⟩ := State.ended_of_endOf he
  cases hg with
  | sweeps hpos => exact absurd (h.ended_weight hend) (Nat.ne_of_gt hpos)
  | ends hr => exact absurd rfl (h.ended_ne hr hend)
  | ended hend' ho =>
    obtain ⟨k, hk, hs⟩ := hend
    obtain ⟨k', hk', hs'⟩ := hend'
    cases hk.symm.trans hk'
    cases hs.symm.trans hs'
    exact ho e rfl

theorem Tranquil.closePool_ne (h : Sound p l s) (hq : Tranquil l s) (hc : s.closed = false)
    (e : Failure) : (l.closePool p).2 ≠ .give (.error e) := by
  simp only [State.closePool, h.pool, hc, Bool.false_eq_true, if_false]
  cases hr : s.reaper with
  | none => exact State.clearLine_ne _ p e
  | some r =>
    obtain ⟨k, hk, ha⟩ := h.reaper_alone hr
    have hx : Changed p (fun _ => True) (fun _ _ => True) (fun _ _ => True) l
        ((l.modifyPool p Pool.State.shut).cancel r) s.shut l.nextConnection [] :=
      ((Changed.refl h.pool).modifyPool Pool.State.shut).cancelAlone hk ha trivial trivial
    dsimp only
    split
    · apply State.reaperEnded_ne
      change (State.endOf ((l.modifyPool p Pool.State.shut).cancel r) r).Gentle
      rw [hx.endOf (h.reaper r hr).1]
      exact (hq.reaper r hr).endOf h
    · intro he
      cases he

theorem State.carryOn_gives {u : Shape} {n : Next u} {o : Outcome u} {k : Stack u}
    (h : (l.carryOn t n k).running = some ⟨t, u, .give o, k⟩) : n = .give o := by
  cases n with
  | give o' =>
    cases h
    rfl
  | call | jump | pause | again => cases h

end Shutting

section Line

variable {p t T N N' : Nat} {X Y : Prop} {v : Option Event} {l l' : State} {s s' : Pool.State}
  {u : Shape} {w : Work u} {cs : List (Call .unit)} {n : Next u}

theorem Act.clears_line (h : Act p t T N s w s' N' cs n) (hw : 0 < Weight.sweeping.work w)
    (hc : w.Spared) : s'.waiters = [] := by
  cases h
  case clears => rfl
  case clearFails e he =>
    rcases hc _ e rfl with h0 | h0
    · exact absurd h0 he
    · cases h0
  all_goals exact absurd hw (Nat.lt_irrefl 0)

theorem Act.orderly_closed (h : Act p t T N s w s' N' cs n) (hc : s.closed = true) :
    s.Orderly (· = t) s' := by
  rcases h.orderly with ho | ⟨hw, _⟩
  · exact ho
  · have opened : s.closed ≠ false := by simp [hc]
    cases h
    case takes ho _ _ => exact absurd ho opened
    case opens ho _ _ _ => exact absurd ho opened
    case lines ho _ _ _ _ _ => exact absurd ho opened
    case started | neverStarted | refused => exact .of_eq rfl (.refl _) id
    all_goals cases hw

theorem Move.line (hc : s.closed = true) (hm : Move p X Y v l l' s s') : s'.line.Sublist s.line := by
  cases hm with
  | work _ _ _ ha => exact (ha.orderly_closed hc).line
  | aside _ _ ha => exact ha.orderly.line

def Clearing (t : Nat) (l : State) (s : Pool.State) : Prop := 0 < Weight.sweeping.of l t ∨ s.line = []

theorem Clearing.move (h : Sound p l s)
    (hq : ∀ {u : Shape} {w : Work u} {k : Stack u}, l.running = some (w.on t k) → w.Spared)
    (hc : s.closed = true) (ht : t < l.tasks.length) (hcl : Clearing t l s) (hm : Move p X Y v l l' s s') :
    Clearing t l' s' := by
  rcases hcl with hw | hl
  · cases hm with
    | @work u w d t' k n cs m hr hd hk ha hch heq =>
      subst heq
      by_cases htt : t = t'
      · subst htt
        by_cases h0 : Weight.sweeping.work w = 0
        · exact .inl (h.carryOn_pos hr hch (.inr ⟨h0, hw⟩))
        · right
          rw [Pool.State.line, ha.clears_line (Nat.pos_of_ne_zero h0) (hq hr)]
          rfl
      · exact .inl (((h.work_weight hr hch).2.1 t ht htt).symm ▸ hw)
    | aside _ _ ha => exact .inl ((ha.weight_of h ht).symm ▸ hw)
  · right
    have hsub := hm.line hc
    rw [hl] at hsub
    exact List.sublist_nil.mp hsub

end Line

section Scenes

variable {p i t : Nat} {settings : Config.PoolSettings} {x y z : Scene} {s s' : Pool.State}

structure Scene.Guarded (p : Nat) (settings : Config.PoolSettings) (x : Scene) (s : Pool.State) : Prop
    extends Scene.Kept p settings x s where
  lined : Lined p x.loop s
  tranquil : Tranquil x.loop s
  reserved : Reserved x.loop s

theorem Scene.Guarded.step (hz : settings.minConnections.isInteger = true)
    (hd : ∃ d, Config.seconds settings.reapIntervalMs = .ok d) (h : Scene.Guarded p settings x s)
    (hst : Scene.Step p x y) :
    ∃ v s', Move p True True v x.loop y.loop s s' ∧ Scene.Guarded p settings y s' := by
  obtain ⟨v, s', hm, hy⟩ := hst.move hz h.toKept
  have hs : Paced s := ⟨h.settings ▸ hz, h.settings ▸ hd⟩
  exact ⟨v, s', hm, hy, h.lined.move h.sound hm, h.tranquil.move h.sound h.lined hs hm,
    h.reserved.move h.sound hm⟩

theorem Tranquil.ofPool (settings : Config.PoolSettings) : Tranquil (.ofPool settings) (Pool.fresh settings) := by
  have ht : (State.ofPool settings).tasks = [] := rfl
  have hr : (State.ofPool settings).running = none := rfl
  exact ⟨by simp [ht], by simp [hr], nofun, by simp [ht]⟩

theorem Disciplined.guarded (hz : settings.minConnections.isInteger = true)
    (hd : ∃ d, Config.seconds settings.reapIntervalMs = .ok d) (h : Disciplined settings x) :
    ∃ s, Scene.Guarded Session.Pooling.number settings x s := by
  induction h with
  | refl =>
    exact ⟨Pool.fresh settings, ⟨.ofPool settings, rfl, .ofPool settings, .ofPool settings⟩, .ofPool settings,
      .ofPool settings, ⟨Nat.le_refl _, Nat.le_refl _⟩⟩
  | tail _ hst ih =>
    obtain ⟨s, h⟩ := ih
    obtain ⟨_, s', _, h'⟩ := h.step hz hd hst
    exact ⟨s', h'⟩

theorem Scene.Guarded.run {I : Scene → Pool.State → Prop} (hz : settings.minConnections.isInteger = true)
    (hd : ∃ d, Config.seconds settings.reapIntervalMs = .ok d) (h : Scene.Guarded p settings x s)
    (hc : s.closed = true) (hi : I x s)
    (hstep : ∀ {y z v s s'}, Scene.Guarded p settings y s → s.closed = true → I y s →
      Scene.Step p y z → Move p True True v y.loop z.loop s s' → I z s')
    (hxz : Relation.ReflTransGen (Scene.Step p) x z) :
    ∃ s', Scene.Guarded p settings z s' ∧ s'.closed = true ∧ I z s' := by
  induction hxz with
  | refl => exact ⟨s, h, hc, hi⟩
  | tail _ hst ih =>
    obtain ⟨s', hk, hc, hi⟩ := ih
    obtain ⟨v, s'', hm, hk'⟩ := hk.step hz hd hst
    refine ⟨s'', hk', ?_, hstep hk hc hi hst hm⟩
    by_contra ho
    cases hc.symm.trans (hm.was_open (Bool.eq_false_iff.mpr ho))

theorem Scene.Guarded.shuts (h : Scene.Guarded p settings x s) (hst : Scene.Step p x y)
    {X Y : Prop} {v : Option Event} (hm : Move p X Y v x.loop y.loop s s') (ho : s.closed = false)
    (hc : s'.closed = true) :
    x.loop.currentTask < y.loop.tasks.length ∧ Clearing x.loop.currentTask y.loop s' := by
  refine ⟨(hm.shuts (G := fun _ => True) h.sound ho hc).1.trans_le hm.grows.1, ?_⟩
  cases hm with
  | aside _ _ ha => cases hc.symm.trans (ha.constant.2.2.2.trans ho)
  | @work u w d t k n cs m hr hd hk ha hch heq =>
    have ht : x.loop.currentTask = t := by simp [State.currentTask, State.current?, hr]
    rw [ht, heq]
    cases ha.shuts_of ho hc with
    | waits => exact .inl (h.sound.carryOn_pos hr hch (.inl Nat.one_pos))
    | atOnce => exact .inr rfl
    | fails e =>
      have hl : y.loop = x.loop.advance ((Work.call (.closePool p)).on t k) := by
        cases hst with
        | loop hl => simpa [State.step?, hr] using hl.symm
        | event _ hn | release hn | destroy hn => cases hn.symm.trans hr
      rw [State.advance_on] at hl
      have hgive := congrArg State.running (hl.symm.trans heq)
      exact absurd (State.carryOn_gives hgive) (h.tranquil.closePool_ne h.sound ho e)

end Scenes

structure Scene.Apart (x : Scene) (s : Pool.State) (i : Nat) : Prop where
  made : i < x.loop.nextConnection
  free : i ∉ s.idle ++ (s.given ++ x.loop.brings)
  unheld : ∀ t, x.loop.holds? x.returned t ≠ some i

section Apart

variable {p i t : Nat} {X Y : Prop} {v : Option Event} {settings : Config.PoolSettings}
  {x y z : Scene} {l l' : State} {s s' : Pool.State}

theorem Move.got (h : Sound p l s) (hm : Move p X Y v l l' s s') (hg : l'.got? t = some i) :
    l.got? t = some i ∨ i ∈ l.brings := by
  cases hm with
  | @work u w d t' k n cs m hr hd hk ha hc heq =>
    subst heq
    have hrun : l.got? t' = none := Work.on_task w t' k ▸ h.got?_running hr
    rw [State.carryOn_got? n ((hc.got? t').trans hrun), hc.got?] at hg
    exact .inl hg
  | aside _ _ ha =>
    cases ha with
    | @ends t' u o hr hc =>
      rw [hc.got?] at hg
      by_cases htt : t = t'
      · subst htt
        rw [State.lay_got? (h.running_lt hr)] at hg
        right
        simp only [State.brings, hr]
        cases u with
        | lease =>
          cases o with
          | error => cases hg
          | ok c =>
            cases hg
            exact List.mem_singleton.mpr rfl
        | _ => cases hg
      · rw [State.lay_got?_of_ne htt] at hg
        exact .inl hg
    | @goesOn t' signal k x hn hx hs hr ht =>
      rw [State.got?_modify ht fun y hy => ?_] at hg
      · exact .inl hg
      · cases hx.symm.trans hy
        rw [hs]
        rfl
    | lull _ _ hc | releases _ _ _ _ hc | discards _ _ _ hc =>
      rw [hc.got?] at hg
      exact .inl hg
    | enters _ _ _ ht hs =>
      rw [State.got?_append ht (by rw [hs]; rfl)] at hg
      exact .inl hg
    | spawns _ _ _ ht hm =>
      rw [State.got?_append ht (by rw [hm.status]; rfl)] at hg
      exact .inl hg

theorem Move.free (hc : s.closed = true) (hm : Move p X Y v l l' s s') (hi : i < l.nextConnection)
    (hf : i ∉ s.idle ++ (s.given ++ l.brings)) : i ∉ s'.idle ++ (s'.given ++ l'.brings) := by
  simp only [List.mem_append, not_or] at hf
  cases hm with
  | @work u w d t k n cs m hr hd hk ha hch heq =>
    have hb := State.brings_on hr
    rw [hb] at hf
    rw [heq, State.carryOn_brings]
    intro hmem
    rcases List.mem_append.mp hmem with hidle | hgiven
    · rcases (ha.resting hc).2.1 i hidle with hidle | hgiven
      · exact hf.1 hidle
      · exact hf.2.1 hgiven
    · rcases ha.comes_by hgiven with hgiven | ⟨ho, _⟩ | rfl
      · exact (List.mem_append.mp hgiven).elim hf.2.1 hf.2.2
      · cases hc.symm.trans ho
      · exact Nat.lt_irrefl _ hi
  | aside _ _ ha =>
    obtain ⟨hidle, hgiven⟩ := ha.resting hc
    rw [hidle, hgiven, ha.brings]
    simpa using ⟨hf.1, hf.2.1⟩

theorem Scene.Step.returned (hst : Scene.Step p x y) : x.returned ⊆ y.returned := by
  cases hst with
  | loop | event => exact fun _ => id
  | release | destroy => exact List.subset_cons_self _ _

theorem State.holds?_eq {l : State} {r : List Nat} : l.holds? r t = some i ↔ t ∉ r ∧ l.got? t = some i := by
  simp [State.holds?]

theorem Scene.Apart.step (h : Sound p x.loop s) (hc : s.closed = true) (ha : x.Apart s i)
    (hst : Scene.Step p x y) (hm : Move p X Y v x.loop y.loop s s') : y.Apart s' i := by
  refine ⟨ha.made.trans_le hm.grows.2, hm.free hc ha.made ha.free, fun t ht => ?_⟩
  obtain ⟨hout, hg⟩ := State.holds?_eq.mp ht
  rcases hm.got h hg with hg | hb
  · exact ha.unheld t (State.holds?_eq.mpr ⟨fun hr => hout (hst.returned hr), hg⟩)
  · exact ha.free (by simp [hb])

theorem Scene.Apart.disowned (ha : x.Apart s i) : i ∉ s.idle ∧ ∀ t, ¬ x.Owns s t i := by
  have hf := ha.free
  simp only [List.mem_append, not_or] at hf
  refine ⟨hf.1, fun t ho => ?_⟩
  rcases ho with ho | ho
  · exact hf.2.1 (List.mem_map_of_mem ho)
  · exact ha.unheld t ho

end Apart

section Steps

variable {p t i : Nat} {l : State} {s : Pool.State} {c : Pool.Handle}

theorem State.step?_of_running {r : Running} (hr : l.running = some r) :
    l.step? = some (l.advance r) := by
  simp [State.step?, hr]

theorem State.registering_step {k : Stack .lease} (h : l.pool? p = some s)
    (hr : l.running = some ⟨t, .handle, .give (.ok c), .push (.registering p) k⟩) :
    ∃ l' now, l.step? = some l' ∧
      l'.running = some ⟨t, .lease, .give (.ok ⟨l.nextConnection, c⟩), k⟩ ∧
      l'.pool? p = some (s.freeSlot.register l.nextConnection c now) := by
  obtain ⟨s', N, cs, ha, hch⟩ := l.registering_acts h (.ok c)
  rw [State.step?_of_running hr, State.advance]
  dsimp only [resume]
  generalize l.registering p (.ok c) = m at ha hch
  obtain ⟨m, n⟩ := m
  cases ha with
  | registers _ now => exact ⟨_, now, rfl, rfl, hch.pool⟩

theorem State.openedBackground_step {k : Stack .unit} {c : Pool.Lease} (h : l.pool? p = some s)
    (hc : s.closed = true)
    (hr : l.running = some ⟨t, .lease, .give (.ok c), .push (.openedBackground p) k⟩) :
    ∃ l', l.step? = some l' ∧ l'.running = some ⟨t, .unit, .call (.destroy p c.id), k⟩ ∧
      l'.pool? p = some s.endBackground := by
  refine ⟨_, State.step?_of_running hr, ?_⟩
  obtain ⟨s', N, cs, ha, hch⟩ := l.openedBackground_acts h (.ok c)
  rw [State.advance]
  dsimp only [resume]
  generalize l.openedBackground p (.ok c) = m at ha hch
  obtain ⟨m, n⟩ := m
  cases ha with
  | backgroundLate => exact ⟨rfl, hch.pool⟩
  | backgroundDone _ _ ho => cases hc.symm.trans ho

theorem State.destroy_step {k : Stack .unit} {c : Pool.Connection} (h : l.pool? p = some s)
    (hs : s.source = .opener) (hr : l.running = some ⟨t, .unit, .call (.destroy p i), k⟩)
    (hf : s.find? i = some c) :
    ∃ l', l.step? = some l' ∧
      l'.running = some ⟨t, .unit, .call (.askClose c.handle), .push (.destroyed p i) k⟩ ∧
      l'.pool? p = some (s.without i) := by
  refine ⟨_, State.step?_of_running hr, ?_⟩
  have hrem : s.remove? i = some (s.without i, c.handle) := by simp [Pool.State.remove?, hf]; rfl
  have hd : l.destroy p i = (l.modifyPool p fun _ => s.without i,
      .call (.askClose c.handle) (.destroyed p i)) := by
    simp only [State.destroy, h, hrem]
    rw [State.closeHandle]
    have hs' : (s.without i).source = .opener := hs
    rw [hs']
  rw [State.advance]
  dsimp only [begin]
  rw [hd]
  exact ⟨rfl, ((Changed.refl (C := fun _ => True) (D := fun _ _ => True) (E := fun _ _ => True) h).setPool
    (s.without i)).pool⟩

end Steps

/-- What holds of a pool that has been shut, now and in all that follows. -/
structure Scene.Shut (p : Nat) (x : Scene) (s : Pool.State) : Prop where
  closed : s.closed = true
  refuses : x.loop.acquire p = (x.loop, .give (.error .poolClosed))
  shrinks : ∀ (y : Scene) (s' : Pool.State), Relation.ReflTransGen (Scene.Step p) x y →
    y.loop.pool? p = some s' → s'.size ≤ s.size
  /-- A destroy that begins is that of a connection that nobody owns, and closes its handle. -/
  destroys : ∀ (t i : Nat) (k : Stack .unit), x.loop.running = some ⟨t, .unit, .call (.destroy p i), k⟩ →
    (∀ t', ¬ x.Owns s t' i) ∧ ∀ c, s.find? i = some c → ∃ l' s', x.loop.step? = some l' ∧
      l'.running = some ⟨t, .unit, .call (.askClose c.handle), .push (.destroyed p i) k⟩ ∧
      l'.pool? p = some s' ∧ s'.find? i = none
  /-- A connection that is given back stays out of reach, and a new task destroys it. -/
  discards : ∀ t i, x.loop.running = none → x.loop.holds? x.returned t = some i →
    (x.loop.release p i).2 = .ok () ∧
    (∃ s' k, (x.loop.release p i).1.pool? p = some s' ∧ x.loop.tasks.length ∈ s'.background ∧
      (x.loop.release p i).1.tasks[x.loop.tasks.length]? = some k ∧
      k.status = .ready none (.push (.start (.destroy p i)) (.done .unit))) ∧
    ∀ (y : Scene) (s' : Pool.State),
      Relation.ReflTransGen (Scene.Step p) ⟨(x.loop.release p i).1, t :: x.returned⟩ y →
      y.loop.pool? p = some s' → i ∉ s'.idle ∧ ∀ t', ¬ y.Owns s' t' i
  /-- A connection that is opened in the background from now on is closed in the next few steps. -/
  late : ∀ (t : Nat) (c : Pool.Handle) (k : Stack .unit),
    x.loop.running =
      some ⟨t, .handle, .give (.ok c), .push (.registering p) (.push (.openedBackground p) k)⟩ →
    (x.loop.settleWithin 3).running =
      some ⟨t, .unit, .call (.askClose c), .push (.destroyed p x.loop.nextConnection) k⟩ ∧
    ∀ (y : Scene) (s' : Pool.State), Relation.ReflTransGen (Scene.Step p) x y →
      y.loop.pool? p = some s' →
      x.loop.nextConnection ∉ s'.idle ∧ ∀ t', ¬ y.Owns s' t' x.loop.nextConnection

section Shut

variable {p i t : Nat} {settings : Config.PoolSettings} {x y z : Scene} {s s' : Pool.State}

theorem Scene.disowned (hi : i ∉ s.given ++ (x.loop.held x.returned ++ x.loop.brings)) (t : Nat) :
    ¬ x.Owns s t i := by
  intro ho
  apply hi
  rw [← List.append_assoc]
  exact List.mem_append_left _ (Scene.owned_iff.mpr ⟨t, ho⟩)

theorem Scene.Kept.apart (h : Scene.Kept p settings x s) (hd : x.loop.Doomed i) (hi : i ∉ s.idle) :
    x.Apart s i := by
  obtain ⟨hlt, hm⟩ := h.owned.doomed i hd
  have hout := Scene.disowned hm
  simp only [List.mem_append, not_or] at hm
  refine ⟨hlt, ?_, fun t ht => hout t (.inr ht)⟩
  simp only [List.mem_append, not_or]
  exact ⟨hi, hm.1, hm.2.2⟩

theorem Scene.Kept.unknown (h : Scene.Kept p settings x s) :
    x.loop.nextConnection ∉ s.idle ∧ ∀ t, ¬ x.Owns s t x.loop.nextConnection := by
  refine ⟨fun hi => ?_, fun t ho => ?_⟩
  · exact Nat.lt_irrefl _ ((h.owned.sole.free _ hi).lt h.listed.known)
  · exact Nat.lt_irrefl _ ((h.owned.sole.used _ (Scene.owned_iff.mpr ⟨t, ho⟩)).lt h.listed.known)

theorem Scene.Guarded.apart_run (hz : settings.minConnections.isInteger = true)
    (hd : ∃ d, Config.seconds settings.reapIntervalMs = .ok d) (h : Scene.Guarded p settings x s)
    (hc : s.closed = true) (ha : x.Apart s i) (hxy : Relation.ReflTransGen (Scene.Step p) x y)
    (hy : y.loop.pool? p = some s') : i ∉ s'.idle ∧ ∀ t, ¬ y.Owns s' t i := by
  obtain ⟨s'', hk, _, ha⟩ := h.run (I := fun x s => x.Apart s i) hz hd hc ha
    (fun hk hc ha hst hm => ha.step hk.sound hc hst hm) hxy
  cases hk.sound.pool.symm.trans hy
  exact ha.disowned

theorem Scene.Guarded.shrinks (hz : settings.minConnections.isInteger = true)
    (hd : ∃ d, Config.seconds settings.reapIntervalMs = .ok d) (h : Scene.Guarded p settings x s)
    (hc : s.closed = true) (hxy : Relation.ReflTransGen (Scene.Step p) x y)
    (hy : y.loop.pool? p = some s') : s'.size ≤ s.size := by
  obtain ⟨s'', hk, _, hle⟩ := h.run (I := fun _ s' => s'.size ≤ s.size) hz hd hc (Nat.le_refl _)
    (fun hk hc hle _ hm => (hm.size_le hk.sound hk.reserved hc).trans hle) hxy
  cases hk.sound.pool.symm.trans hy
  exact hle

theorem Scene.Guarded.destroys (h : Scene.Guarded p settings x s) {k : Stack .unit}
    (hr : x.loop.running = some ⟨t, .unit, .call (.destroy p i), k⟩) : x.loop.Doomed i := by
  have hr' : x.loop.running = some ((Work.call (.destroy p i)).on t k) := hr
  apply Weight.doomed_work hr' (h.sound.at_work hr')
  exact Weight.dooms_destroy.mpr rfl

theorem Scene.Guarded.discards (hz : settings.minConnections.isInteger = true)
    (hd : ∃ d, Config.seconds settings.reapIntervalMs = .ok d) (h : Scene.Guarded p settings x s)
    (hc : s.closed = true) (hr : x.loop.running = none) (hh : x.loop.holds? x.returned t = some i) :
    (x.loop.release p i).2 = .ok () ∧
    (∃ s' k, (x.loop.release p i).1.pool? p = some s' ∧ x.loop.tasks.length ∈ s'.background ∧
      (x.loop.release p i).1.tasks[x.loop.tasks.length]? = some k ∧
      k.status = .ready none (.push (.start (.destroy p i)) (.done .unit))) ∧
    ∀ (y : Scene) (s' : Pool.State),
      Relation.ReflTransGen (Scene.Step p) ⟨(x.loop.release p i).1, t :: x.returned⟩ y →
      y.loop.pool? p = some s' → i ∉ s'.idle ∧ ∀ t', ¬ y.Owns s' t' i := by
  have hrel : x.loop.release p i =
      ((x.loop.modifyPool p fun s => s.setFree i).spawnBackground p (.destroy p i), .ok ()) := by
    simp [State.release, h.sound.pool, h.owned.checkRelease hh, hc]
  have hch : Changed p (fun _ => False) (fun _ _ => False) (fun _ _ => False) x.loop
      (x.loop.release p i).1 { s.setFree i with background := s.background ++ [x.loop.tasks.length] }
      x.loop.nextConnection [.destroy p i] := by
    rw [hrel]
    exact ((Changed.refl h.sound.pool).modifyPool fun s => s.setFree i).spawnBackground (.destroy p i)
  have hst : Scene.Step p x ⟨(x.loop.release p i).1, t :: x.returned⟩ := .release hr hh
  obtain ⟨v, s', hm, hk⟩ := h.step hz hd hst
  cases hk.sound.pool.symm.trans hch.pool
  have hlen : x.loop.tasks.length < (x.loop.release p i).1.tasks.length := by
    rw [hch.length]
    exact Nat.lt_succ_self _
  have hk' := List.getElem?_eq_getElem hlen
  refine ⟨by rw [hrel], ⟨_, _, hch.pool, by simp, hk', ?_⟩, fun y s' hy hs' => ?_⟩
  · rcases hch.task_cases hk' with ⟨x', hx', _⟩ | ⟨c, hc', _, hmade⟩
    · exact absurd (List.getElem?_eq_some_iff.mp hx').1 (Nat.lt_irrefl _)
    · cases List.mem_singleton.mp hc'
      exact hmade.status
  · have hidle : i ∉ s.idle := by
      intro hi
      apply h.owned.sole.idle_apart hi
      rw [← List.append_assoc]
      exact List.mem_append_left _ (Scene.owned_iff.mpr ⟨t, .inr hh⟩)
    have hdoom : (x.loop.release p i).1.Doomed i := by
      refine ⟨x.loop.tasks.length + 0, ?_⟩
      rw [hch.weight_new (by simp [hr]) 0 (by simp)]
      exact Weight.dooms_destroy.mpr rfl
    exact hk.apart_run hz hd hc (hk.apart hdoom hidle) hy hs'

theorem Scene.steps_of_running {r : Running} {l : State} (hr : x.loop.running = some r)
    (hl : x.loop.step? = some l) (hxy : Relation.ReflTransGen (Scene.Step p) x y) :
    y = x ∨ Relation.ReflTransGen (Scene.Step p) ⟨l, x.returned⟩ y := by
  rcases hxy.cases_head with rfl | ⟨z, hst, hzy⟩
  · exact .inl rfl
  · right
    cases hst with
    | loop hl' =>
      cases hl.symm.trans hl'
      exact hzy
    | event _ hn | release hn | destroy hn => cases hn.symm.trans hr

theorem Scene.Guarded.late (hz : settings.minConnections.isInteger = true)
    (hd : ∃ d, Config.seconds settings.reapIntervalMs = .ok d) (h : Scene.Guarded p settings x s)
    (hc : s.closed = true) {c : Pool.Handle} {k : Stack .unit}
    (hr : x.loop.running =
      some ⟨t, .handle, .give (.ok c), .push (.registering p) (.push (.openedBackground p) k)⟩) :
    (x.loop.settleWithin 3).running =
      some ⟨t, .unit, .call (.askClose c), .push (.destroyed p x.loop.nextConnection) k⟩ ∧
    ∀ (y : Scene) (s' : Pool.State), Relation.ReflTransGen (Scene.Step p) x y →
      y.loop.pool? p = some s' →
      x.loop.nextConnection ∉ s'.idle ∧ ∀ t', ¬ y.Owns s' t' x.loop.nextConnection := by
  obtain ⟨l₁, now, hl₁, hr₁, hp₁⟩ := x.loop.registering_step h.sound.pool hr
  obtain ⟨_, s₁, _, h₁⟩ := h.step hz hd (.loop hl₁)
  cases h₁.sound.pool.symm.trans hp₁
  obtain ⟨l₂, hl₂, hr₂, hp₂⟩ := l₁.openedBackground_step hp₁ hc hr₁
  obtain ⟨_, s₂, _, h₂⟩ := h₁.step hz hd (.loop hl₂)
  cases h₂.sound.pool.symm.trans hp₂
  have hnew := h.unknown
  have hnone : s.find? x.loop.nextConnection = none := by
    cases hf : s.find? x.loop.nextConnection with
    | none => rfl
    | some c => exact absurd (Pool.State.UsedAs.lt h.listed.known ⟨c, hf, rfl⟩) (Nat.lt_irrefl _)
  generalize x.loop.nextConnection = N at *
  have hf : (s.freeSlot.register N c now).endBackground.find? N =
      some { id := N, handle := c, releasedAt := now } :=
    (Pool.State.find?_register (s := s.freeSlot) hnone c now N).trans (if_pos rfl)
  obtain ⟨l₃, hl₃, hr₃, _⟩ := l₂.destroy_step hp₂ h₂.sound.source hr₂ hf
  refine ⟨?_, fun y s' hy hs' => ?_⟩
  · simp [State.settleWithin, hl₁, hl₂, hl₃, hr₃]
  rcases Scene.steps_of_running hr hl₁ hy with rfl | hy
  · cases h.sound.pool.symm.trans hs'
    exact hnew
  rcases Scene.steps_of_running hr₁ hl₂ hy with rfl | hy
  · cases hp₁.symm.trans hs'
    have hb : l₁.brings = [N] := by simp [State.brings, hr₁, brought]
    have hout := h₁.owned.sole.borne_apart (show N ∈ _ by simp [hb])
    exact ⟨hnew.1, fun t' ho => hout.2 (Scene.owned_iff.mpr ⟨t', ho⟩)⟩
  · have hdoom : l₂.Doomed N := h₂.destroys hr₂
    exact h₂.apart_run hz hd hc (h₂.apart hdoom hnew.1) hy hs'

theorem Scene.Guarded.shut (hz : settings.minConnections.isInteger = true)
    (hd : ∃ d, Config.seconds settings.reapIntervalMs = .ok d) (h : Scene.Guarded p settings x s)
    (hc : s.closed = true) : x.Shut p s where
  closed := hc
  refuses := by simp [State.acquire, h.sound.pool, hc]
  shrinks _ _ := h.shrinks hz hd hc
  destroys t i k hr := by
    refine ⟨Scene.disowned (h.owned.doomed i (h.destroys hr)).2, fun c hf => ?_⟩
    obtain ⟨l', hl, hr', hp⟩ := x.loop.destroy_step h.sound.pool h.sound.source hr hf
    exact ⟨l', _, hl, hr', hp, by rw [Pool.State.find?_without, if_pos rfl]⟩
  discards _ _ := h.discards hz hd hc
  late _ _ _ := h.late hz hd hc

end Shut

/-- From the step in which a call shuts the pool, the pool is shut for good. Once that call is over,
however it has ended, nobody is in line and nobody will be. -/
theorem shut_for_good {settings : Config.PoolSettings}
    (hz : settings.minConnections.isInteger = true)
    (hd : ∃ d, Config.seconds settings.reapIntervalMs = .ok d) {x y z : Scene}
    {sx sy sz : Pool.State} (hx : Disciplined settings x)
    (hsx : x.loop.pool? Session.Pooling.number = some sx) (hopen : sx.closed = false)
    (hxy : Scene.Step Session.Pooling.number x y)
    (hsy : y.loop.pool? Session.Pooling.number = some sy) (hshut : sy.closed = true)
    (hyz : Relation.ReflTransGen (Scene.Step Session.Pooling.number) y z)
    (hsz : z.loop.pool? Session.Pooling.number = some sz) :
    z.Shut Session.Pooling.number sz ∧
      (z.loop.isFinished x.loop.currentTask = true → ∀ (w : Scene) (sw : Pool.State),
        Relation.ReflTransGen (Scene.Step Session.Pooling.number) z w →
        w.loop.pool? Session.Pooling.number = some sw → sw.waiters = []) := by
  obtain ⟨s, h⟩ := hx.guarded hz hd
  cases h.sound.pool.symm.trans hsx
  obtain ⟨v, s', hm, hy⟩ := h.step hz hd hxy
  cases hy.sound.pool.symm.trans hsy
  obtain ⟨s'', hk, hc, _, hcl⟩ := hy.run
    (I := fun y s => x.loop.currentTask < y.loop.tasks.length ∧ Clearing x.loop.currentTask y.loop s)
    hz hd hshut (h.shuts hxy hm hopen hshut) (fun hk hc ⟨ht, hcl⟩ _ hm =>
      ⟨ht.trans_le hm.grows.1, hcl.move hk.sound (fun hr => hk.tranquil.work_spared hr) hc ht hm⟩) hyz
  cases hk.sound.pool.symm.trans hsz
  refine ⟨hk.shut hz hd hc, fun hend w sw hzw hsw => ?_⟩
  obtain ⟨u, o, hend⟩ := State.ended_of_isFinished hend
  have hline : sz.line = [] := hcl.resolve_left (by simp [hk.sound.ended_weight hend])
  obtain ⟨s₃, hk₃, _, hline⟩ := hk.run (I := fun _ s => s.line = []) hz hd hc hline
    (fun _ hc hline _ hm => by
      have hsub := hm.line hc
      rw [hline] at hsub
      exact List.sublist_nil.mp hsub) hzw
  cases hk₃.sound.pool.symm.trans hsw
  exact List.map_eq_nil_iff.mp hline

def lineWaits : Scene := ⟨firstHolds.after (.enter (.closePool Session.Pooling.number)), []⟩

def lineShut : Scene := ⟨lineWaits.loop.settleWithin 1, []⟩

def lineCleared : Scene := ⟨(lineShut.loop.after (.cancel 3)).settleWithin 12, []⟩

theorem lineWaits_disciplined : Disciplined tight lineWaits := by
  have h₀ : Disciplined tight ⟨.ofPool tight, []⟩ := .refl
  have h₁ := Disciplined.settleWithin (h₀.tail (.event (.enter (.acquire _)) rfl .acquire rfl)) 6
  have h₂ := Disciplined.settleWithin (h₁.tail (.event (.enter (.acquire _)) rfl .acquire rfl)) 1
  exact h₂.tail (.event (.enter (.closePool _)) rfl .closePool rfl)

theorem shut_for_good_lineCleared : tight.minConnections.isInteger = true ∧
    (∃ d, Config.seconds tight.reapIntervalMs = .ok d) ∧ Disciplined tight lineWaits ∧
    ∃ sx sy sz, lineWaits.loop.pool? Session.Pooling.number = some sx ∧ sx.closed = false ∧
      Scene.Step Session.Pooling.number lineWaits lineShut ∧
      lineShut.loop.pool? Session.Pooling.number = some sy ∧ sy.closed = true ∧
      sy.waiters = [⟨2, true⟩] ∧
      Relation.ReflTransGen (Scene.Step Session.Pooling.number) lineShut lineCleared ∧
      lineCleared.loop.pool? Session.Pooling.number = some sz ∧ sz.waiters = [] ∧
      lineCleared.Owns sz 0 1 ∧ (lineCleared.loop.release Session.Pooling.number 1).2 = .ok () := by
  have hd : ∃ d, Config.seconds tight.reapIntervalMs = .ok d := ⟨_, rfl⟩
  have hxy : Scene.Step Session.Pooling.number lineWaits lineShut := .loop rfl
  have hcancel : Scene.Step Session.Pooling.number lineShut ⟨lineShut.loop.after (.cancel 3), []⟩ :=
    .event (.cancel 3) rfl trivial rfl
  have hyz : Relation.ReflTransGen (Scene.Step Session.Pooling.number) lineShut lineCleared :=
    (Scene.settles _ _ _ 12).head hcancel
  obtain ⟨sx, hsx, hopen⟩ : ∃ s, lineWaits.loop.pool? Session.Pooling.number = some s ∧
      s.closed = false := ⟨_, rfl, rfl⟩
  obtain ⟨sy, hsy, hshut, hline⟩ : ∃ s, lineShut.loop.pool? Session.Pooling.number = some s ∧
      s.closed = true ∧ s.waiters = [⟨2, true⟩] := ⟨_, rfl, rfl, rfl⟩
  obtain ⟨sz, hsz⟩ : ∃ s, lineCleared.loop.pool? Session.Pooling.number = some s := ⟨_, rfl⟩
  have hholds : lineCleared.loop.holds? lineCleared.returned 0 = some 1 := rfl
  obtain ⟨hz, hempty⟩ := shut_for_good rfl hd lineWaits_disciplined hsx hopen hxy hsy hshut hyz hsz
  exact ⟨rfl, hd, lineWaits_disciplined, sx, sy, sz, hsx, hopen, hxy, hsy, hshut, hline, hyz, hsz,
    hempty rfl lineCleared sz .refl hsz, .inr hholds, (hz.discards 0 1 rfl hholds).1⟩

end SqliteAccess.Loop
