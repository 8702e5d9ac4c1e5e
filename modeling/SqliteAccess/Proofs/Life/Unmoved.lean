import SqliteAccess.Proofs.Access.Points
import SqliteAccess.Proofs.Pool.Handles

/-!
What most steps of a loop leave alone, whatever managers and pools there are and whoever makes which
call: what the managers are attached to, the connections that there have been, and the handles that the
engine has given out and was asked to close.
-/

namespace SqliteAccess.Engine

def Request.closes? : Request → Option Pool.Handle
  | .close h => some h
  | _ => none

/-- The handles that the engine was asked to close. -/
def State.closes (e : State) : List Pool.Handle := e.requests.filterMap Request.closes?

@[simp] theorem State.closes_record_open (e : State) (filename : String) (timeout : Value) :
    (e.record (.open filename timeout)).closes = e.closes := by
  simp [closes, record, Request.closes?]

@[simp] theorem State.closes_record_execute (e : State) (h : Pool.Handle) (sql : String) (params : List Value) :
    (e.record (.execute h sql params)).closes = e.closes := by
  simp [closes, record, Request.closes?]

@[simp] theorem State.closes_record_close (e : State) (h : Pool.Handle) :
    (e.record (.close h)).closes = e.closes ++ [h] := by
  simp [closes, record, Request.closes?]

@[simp] theorem State.closes_nextOpening (e : State) : e.nextOpening.2.closes = e.closes :=
  congrArg (List.filterMap Request.closes?) e.nextOpening_spec.1

end SqliteAccess.Engine

namespace SqliteAccess.Pool.State

structure Abides (s s' : State) : Prop where
  roll : s'.roll = s.roll
  source : s'.source = s.source
  closed : s.closed = true → s'.closed = true

variable {s s' s'' : State}

theorem Abides.refl (s : State) : s.Abides s := ⟨rfl, rfl, id⟩

theorem Abides.trans (h : s.Abides s') (h' : s'.Abides s'') : s.Abides s'' :=
  ⟨h'.roll.trans h.roll, h'.source.trans h.source, fun hc => h'.closed (h.closed hc)⟩

theorem Abides.update (h : s.Abides s') (id : Nat) {f : Connection → Connection}
    (hf : ∀ c, (f c).lease = c.lease ∧ (f c).live = c.live) : s.Abides (s'.update id f) :=
  h.trans ⟨roll_update s' id hf, rfl, fun hc => hc⟩

theorem Abides.checkout (h : s.Abides s') (id : Nat) : s.Abides (s'.checkout id) :=
  h.update id fun _ => ⟨rfl, rfl⟩

theorem Abides.checkin (s : State) (id : Nat) (now : Float) : s.Abides (s.checkin id now).1 := by
  refine ⟨(s.checkin_spec id now).roll, ?_, ?_⟩ <;>
    · unfold Pool.State.checkin
      split
      · first | rfl | exact fun h => h
      · first | rfl | exact fun h => h

theorem Abides.takeIdle {id : Nat} (h : s.takeIdle? = some (s', id)) : s.Abides s' := by
  rw [(takeIdle?_eq h).2]
  have hs : s.Abides { s with idle := s'.idle } := ⟨rfl, rfl, fun hc => hc⟩
  exact hs.checkout id

end SqliteAccess.Pool.State

namespace SqliteAccess.Loop

open Access (Database)
open SqliteAccess.Pool (Handle Lease)

inductive Call.Housekeeps : Call .unit → Prop
  | reap (p : Nat) : Call.Housekeeps (.reap p)
  | openBackground (p : Nat) : Call.Housekeeps (.openBackground p)
  | destroy (p id : Nat) : Call.Housekeeps (.destroy p id)

structure Unmoved (l m : State) : Prop where
  outer : m.outer = l.outer
  closes : m.engine.closes = l.engine.closes
  standalone : m.standalone.map (·.lease) = l.standalone.map (·.lease)
  next : m.nextConnection = l.nextConnection
  pools : List.Forall₂ Pool.State.Abides l.pools m.pools

structure Placid (l m : State) : Prop where
  undisturbed : Undisturbed l m
  made : ∀ i k, l.tasks.length ≤ i → m.tasks[i]? = some k → ∃ c : Call .unit, c.Housekeeps ∧
    k.status = .ready none (.push (.start c) (.done .unit))

structure Tame (l m : State) : Prop extends Unmoved l m, Placid l m

variable {l m n : State} {p t M : Nat} {u : Shape}

namespace Unmoved

theorem of (ho : m.outer = l.outer) (hc : m.engine.closes = l.engine.closes)
    (hs : m.standalone = l.standalone) (hx : m.nextConnection = l.nextConnection)
    (hp : m.pools = l.pools) : Unmoved l m :=
  ⟨ho, hc, by rw [hs], hx, hp ▸ List.forall₂_same.mpr fun s _ => .refl s⟩

theorem refl (l : State) : Unmoved l l := .of rfl rfl rfl rfl rfl

theorem trans (h : Unmoved l m) (h' : Unmoved m n) : Unmoved l n := by
  have go : ∀ {xs ys zs : List Pool.State}, List.Forall₂ Pool.State.Abides xs ys →
      List.Forall₂ Pool.State.Abides ys zs → List.Forall₂ Pool.State.Abides xs zs := by
    intro xs ys zs hx hy
    induction hx generalizing zs with
    | nil => cases hy; exact .nil
    | cons ha _ ih =>
      cases hy with
      | cons hb hy => exact .cons (ha.trans hb) (ih hy)
  exact ⟨h'.outer.trans h.outer, h'.closes.trans h.closes, h'.standalone.trans h.standalone,
    h'.next.trans h.next, go h.pools h'.pools⟩

end Unmoved

namespace Placid

theorem nudged {C : Nat → Prop} {D : Nat → Failure → Prop} {E : Nat → Follower → Prop}
    (hr : m.running = l.running) (hn : Nudged C D E l.tasks m.tasks) : Placid l m := by
  refine ⟨.nudged hr hn, fun i k hi hk => ?_⟩
  have hlt := (List.getElem?_eq_some_iff.mp hk).1
  have hlen := hn.length
  omega

theorem of_eq (hr : m.running = l.running) (ht : m.tasks = l.tasks) : Placid l m :=
  .nudged (C := fun _ => True) (D := fun _ _ => True) (E := fun _ _ => True) hr (ht ▸ .refl _ _ _ _)

theorem refl (l : State) : Placid l l := .of_eq rfl rfl

theorem trans (h : Placid l m) (h' : Placid m n) : Placid l n := by
  refine ⟨h.undisturbed.trans h'.undisturbed, fun i k hi hk => ?_⟩
  cases hm : m.tasks[i]? with
  | none => exact h'.made i k (List.getElem?_eq_none_iff.mp hm) hk
  | some j =>
    obtain ⟨c, hc, hs⟩ := h.made i j hi hm
    obtain ⟨k', hk', hn⟩ := h'.undisturbed.task hm
    cases hk.symm.trans hk'
    rw [hs] at hn
    refine ⟨c, hc, ?_⟩
    generalize k.status = x at hn ⊢
    cases hn
    rfl

end Placid

namespace Tame

theorem refl (l : State) : Tame l l := ⟨.refl l, .refl l⟩

theorem trans (h : Tame l m) (h' : Tame m n) : Tame l n :=
  ⟨h.toUnmoved.trans h'.toUnmoved, h.toPlacid.trans h'.toPlacid⟩

theorem nudged {C : Nat → Prop} {D : Nat → Failure → Prop} {E : Nat → Follower → Prop} (h : Tame l m)
    (hn : Nudged C D E m.tasks n.tasks) (hr : n.running = m.running) (ho : n.outer = m.outer)
    (hc : n.engine.closes = m.engine.closes) (hs : n.standalone = m.standalone)
    (hx : n.nextConnection = m.nextConnection) (hp : n.pools = m.pools) : Tame l n :=
  h.trans ⟨.of ho hc hs hx hp, .nudged hr hn⟩

theorem quiet (h : Tame l m) (ht : n.tasks = m.tasks) (hr : n.running = m.running) (ho : n.outer = m.outer)
    (hc : n.engine.closes = m.engine.closes) (hs : n.standalone = m.standalone)
    (hx : n.nextConnection = m.nextConnection) (hp : n.pools = m.pools) : Tame l n :=
  h.nudged (C := fun _ => True) (D := fun _ _ => True) (E := fun _ _ => True) (ht ▸ .refl _ _ _ _)
    hr ho hc hs hx hp

theorem modifyPool (h : Tame l m) (p : Nat) (f : Pool.State → Pool.State)
    (hf : ∀ s : Pool.State, s.Abides (f s)) :
    Tame l (m.modifyPool p f) := by
  refine h.trans ⟨⟨rfl, rfl, rfl, rfl, ?_⟩, .of_eq rfl rfl⟩
  refine List.forall₂_iff_get.mpr ⟨by simp [State.modifyPool], fun i hi hi' => ?_⟩
  simp only [State.modifyPool, List.get_eq_getElem, List.getElem_modify]
  split
  · exact hf _
  · exact .refl _

theorem setPool {s s' : Pool.State} (h : Tame l m) (hp : m.pool? p = some s) (hs : s.Abides s') :
    Tame l (m.modifyPool p fun _ => s') := by
  refine h.trans ⟨⟨rfl, rfl, rfl, rfl, ?_⟩, .of_eq rfl rfl⟩
  refine List.forall₂_iff_get.mpr ⟨by simp [State.modifyPool], fun i hi hi' => ?_⟩
  simp only [State.modifyPool, List.get_eq_getElem, List.getElem_modify]
  split
  next he =>
    subst he
    obtain ⟨_, he⟩ := List.getElem?_eq_some_iff.mp hp
    exact he ▸ hs
  next => exact .refl _

theorem modifyTask (h : Tame l m) (t : Nat) {f : Task → Task}
    (hf : ∀ k, m.tasks[t]? = some k → k.status.Nudge (fun _ => True) (f k).status) :
    Tame l (m.modifyTask t f) :=
  h.nudged (C := fun _ => True) (D := fun _ _ => True) (E := fun _ _ => True)
    (.modify fun k hk => ⟨hf k hk, .inr trivial, fun _ _ => .inr trivial⟩) rfl rfl rfl rfl rfl rfl

theorem enqueue (h : Tame l m) (j : Job) : Tame l (m.enqueue j) := h.quiet rfl rfl rfl rfl rfl rfl rfl

theorem dropTimer (h : Tame l m) (r : Nat) : Tame l (m.dropTimer r) := h.quiet rfl rfl rfl rfl rfl rfl rfl

theorem addTimer (h : Tame l m) (d : Float) (t : Nat) : Tame l (m.addTimer d t).1 :=
  h.quiet rfl rfl rfl rfl rfl rfl rfl

theorem modifyLock (h : Tame l m) (M : Nat) (f : Access.Manager → Access.Lock) :
    Tame l (m.modifyManager M fun k => { k with lock := f k }) :=
  h.quiet rfl rfl (m.outer_modifyLock M f) rfl rfl rfl rfl

theorem report (h : Tame l m) (r : Log.Record) : Tame l (m.report r) := by
  unfold State.report
  split
  · exact h.quiet rfl rfl rfl rfl rfl rfl rfl
  · exact h

theorem reportAll (h : Tame l m) (rs : List Log.Record) : Tame l (m.reportAll rs) := by
  unfold State.reportAll
  induction rs generalizing m with
  | nil => exact h
  | cons r rs ih => exact ih (h.report r)

theorem wake (h : Tame l m) (t : Nat) (signal : Option Failure) : Tame l (m.wake t signal) := by
  unfold State.wake
  split
  next w k _ _ _ hk =>
    refine (h.modifyTask t fun k' hk' => ?_).enqueue _
    cases hk.symm.trans hk'
    exact .woken w k fun _ _ => trivial
  next => exact h

theorem wakeInLine (h : Tame l m) (t : Nat) (signal : Option Failure) : Tame l (m.wakeInLine t signal) := by
  unfold State.wakeInLine
  split
  · exact (h.dropTimer _).wake t signal
  · exact h.wake t signal

theorem wakeAll (h : Tame l m) (ts : List Nat) (signal : Option Failure) :
    Tame l (ts.foldl (fun l t => l.wakeInLine t signal) m) := by
  induction ts generalizing m with
  | nil => exact h
  | cons t ts ih => exact ih (h.wakeInLine t signal)

theorem spawn (h : Tame l m) {c : Call .unit} (hc : c.Housekeeps) (fs : List Follower) :
    Tame l (m.spawn c fs).1 := by
  refine h.trans ⟨.of rfl rfl rfl rfl rfl, ⟨⟨rfl, m.tasks, _, rfl, .refl _ _ _ _, fun k hk => ?_⟩,
    fun i k hi hk => ?_⟩⟩
  · rw [List.mem_singleton.mp hk]
    exact ⟨c, rfl⟩
  · simp only [State.spawn, State.enqueue] at hk
    rw [List.getElem?_append_right hi] at hk
    rw [List.mem_singleton.mp (List.mem_of_getElem? hk)]
    exact ⟨c, hc, rfl⟩

theorem setContext (h : Tame l m) (c : Option Log.CorrelationId) : Tame l (m.setContext c) := by
  unfold State.setContext
  split
  · exact h.quiet rfl rfl rfl rfl rfl rfl rfl
  · exact h.modifyTask _ fun _ _ => .same _

theorem enterScope (h : Tame l m) : Tame l m.enterScope.1 := by
  have hf : Tame l { m with fresh := (Log.Scope.enter m.context none m.fresh).2 } :=
    h.quiet rfl rfl rfl rfl rfl rfl rfl
  exact hf.setContext _

theorem leaveScope (h : Tame l m) (restores : Bool) : Tame l (m.leaveScope restores) := by
  unfold State.leaveScope
  split
  · exact h.setContext none
  · exact h

theorem setLock (h : Tame l m) (M : Nat) (f : Access.Lock → Access.Lock × Option Nat) :
    Tame l (m.setLock M f) := by
  unfold State.setLock
  split
  · exact h
  · dsimp only
    split
    · exact (h.modifyLock M _).wake _ none
    · exact h.modifyLock M _

theorem setStandaloneUse (h : Tame l m) (id : Nat) (inUse : Bool) : Tame l (m.setStandaloneUse id inUse) := by
  refine h.trans ⟨⟨rfl, rfl, ?_, rfl, List.forall₂_same.mpr fun s _ => .refl s⟩, .of_eq rfl rfl⟩
  simp only [State.setStandaloneUse, List.map_map]
  refine List.map_congr_left fun c _ => ?_
  by_cases hc : c.id = id <;> simp [hc, Pool.Connection.lease]

theorem modifyEngine (h : Tame l m) (f : Engine.State → Engine.State)
    (ho : (f m.engine).opened = m.engine.opened) (hc : (f m.engine).closes = m.engine.closes) :
    Tame l (m.modifyEngine f) :=
  h.quiet rfl rfl (Prod.ext rfl ho) hc rfl rfl rfl

theorem spawnBackground (h : Tame l m) (p : Nat) {c : Call .unit} (hc : c.Housekeeps) :
    Tame l (m.spawnBackground p c) :=
  (h.spawn hc _).modifyPool p _ fun _ => ⟨rfl, rfl, id⟩

theorem spawnOpens (h : Tame l m) (p k : Nat) : Tame l (m.spawnOpens p k) := by
  induction k generalizing m with
  | zero => exact h
  | succ k ih =>
    exact ih ((h.modifyPool p Pool.State.reserveBackground fun _ => ⟨rfl, rfl, id⟩).spawnBackground p
      (.openBackground p))

theorem grow (h : Tame l m) (p : Nat) : Tame l (m.grow p).1 := by
  unfold State.grow
  split
  · exact h
  · split
    · exact h
    · exact h.spawnOpens p _

theorem ensureMinimum (h : Tame l m) (p : Nat) : Tame l (m.ensureMinimum p).1 := by
  unfold State.ensureMinimum
  split
  · exact h
  · split
    · exact h
    · exact h.spawnOpens p _

theorem checkin (h : Tame l m) (p id : Nat) : Tame l (m.checkin p id) := by
  unfold State.checkin
  split
  · exact h
  next s hs =>
    have hx := h.setPool hs (.checkin s id m.clock)
    dsimp only
    split
    · exact hx.wakeInLine _ none
    · exact hx

theorem failLongestWaiting (h : Tame l m) (p : Nat) (e : Failure) : Tame l (m.failLongestWaiting p e) := by
  unfold State.failLongestWaiting
  split
  · exact h
  next s hs =>
    have hx : Tame l (m.modifyPool p fun _ => s.failFirst.1) := h.setPool hs ⟨rfl, rfl, id⟩
    dsimp only
    split
    · exact hx.wakeInLine _ _
    · exact hx

theorem startPool (h : Tame l m) (p : Nat) (s : Pool.State) : Tame l (m.startPool p s) := by
  unfold State.startPool
  split
  · exact h
  · exact (h.spawn (.reap p) []).modifyPool p _ fun _ => ⟨rfl, rfl, id⟩

theorem release (h : Tame l m) (p id : Nat) : Tame l (m.release p id).1 := by
  unfold State.release
  split
  · exact h
  · split
    · exact h
    · split
      · have hf : Tame l (m.modifyPool p fun s => s.setFree id) :=
          h.modifyPool p _ fun s => (Pool.State.Abides.refl s).update id fun _ => ⟨rfl, rfl⟩
        exact hf.spawnBackground p (.destroy p id)
      · exact h.checkin p id

theorem abandonWait (h : Tame l m) (t : Nat) (w : Wait) : Tame l (m.abandonWait t w) := by
  cases w with
  | turn p => exact h.modifyPool p _ fun _ => ⟨rfl, rfl, id⟩
  | held => exact h.modifyEngine (fun e => e.letGo t) rfl rfl
  | sleep r => exact h.dropTimer r
  | lock M => exact h.modifyLock M _
  | opening | closing => exact h.quiet rfl rfl rfl rfl rfl rfl rfl
  | givenUp | task | tasks => exact h

theorem cancelWithin (h : Tame l m) (t depth : Nat) : Tame l (m.cancelWithin t depth) := by
  have request : ∀ {m : State}, Tame l m → ∀ t, Tame l (m.requestCancel t) := fun h t =>
    h.modifyTask t fun _ _ => .same _
  induction depth generalizing m t with
  | zero => exact request h t
  | succ depth ih =>
    have hall : ∀ (ts : List Nat) {m : State}, Tame l m →
        Tame l (ts.foldl (fun l k => l.cancelWithin k depth) m) := by
      intro ts
      induction ts with
      | nil => exact fun h => h
      | cons k ts ih' => exact fun h => ih' (ih h k)
    unfold State.cancelWithin
    split
    · exact h
    next k hk =>
      split
      · exact h
      · exact request h t
      · exact request h t
      · split
        · exact request h t
        · exact ih h _
      next ts b st hs =>
        refine hall _ (h.modifyTask t fun k' hk' => ?_)
        cases hk.symm.trans hk'
        rw [hs]
        exact .recounted ts ts b true st
      · exact (h.abandonWait t _).wakeInLine t _

theorem cancel (h : Tame l m) (t : Nat) : Tame l (m.cancel t) := h.cancelWithin t _

theorem awaitTasks (h : Tame l m) (ts : List Nat) (f : Frame .unit .unit) :
    Tame l (m.awaitTasks ts f).1 := by
  unfold State.awaitTasks
  dsimp only
  generalize m.currentTask = t
  induction ts generalizing m with
  | nil => exact h
  | cons k ts ih =>
    refine ih ?_
    dsimp only
    split
    · exact h.enqueue _
    · exact h.modifyTask k fun _ _ => .same _

theorem releaseSingle (h : Tame l m) (M id : Nat) : Tame l (m.releaseSingle M id).1 := by
  unfold State.releaseSingle
  dsimp only
  split
  · exact h
  · split
    · split
      · exact (h.setStandaloneUse id false).setLock M Access.Lock.release
      · exact h.setStandaloneUse id false
    · exact h

theorem giveBack (h : Tame l m) (M : Nat) (lease : Option Lease) : Tame l (m.giveBack M lease).1 := by
  unfold State.giveBack
  split
  · exact h
  · split
    · exact h.release _ _
    · exact h.releaseSingle M _

theorem endBlock (h : Tame l m) (M : Nat) (lease : Option Lease) (o : Outcome u) :
    Tame l (m.endBlock M lease o).1 := by
  obtain ⟨o', ho⟩ := m.endBlock_eq M lease o
  rw [ho]
  exact h.giveBack M lease

end Tame

end SqliteAccess.Loop
