import SqliteAccess.Proofs.Access.Leases
import SqliteAccess.Proofs.Access.LoopSteps

/-!
What one step does to a manager over a pool. A step of a task is an act of the pool, passes control on,
comes by a connection or gives one back; any other step leaves stacks as they are.
-/

namespace SqliteAccess.Loop

open Access (Database)

inductive Released (p id : Nat) (l m : State) (s : Pool.State) : Pool.State → List (Call .unit) → Prop
  | rests (now : Float) : s.closed = false →
      Changed p (fun _ => False) (fun _ _ => False) (fun _ _ => False) l m (s.checkin id now).1
        l.nextConnection [] → Released p id l m s (s.checkin id now).1 []
  | leaves : s.closed = true →
      Changed p (fun _ => False) (fun _ _ => False) (fun _ _ => False) l m
        { s.setFree id with background := s.background ++ [l.tasks.length] } l.nextConnection
        [.destroy p id] →
      Released p id l m s { s.setFree id with background := s.background ++ [l.tasks.length] }
        [.destroy p id]

inductive Performs (M p : Nat) (d : Database) (l m : State) (t : Nat) (s : Pool.State) :
    {u : Shape} → Work u → Pool.State → List (Call .unit) → Next u → Prop
  | acts {u : Shape} {w : Work u} {n : Next u} {s' : Pool.State} {cs : List (Call .unit)} : w.Pooled →
      Act p t l.tasks.length l.nextConnection s w s' m.nextConnection cs n →
      Changed p (fun i => s.reaper = some i) (Tells s s') (Follows w t s s') l m s' m.nextConnection cs →
      m.engine.opened = l.engine.opened → Performs M p d l m t s w s' cs (n.over d)
  | passes {u : Shape} {w : Work u} {n : Next u} :
      Deed M l.engine.opened (.pool p d) w m.engine.opened n →
      Changed p (fun _ => False) (fun _ _ => False) (fun _ _ => False) l m s l.nextConnection [] →
      Performs M p d l m t s w s [] n
  | lends (o : Outcome .lease) :
      Changed p (fun _ => False) (fun _ _ => False) (fun _ _ => False) l m s l.nextConnection [] →
      m.engine.opened = l.engine.opened →
      Performs M p d l m t s (.back .leased o) s [] (.give (o.map some))
  | frees {u : Shape} {w : Work u} (o : Outcome u) : w.Returns M none →
      Changed p (fun _ => False) (fun _ _ => False) (fun _ _ => False) l m s l.nextConnection [] →
      m.engine.opened = l.engine.opened → Performs M p d l m t s w s [] (.give o)
  | returns {u : Shape} {w : Work u} {c : Pool.Lease} {s' : Pool.State} {cs : List (Call .unit)}
      (o : Outcome u) : w.Returns M (some c) → Released p c.id l m s s' cs →
      m.engine.opened = l.engine.opened → Performs M p d l m t s w s' cs (.give o)

def Call.destroys? : {u : Shape} → Call u → Option Nat
  | _, .destroy _ id => some id
  | _, _ => none

inductive Beside (M p : Nat) (d : Database) (l : State) (s : Pool.State) :
    Option Nat → State → Pool.State → Prop
  | ends {t : Nat} {u : Shape} {o : Outcome u} {l' : State} {s' : Pool.State} {D : Nat → Failure → Prop} :
      l.running = some ⟨t, u, .give o, .done u⟩ → s.Lull s' →
      Changed p (fun _ => False) D (fun _ _ => False) (l.lay t o) l' s' l.nextConnection [] →
      (∀ i e, D i e → ∃ x, l.tasks[t]? = some x ∧ .resume i ∈ x.followers) → l'.outer = l.outer →
      Beside M p d l s none l' s'
  | goesOn {t : Nat} {signal : Option Failure} {st : Stack .unit} {x : Task} {l' : State} :
      l.running = none → Resumed l l' t signal st x → Beside M p d l s none l' s
  | lull {l' : State} {s' : Pool.State} {C : Nat → Prop} {D : Nat → Failure → Prop} : l.running = none →
      s.Lull s' → Changed p C D (fun _ _ => False) l l' s' l.nextConnection [] →
      (∀ i e, D i e → e = .cancelled ∨ l.Expects i) → l'.outer = l.outer → Beside M p d l s none l' s'
  | enters {u : Shape} {c : Call u} : l.running = none → c.Served M (.pool p d) →
      Beside M p d l s c.destroys? (l.enter c) s
  | spawns {u : Shape} {c : Call u} : l.running = none → c.Served M (.pool p d) →
      Beside M p d l s c.destroys? (l.spawn c []).1 s
  | gives {id : Nat} {l' : State} {s' : Pool.State} {cs : List (Call .unit)} : l.running = none →
      Released p id l l' s s' cs → l'.outer = l.outer → Beside M p d l s (some id) l' s'

/-- The manager apart from its lock. -/
def State.bare? (l : State) (M : Nat) : Option Access.Manager :=
  (l.manager? M).map fun k => { k with lock := {} }

def State.database? (l : State) (M : Nat) : Option Database := (l.manager? M).bind (·.database)

def Remains (M : Nat) (way : Route) (l : State) {u : Shape} (w : Work u) (m : State) : Prop :=
  m.bare? M = l.bare? M ∨
    w.Disables way ∧ m.bare? M = (l.bare? M).map fun k => { k with database := none }

inductive Shift (M p : Nat) (d : Database) (l : State) (s : Pool.State) (v : Option Nat) :
    State → Pool.State → Prop
  | works {t : Nat} {u : Shape} {w : Work u} {k : Stack u} {c : Call u} {m : State} {s' : Pool.State}
      {cs : List (Call .unit)} {n : Next u} : l.running = some (w.on t k) →
      w.PartOf M (.pool p d) c → k.Bears M (.pool p d) c → n.Continues M (.pool p d) c →
      Performs M p d l m t s w s' cs n → Remains M (.pool p d) l w m → v = none →
      Shift M p d l s v (m.carryOn t n k) s'
  | beside {l' : State} {s' : Pool.State} : Beside M p d l s v l' s' → Shift M p d l s v l' s'

variable {M p t i id : Nat} {d : Database} {l l' m m' : State} {s s' : Pool.State} {u : Shape}
  {w : Work u} {k : Stack u} {n : Next u} {c : Call u} {cs : List (Call .unit)} {N : Nat}
  {C : Nat → Prop} {D : Nat → Failure → Prop} {E : Nat → Follower → Prop}

theorem State.bare?_congr (h : m.outer = l.outer) : m.bare? M = l.bare? M := by
  have hb : ∀ l : State, l.bare? M = l.outer.1[M]? := fun l => by
    simp [State.bare?, State.manager?, State.outer]
  rw [hb, hb, h]

theorem State.database?_eq (l : State) (M : Nat) : l.database? M = (l.bare? M).bind (·.database) := by
  rw [State.database?, State.bare?]
  cases l.manager? M <;> rfl

theorem Lasts.remains {way : Route} (h : Lasts M way l w m) : Remains M way l w m := by
  rcases h with h | ⟨hw, h⟩
  · exact .inl (by rw [State.bare?, h]; rfl)
  · refine .inr ⟨hw, ?_⟩
    rw [State.bare?, h, State.bare?, Option.map_map, Option.map_map]
    rfl

theorem Made.same {v : Shape} {c : Call v} {x y : Task} (h : Made p c x) (hy : Task.Same x y) :
    Made p c y :=
  ⟨hy.status.trans h.status, hy.flag.trans h.flag, fun f hf => h.followers f (hy.followers ▸ hf)⟩

theorem Changed.still (h : Changed p C D E l m s N cs) (hs : Still M m m') :
    Changed p C D E l m' s N cs := by
  obtain ⟨ts, new, ht, hn, hm⟩ := h.tasks
  have hlen : m'.tasks.length = ts.length + new.length := by
    rw [← hs.tasks.length_eq, ht, List.length_append]
  have hsame := hs.tasks
  rw [ht] at hsame
  have hlen' : ts.length = (m'.tasks.take ts.length).length := by simp [hlen]
  have hold := List.forall₂_take ts.length hsame
  have hnew := List.forall₂_drop ts.length hsame
  rw [List.take_left] at hold
  rw [List.drop_left] at hnew
  refine ⟨?_, hs.next.trans h.next, hs.running.trans h.running, _, _,
    (List.take_append_drop ts.length m'.tasks).symm, hn.trans ⟨hlen'.symm, fun i x hx => ?_⟩, ?_⟩
  · rw [State.pool?, hs.pools]
    exact h.pool
  · obtain ⟨hi, rfl⟩ := List.getElem?_eq_some_iff.mp hx
    have hi' : i < (m'.tasks.take ts.length).length := hlen' ▸ hi
    obtain ⟨h₁, h₂, h₃⟩ := hold.get hi hi'
    simp only [List.get_eq_getElem] at h₁ h₂ h₃
    exact ⟨_, List.getElem?_eq_getElem hi', h₁ ▸ .same _, .inl h₂, fun f hf => .inl (h₃ ▸ hf)⟩
  · refine List.forall₂_iff_get.mpr ⟨hm.length_eq.trans hnew.length_eq, fun i hi hi' => ?_⟩
    have hj : i < new.length := hm.length_eq ▸ hi
    exact (hm.get hi hj).same (hnew.get hj hi')

theorem Still.changed (h : Still M l m) (hp : l.pool? p = some s) :
    Changed p C D E l m s l.nextConnection [] := (Changed.refl hp).still h

theorem Stirred.changed {S : Nat → Prop} (h : Stirred S l l') (hp : l.pool? p = some s) :
    ∃ s', s.Lull s' ∧ Changed p (fun _ => False) (fun i _ => S i) (fun _ _ => False) l l' s'
      l.nextConnection [] := by
  obtain ⟨s', hp', hs⟩ := h.pools p s hp
  refine ⟨s', hs, hp', h.next, h.running, l'.tasks, [], by simp, ⟨h.tasks.length, fun i x hx => ?_⟩, .nil⟩
  by_cases hi : S i
  · obtain ⟨y, hy, hn⟩ := h.nudges hx
    exact ⟨y, hy, hn.status.mono fun _ _ => hi, hn.flag, hn.followers⟩
  · exact ⟨x, (h.spared i hi).trans hx, .refl _ _ _ x⟩

theorem Stirred.outer {S : Nat → Prop} (h : Stirred S l l') : l'.outer = l.outer := by
  rw [State.outer, State.outer, h.managers, h.engine]

theorem Released.changed (h : Released p id l m s s' cs) :
    Changed p (fun _ => False) (fun _ _ => False) (fun _ _ => False) l m s' l.nextConnection cs := by
  cases h with
  | rests now _ hc => exact hc
  | leaves _ hc => exact hc

theorem Released.still (h : Released p id l m s s' cs) (hs : Still M m m') :
    Released p id l m' s s' cs := by
  cases h with
  | rests now hcl hc => exact .rests now hcl (hc.still hs)
  | leaves hcl hc => exact .leaves hcl (hc.still hs)

theorem State.release_released (hp : l.pool? p = some s) (hc : s.checkRelease id = .ok ()) :
    ∃ s' cs, Released p id l (l.release p id).1 s s' cs ∧ (l.release p id).2 = .ok () := by
  have hl : Changed p (fun _ => False) (fun _ _ => False) (fun _ _ => False) l l s l.nextConnection [] :=
    .refl hp
  simp only [State.release, hp, hc]
  split
  next hcl =>
    exact ⟨_, _, .leaves hcl ((hl.modifyPool fun s => s.setFree id).spawnBackground (.destroy p id)), rfl⟩
  next hcl =>
    exact ⟨_, _, .rests l.clock (Bool.eq_false_iff.mpr hcl) (hl.checkin id), rfl⟩

theorem Performs.changed (h : Performs M p d l m t s w s' cs n) :
    ∃ C D E, Changed p C D E l m s' m.nextConnection cs := by
  cases h with
  | acts _ _ hc => exact ⟨_, _, _, hc⟩
  | passes _ hc => exact ⟨_, _, _, hc.next.symm ▸ hc⟩
  | lends _ hc => exact ⟨_, _, _, hc.next.symm ▸ hc⟩
  | frees _ _ hc => exact ⟨_, _, _, hc.next.symm ▸ hc⟩
  | returns _ _ hr => exact ⟨_, _, _, hr.changed.next.symm ▸ hr.changed⟩

def Weight.borrowing : Weight where
  call
    | .acquire _ | .borrow _ | .execute _ _ _ | .executeAll _ _ _ | .block _ _ _ => 1
    | _ => 0
  rest
    | .opened _ | .inLine _ | .leased | .executing _ _ _ _ | .executed _ _ _ | .batching _ _ _ _
    | .batched _ _ _ _ _ _ | .blockEntered _ _ _ | .blockHeld _ _ _ => 1
    | _ => 0

/-- What holds of a manager over a pool whatever its clients do: its tasks are chains of callers, and the
sweep and the tasks that close the pool have nothing to do with connections of clients. -/
structure Grounded (M p : Nat) (d : Database) (l : State) (s : Pool.State) : Prop where
  tended : Tended M (.pool p d) l
  reaches : ∃ k, l.bare? M = some k ∧ k.pool = some p ∧ k.single = none
  pool : l.pool? p = some s
  source : s.source = .database d
  reaper : ∀ r, s.reaper = some r → r < l.tasks.length ∧ Weight.borrowing.of l r = 0
  shutting : s.closed = false → ∀ i, Weight.shutting.of l i = 0
  known : ∀ i ∈ s.connections.map (·.id), i < l.nextConnection
  once : (s.connections.map (·.id)).Nodup
  shut : ∀ t k, l.running = some ⟨t, .unit, .give (.ok ()), .push (.poolShut M) k⟩ → s.closed = true
  disabled : l.database? M = none → s.closed = true

namespace Grounded

variable (h : Grounded M p d l s)

include h in
theorem takes : l.Takes M (.pool p d) := by
  obtain ⟨_, hb, hp, hs⟩ := h.reaches
  obtain ⟨k, hk, rfl⟩ := Option.map_eq_some_iff.mp hb
  exact ⟨⟨k, hk, hp, hs⟩, s, h.pool, h.source⟩

include h in
theorem at_work (hr : l.running = some (w.on t k)) : ∃ x, l.tasks[t]? = some x ∧ x.status = .running := by
  have hx := (h.tended.running _ hr).2
  rwa [Work.on_task] at hx

include h in
theorem running_lt {r : Running} (hr : l.running = some r) : r.task < l.tasks.length := by
  obtain ⟨_, x, hx, _⟩ := h.tended.running r hr
  exact (List.getElem?_eq_some_iff.mp hx).1

include h in
theorem reaper_alone (hcl : s.closed = false) {r : Nat} (hr : s.reaper = some r) :
    ∃ x, l.tasks[r]? = some x ∧ x.Alone := by
  obtain ⟨hlt, hb⟩ := h.reaper r hr
  refine ⟨l.tasks[r], List.getElem?_eq_getElem hlt, ?_⟩
  intro w st hs
  have hx := List.getElem?_eq_getElem hlt
  have hc := h.tended.tasks r _ hx
  rw [hs] at hc
  cases hc with
  | paused hf _ =>
    have hwb := Sound.paused_weight (W := .borrowing) hx hs
    have hws := Sound.paused_weight (W := .shutting) hx hs
    rw [hb] at hwb
    rw [h.shutting hcl] at hws
    cases hf with
    | turn | givenUp => exact absurd hwb (Nat.not_succ_le_zero 0)
    | task | tasks => exact absurd hws (Nat.not_succ_le_zero 0)
    | sleep | dialled | sent | asked | blockHeld => trivial

include h in
theorem closing_closed (hr : l.running = some (w.on t k)) {v : Shape} {f : Frame v u} {o : Outcome v}
    (hw : w = .back f o) (hf : f.Closing) : s.closed = true := by
  cases hcl : s.closed with
  | true => rfl
  | false =>
    have hz := h.shutting hcl t
    rw [State.of_on hr (h.at_work hr), hw] at hz
    have hone : Weight.shutting.work (.back f o) = 1 := by
      cases f <;> first | rfl | cases hf
    omega

theorem currentTask_on (hr : l.running = some (w.on t k)) : l.currentTask = t := by
  simp [State.currentTask, State.current?, hr]

include h in
theorem giveBack_eq (a : Pool.Lease) : l.giveBack M (some a) = l.release p a.id := by
  obtain ⟨⟨b, hb, hbp, _⟩, _⟩ := h.takes
  simp only [State.giveBack, hb, Option.bind_some, hbp]

include h in
theorem performs (hr : l.running = some (w.on t k)) (hw : w.PartOf M (.pool p d) c)
    (hk : k.Bears M (.pool p d) c)
    (hb : ∀ x, w.Returns M (some x) → s.checkRelease x.id = .ok ()) :
    ∃ s' cs, Performs M p d l (w.perform l).1 t s w s' cs (w.perform l).2 ∧
      (w.perform l).2.Continues M (.pool p d) c ∧ Remains M (.pool p d) l w (w.perform l).1 := by
  have hl : Changed p (fun _ => False) (fun _ _ => False) (fun _ _ => False) l l s l.nextConnection [] :=
    .refl h.pool
  by_cases hp : w.Pooled
  · obtain ⟨n, s', N, cs, hn, ha, hc⟩ := Work.perform_actsOver hw hk hp h.pool h.source
      (fun hcl r => h.reaper_alone hcl) fun f o he hf => h.closing_closed hr he hf
    have ho := hp.outer (l := l)
    rw [currentTask_on hr, ← hc.next] at ha hc
    rw [hn]
    exact ⟨s', cs, .acts hp ha hc (congrArg Prod.snd ho), ha.continues hp hw, .inl (State.bare?_congr ho)⟩
  by_cases hx : w.Exchanges
  · cases hw with
    | call =>
      cases hk with
      | done hs => cases hs <;> cases hx
      | push hf _ => cases hf <;> cases hx
    | back o hf =>
      cases hf with
      | start => cases hx
      | paused hf => cases hf <;> cases hx
      | called hf =>
        cases hf with
        | leased => exact ⟨s, [], .lends o hl rfl, .give _ _, .inl rfl⟩
        | opened | registering | openedBackground | destroyed | evicting | swept | draining
        | connected | foreignKeysSet | journalSet | ran | executing | executed | batching | batched
        | blockEntered | poolShut | withinLeft => cases hx
  rcases Work.perform_does hw hk h.takes hp hx with ⟨hd, hs, hlast⟩ | ⟨lease, hret, ⟨o, ho⟩, hs, hop, hm⟩
  · exact ⟨s, [], .passes hd (hs.changed h.pool), hd.continues hw, hlast.remains⟩
  · have hbare : (w.perform l).1.bare? M = (l.giveBack M lease).1.bare? M := by
      rw [State.bare?, State.manager?, hm]
      rfl
    rw [ho]
    cases lease with
    | none => exact ⟨s, [], .frees o hret (hs.changed h.pool) hop, .give _ _, .inl hbare⟩
    | some x =>
      rw [h.giveBack_eq] at hs hop hbare
      obtain ⟨s', cs, hrel, _⟩ := State.release_released h.pool (hb x hret)
      rw [show (l.release p x.id).1.engine.opened = l.engine.opened from
        congrArg Prod.snd (l.outer_release p x.id)] at hop
      exact ⟨s', cs, .returns o hret (hrel.still hs) hop, .give _ _,
        .inl (hbare.trans (State.bare?_congr (l.outer_release p x.id)))⟩

include h in
theorem step_shift (hl : l.step? = some l')
    (hb : ∀ {u : Shape} {w : Work u} {t : Nat} {k : Stack u} {x : Pool.Lease},
      l.running = some (w.on t k) → w.Returns M (some x) → s.checkRelease x.id = .ok ()) :
    ∃ s', Shift M p d l s none l' s' := by
  cases hr : l.running with
  | some r =>
    rw [State.step_running hr hl]
    rcases r.cases_on with ⟨u, w, k, he⟩ | ⟨u, o, he⟩
    · rw [he] at hr ⊢
      obtain ⟨c, hw, hk⟩ := h.tended.work hr
      obtain ⟨s', cs, hp, hn, ho⟩ := h.performs hr hw hk fun x => hb hr
      rw [State.advance_on]
      exact ⟨s', .works hr hw hk hn hp ho rfl⟩
    · rw [he] at hr ⊢
      have hst := l.finish_stirs r.task o
      obtain ⟨s', hs, hc⟩ := hst.changed (s := s) (p := p) h.pool
      exact ⟨s', .beside (.ends hr hs hc (fun _ _ => id) hst.outer)⟩
  | none =>
    rcases State.idle_stirs hr hl with ⟨t, signal, st, x, hres⟩ | hst
    · exact ⟨s, .beside (.goesOn hr hres)⟩
    · obtain ⟨s', hs, hc⟩ := hst.changed h.pool
      exact ⟨s', .beside (.lull hr hs hc (fun _ _ => .inr) hst.outer)⟩

include h in
theorem cancel_shift (hr : l.running = none) (t : Nat) : ∃ s', Shift M p d l s none (l.cancel t) s' := by
  have hl : Changed p (fun _ => True) (fun _ e => e = .cancelled) (fun _ _ => False) l l s
      l.nextConnection [] := .refl h.pool
  obtain ⟨s', hs, hc⟩ := hl.cancel (t := t) trivial rfl fun _ _ _ _ => ⟨trivial, rfl⟩
  exact ⟨s', .beside (.lull hr hs hc (fun _ _ => .inl) (l.outer_cancel t))⟩

include h in
theorem answer_shift (hr : l.running = none) (t : Nat) :
    ∃ s', Shift M p d l s none (l.answerHeld t) s' := by
  have hl : Changed p (fun _ => False) (fun _ _ => False) (fun _ _ => False) l
      (l.modifyEngine fun e => e.letGo t) s l.nextConnection [] := (Changed.refl h.pool).apart rfl rfl rfl rfl
  refine ⟨s, .beside (.lull hr (.refl s) (hl.wake t (by simp)) (by simp) ?_)⟩
  rw [State.answerHeld, State.outer_wake]
  rfl

include h in
theorem outside_shift (hr : l.running = none) (hp : l'.pools = l.pools)
    (hn : l'.nextConnection = l.nextConnection) (hr' : l'.running = l.running)
    (ht : l'.tasks = l.tasks) (ho : l'.outer = l.outer) : Shift M p d l s none l' s :=
  .beside <| .lull (C := fun _ => False) (D := fun _ _ => False) hr (.refl s)
    ((Changed.refl h.pool).apart hp hn hr' ht) (by simp) ho

end Grounded

end SqliteAccess.Loop
