import SqliteAccess.Proofs.Access.Mutex
import SqliteAccess.Proofs.Access.Returning

/-!
Where tasks have got. A step takes the task at work further and leaves to the others where they are,
whatever they hear of.
-/

namespace SqliteAccess.Loop

open Access (Database)
open SqliteAccess.Pool (Lease)

/-- Where a task has got: something is to come back to its stack, or it is at work, or it has ended. -/
inductive Point where
  | waits (k : Stack .unit)
  | works {u : Shape} (x : Control u) (k : Stack u)
  | ended {u : Shape} (o : Outcome u)

def Point.lease? : Point → Option Lease
  | waits k => k.lease?
  | works x k => x.lease?.or k.lease?
  | ended o => borrowed o

def Status.point? : Status → Option Point
  | .ready _ k | .paused _ k => some (.waits k)
  | .running => none
  | .finished _ o => some (.ended o)

def Running.point (r : Running) : Point := .works r.control r.stack

def Next.point {u : Shape} (n : Next u) (k : Stack u) : Point :=
  match n with
  | .give o => .works (.give o) k
  | .call c f => .works (.call c) (.push f k)
  | .jump c => .works (.call c) k
  | .pause _ f | .again f => .waits (.push f k)

def State.point? (l : State) (i : Nat) : Option Point :=
  ((l.tasks[i]?).bind fun k => k.status.point?).or
    (l.running.bind fun r => if r.task = i then some r.point else none)

structure Undisturbed (l m : State) : Prop where
  running : m.running = l.running
  tasks : ∃ ts new, m.tasks = ts ++ new ∧
    Nudged (fun _ => True) (fun _ _ => True) (fun _ _ => True) l.tasks ts ∧
    ∀ k ∈ new, ∃ c : Call .unit, k.status = .ready none (.push (.start c) (.done .unit))

def Spared (S : Nat → Prop) (l l' : State) : Prop :=
  ∀ i, ¬ S i → l'.point? i = l.point? i ∨ l.tasks.length ≤ i ∧
    ∃ c : Call .unit, l'.point? i = some (.waits (.push (.start c) (.done .unit)))

/-- The task whose call is at work is marked so. -/
def State.AtWork (l : State) : Prop :=
  ∀ r, l.running = some r → ∃ x, l.tasks[r.task]? = some x ∧ x.status = .running

inductive Stride (l : State) : State → Prop
  | works {t : Nat} {u : Shape} {w : Work u} {k : Stack u} {l' : State} : l.running = some (w.on t k) →
      l' = (w.perform l).1.carryOn t (w.perform l).2 k → l'.point? t = some ((w.perform l).2.point k) →
      Spared (· = t) l l' → Stride l l'
  | ends {t : Nat} {u : Shape} {o : Outcome u} {l' : State} : l.running = some ⟨t, u, .give o, .done u⟩ →
      l'.running = none → l'.point? t = some (.ended o) → Spared (· = t) l l' → Stride l l'
  | goesOn {t : Nat} {o : Outcome .unit} {k : Stack .unit} {l' : State} : l.running = none →
      l.point? t = some (.waits k) → l'.running = some ⟨t, .unit, .give o, k⟩ →
      l'.point? t = some (.works (.give o) k) → Spared (· = t) l l' → Stride l l'
  | rests {l' : State} : l.running = none → l'.running = none → Spared (fun _ => False) l l' → Stride l l'

inductive Arrival (l : State) : State → Prop
  | enters {u : Shape} (c : Call u) {l' : State} : l'.running = some ⟨l.tasks.length, u, .call c, .done u⟩ →
      l'.point? l.tasks.length = some (.works (.call c) (.done u)) → Spared (· = l.tasks.length) l l' →
      Arrival l l'
  | spawns {u : Shape} (c : Call u) {l' : State} : l'.running = none →
      l'.point? l.tasks.length = some (.waits (.push (.start c) (.done u))) →
      Spared (· = l.tasks.length) l l' → Arrival l l'
  | rests {l' : State} : l'.running = none → Spared (fun _ => False) l l' → Arrival l l'

variable {careless : Prop} {M p t i : Nat} {way : Route} {l l' m : State} {u : Shape} {w : Work u}
  {k : Stack u} {n : Next u} {d : Call u} {c : Lease} {C : Nat → Prop} {D : Nat → Failure → Prop}
  {E : Nat → Follower → Prop} {x y : Desk}

theorem Next.point_lease (n : Next u) (k : Stack u) : (n.point k).lease? = n.lease?.or k.lease? := by
  cases n <;> rfl

theorem State.point?_congr (hr : l'.running = l.running)
    (ht : (l'.tasks[i]?).bind (fun x => x.status.point?) = (l.tasks[i]?).bind fun x => x.status.point?) :
    l'.point? i = l.point? i := by
  rw [State.point?, State.point?, hr, ht]

theorem State.point?_idle (hr : l.running = none) (i : Nat) :
    l.point? i = (l.tasks[i]?).bind fun k => k.status.point? := by
  simp [State.point?, hr]

theorem State.point?_at {r : Running} (hr : l.running = some r)
    (hx : ∃ x, l.tasks[r.task]? = some x ∧ x.status = .running) : l.point? r.task = some r.point := by
  obtain ⟨x, hx, hs⟩ := hx
  simp [State.point?, hx, hs, Status.point?, hr]

theorem State.point?_of_ne {r : Running} (hr : l.running = some r) (hi : r.task ≠ i) :
    l.point? i = (l.tasks[i]?).bind fun k => k.status.point? := by
  simp [State.point?, hr, hi]

theorem State.point?_of_le (hlt : ∀ r, l.running = some r → r.task < l.tasks.length)
    (hi : l.tasks.length ≤ i) : l.point? i = none := by
  rw [State.point?, List.getElem?_eq_none hi]
  cases hr : l.running with
  | none => rfl
  | some r =>
    have := hlt r hr
    simp [show r.task ≠ i by omega]

theorem Status.Nudge.point {D : Failure → Prop} {x y : Status} (h : x.Nudge D y) :
    y.point? = x.point? := by
  cases h <;> rfl

theorem Tended.lease?_eq (h : Tended M way l) (i : Nat) : l.lease? i = (l.point? i).bind Point.lease? := by
  have hone : ∀ y, l.tasks[i]? = some y → ∀ r, l.running = some r → r.task = i → y.status = .running := by
    rintro y hy r hr rfl
    obtain ⟨_, z, hz, hs⟩ := h.running r hr
    cases hy.symm.trans hz
    exact hs
  cases hr : l.running with
  | none =>
    rw [State.lease?_idle hr, State.point?_idle hr]
    cases hy : l.tasks[i]? with
    | none => rfl
    | some y =>
      obtain ⟨status, _, _, _⟩ := y
      cases status <;> rfl
  | some r =>
    by_cases hi : r.task = i
    · obtain ⟨_, hx⟩ := h.running r hr
      rw [← hi, State.point?_at hr hx]
      obtain ⟨z, hz, hs⟩ := hx
      simp only [State.lease?, hz, hs, hr, Option.bind_some, if_pos]
      rfl
    · rw [State.point?_of_ne hr hi]
      simp only [State.lease?, hr, Option.bind_some, hi, if_false, Option.or_none]
      cases hy : l.tasks[i]? with
      | none => rfl
      | some y =>
        obtain ⟨status, _, _, _⟩ := y
        cases status <;> rfl

theorem State.singleOf_outer (h : m.outer = l.outer) : m.singleOf M = l.singleOf M := by
  have eq : ∀ l : State, l.singleOf M = (l.bare? M).bind (·.single) := fun l => by
    rw [singleOf, bare?]
    cases l.manager? M <;> rfl
  rw [eq, eq, State.bare?_congr h]

theorem State.singleOf_carryOn (l : State) (t : Nat) (n : Next u) (k : Stack u) (M : Nat) :
    (l.carryOn t n k).singleOf M = l.singleOf M := by
  cases n <;> rfl

theorem State.carryOn_point_of_ne (n : Next u) (k : Stack u) (hi : t ≠ i) :
    (m.carryOn t n k).point? i = (m.tasks[i]?).bind fun k => k.status.point? := by
  cases n <;> simp [State.carryOn, State.point?, State.modifyTask, State.enqueue, hi]

namespace Undisturbed

theorem nudged (hr : m.running = l.running) (hn : Nudged C D E l.tasks m.tasks) : Undisturbed l m :=
  ⟨hr, m.tasks, [], by simp, hn.mono (fun _ _ => trivial) (fun _ _ _ => trivial) (fun _ _ _ => trivial),
    fun _ hk => (List.not_mem_nil hk).elim⟩

theorem refl (l : State) : Undisturbed l l := nudged (C := fun _ => True) (D := fun _ _ => True)
  (E := fun _ _ => True) rfl (.refl _ _ _ _)

theorem of_eq (hr : m.running = l.running) (ht : m.tasks = l.tasks) : Undisturbed l m :=
  nudged (C := fun _ => True) (D := fun _ _ => True) (E := fun _ _ => True) hr (ht ▸ .refl _ _ _ _)

theorem changed {s : Pool.State} {N : Nat} {cs : List (Call .unit)} (h : Changed p C D E l m s N cs) :
    Undisturbed l m := by
  obtain ⟨ts, new, ht, hn, hm⟩ := h.tasks
  refine ⟨h.running, ts, new, ht,
    hn.mono (fun _ _ => trivial) (fun _ _ _ => trivial) (fun _ _ _ => trivial), fun k hk => ?_⟩
  obtain ⟨i, hi, rfl⟩ := List.getElem_of_mem hk
  have hi' : i < cs.length := hm.length_eq ▸ hi
  exact ⟨cs[i], (hm.get hi' hi).status⟩

theorem length (h : Undisturbed l m) : l.tasks.length ≤ m.tasks.length := by
  obtain ⟨ts, new, ht, hn, _⟩ := h.tasks
  rw [ht, List.length_append, hn.length]
  exact Nat.le_add_right _ _

theorem task (h : Undisturbed l m) {y : Task} (hy : l.tasks[i]? = some y) :
    ∃ z, m.tasks[i]? = some z ∧ y.status.Nudge (fun _ => True) z.status := by
  obtain ⟨ts, new, ht, hn, _⟩ := h.tasks
  obtain ⟨z, hz, hx⟩ := hn.task i y hy
  refine ⟨z, ?_, hx.status⟩
  rw [ht, List.getElem?_append_left (List.getElem?_eq_some_iff.mp hz).1]
  exact hz

theorem running_at (h : Undisturbed l m) (hx : ∃ x, l.tasks[t]? = some x ∧ x.status = .running) :
    ∃ x, m.tasks[t]? = some x ∧ x.status = .running := by
  obtain ⟨y, hy, hs⟩ := hx
  obtain ⟨z, hz, hn⟩ := h.task hy
  refine ⟨z, hz, ?_⟩
  rw [hs] at hn
  generalize z.status = s at hn ⊢
  cases hn
  rfl

theorem status_point (h : Undisturbed l m) (i : Nat) :
    (m.tasks[i]?).bind (fun k => k.status.point?) = (l.tasks[i]?).bind (fun k => k.status.point?) ∨
      l.tasks.length ≤ i ∧ ∃ c : Call .unit,
        (m.tasks[i]?).bind (fun k => k.status.point?) = some (.waits (.push (.start c) (.done .unit))) := by
  cases hy : l.tasks[i]? with
  | some y =>
    obtain ⟨z, hz, hn⟩ := h.task hy
    rw [hz]
    exact .inl hn.point
  | none =>
    have hle := List.getElem?_eq_none_iff.mp hy
    obtain ⟨ts, new, ht, hn, hnew⟩ := h.tasks
    rw [ht, List.getElem?_append_right (hn.length ▸ hle)]
    cases hz : new[i - ts.length]? with
    | none => exact .inl rfl
    | some z =>
      obtain ⟨c, hc⟩ := hnew z (List.mem_of_getElem? hz)
      exact .inr ⟨hle, c, by simp [hc, Status.point?]⟩

theorem spared (h : Undisturbed l m) : Spared (fun _ => False) l m := by
  intro i _
  rcases h.status_point i with hp | ⟨hle, c, hp⟩
  · exact .inl (State.point?_congr h.running hp)
  · refine .inr ⟨hle, c, ?_⟩
    rw [State.point?, hp]
    rfl

theorem carryOn (h : Undisturbed l m) (hr : l.running = some (w.on t k)) (n : Next u) :
    Spared (· = t) l (m.carryOn t n k) := by
  intro i hi
  have hr' : m.running = some (w.on t k) := h.running.trans hr
  have hne : t ≠ i := fun he => hi he.symm
  have hl : l.point? i = (l.tasks[i]?).bind fun k => k.status.point? :=
    State.point?_of_ne hr (by rw [Work.on_task]; exact hne)
  rw [hl, State.carryOn_point_of_ne n k hne]
  exact h.status_point i

end Undisturbed

theorem State.carryOn_point (hx : ∃ x, m.tasks[t]? = some x ∧ x.status = .running) (n : Next u)
    (k : Stack u) : (m.carryOn t n k).point? t = some (n.point k) := by
  obtain ⟨x, hx, hs⟩ := hx
  cases n <;>
    simp [State.carryOn, State.point?, hx, hs, Status.point?, Running.point, Next.point,
      State.modifyTask, State.enqueue]

theorem Stirred.undisturbed {S : Nat → Prop} (h : Stirred S l l') : Undisturbed l l' :=
  .nudged h.running h.tasks

theorem State.lay_point {o : Outcome u} (hr : l.running = some ⟨t, u, .give o, .done u⟩)
    (hx : ∃ x, l.tasks[t]? = some x ∧ x.status = .running) :
    (l.lay t o).point? t = some (.ended o) ∧ Spared (· = t) l (l.lay t o) := by
  obtain ⟨x, hx, hs⟩ := hx
  refine ⟨by simp [State.lay, State.point?, State.modifyTask, hx, Status.point?], fun i hi => .inl ?_⟩
  have hne : t ≠ i := fun he => hi he.symm
  rw [State.point?_of_ne hr hne]
  simp [State.lay, State.point?, State.modifyTask, hne]

theorem Spared.then {S : Nat → Prop} (h : Spared S l m) (h' : Spared (fun _ => False) m l')
    (hlen : l.tasks.length ≤ m.tasks.length) : Spared S l l' := by
  intro i hi
  rcases h' i id with he | ⟨hle, c, hc⟩
  · rcases h i hi with hp | ⟨hle, c, hc⟩
    · exact .inl (he.trans hp)
    · exact .inr ⟨hle, c, he.trans hc⟩
  · exact .inr ⟨hlen.trans hle, c, hc⟩

theorem State.AtWork.step_stride (h : l.AtWork) (hl : l.step? = some l')
    (hw : ∀ {u : Shape} {w : Work u} {t : Nat} {k : Stack u}, l.running = some (w.on t k) →
      Undisturbed l (w.perform l).1) : Stride l l' := by
  cases hr : l.running with
  | some r =>
    rw [State.step_running hr hl]
    rcases r.cases_on with ⟨u, w, k, he⟩ | ⟨u, o, he⟩
    · have hx := h r hr
      rw [he] at hr ⊢
      have hu := hw hr
      rw [State.advance_on]
      exact .works hr rfl (State.carryOn_point (hu.running_at hx) _ _) (hu.carryOn hr _)
    · have hx := h r hr
      rw [he] at hr ⊢
      obtain ⟨hp, hs⟩ := State.lay_point hr hx
      have hst := (l.finish_stirs r.task o).undisturbed
      have hlay : (l.lay r.task o).running = none := rfl
      refine .ends hr (hst.running.trans hlay) ?_
        (hs.then hst.spared (by simp [State.lay, State.modifyTask]))
      rcases hst.spared r.task id with he | ⟨hle, _⟩
      · exact he.trans hp
      · obtain ⟨x, hx, _⟩ := hx
        have := (List.getElem?_eq_some_iff.mp hx).1
        simp only [State.lay, State.modifyTask, List.length_modify] at hle
        omega
  | none =>
    rcases State.idle_stirs hr hl with ⟨t, signal, st, x, hres⟩ | hst
    · have hx : l.point? t = some (.waits st) := by
        rw [State.point?_idle hr, hres.task, Option.bind_some, hres.ready]
        rfl
      refine .goesOn hr hx hres.running ?_ fun i hi => .inl ?_
      · simp [State.point?, hres.running, hres.tasks, hres.task, Status.point?, Running.point]
      · have hne : t ≠ i := fun he => hi he.symm
        rw [State.point?_of_ne hres.running hne, State.point?_idle hr, hres.tasks,
          List.getElem?_modify_ne _ _ hne]
    · exact .rests hr (hst.running.trans hr) hst.undisturbed.spared

theorem Tended.atWork (h : Tended M way l) : l.AtWork := fun r hr => (h.running r hr).2

theorem Tended.step_stride (h : Tended M way l) (hl : l.step? = some l')
    (hw : ∀ {u : Shape} {w : Work u} {t : Nat} {k : Stack u}, l.running = some (w.on t k) →
      Undisturbed l (w.perform l).1) : Stride l l' := h.atWork.step_stride hl hw

namespace Undisturbed

theorem trans (h : Undisturbed l m) (h' : Undisturbed m l') : Undisturbed l l' := by
  obtain ⟨ts, new, ht, hn, hnew⟩ := h.tasks
  obtain ⟨ts', new', ht', hn', hnew'⟩ := h'.tasks
  rw [ht] at hn'
  have hlen : ts'.length = ts.length + new.length := by rw [hn'.length, List.length_append]
  refine ⟨h'.running.trans h.running, ts'.take ts.length, ts'.drop ts.length ++ new', ?_,
    hn.trans ⟨by simp [hlen], fun i y hy => ?_⟩, fun y hy => ?_⟩
  · rw [← List.append_assoc, List.take_append_drop]
    exact ht'
  · have hi := (List.getElem?_eq_some_iff.mp hy).1
    obtain ⟨z, hz, hx⟩ := hn'.task i y (by rw [List.getElem?_append_left hi]; exact hy)
    exact ⟨z, by rw [List.getElem?_take_of_lt hi]; exact hz, hx⟩
  · rcases List.mem_append.mp hy with hy | hy
    · obtain ⟨j, hj⟩ := List.getElem?_of_mem hy
      rw [List.getElem?_drop] at hj
      have hlt := (List.getElem?_eq_some_iff.mp hj).1
      have hj' : j < new.length := by omega
      obtain ⟨c, hc⟩ := hnew _ (List.getElem_mem hj')
      obtain ⟨z, hz, hx⟩ := hn'.task (ts.length + j) new[j] (by
        rw [List.getElem?_append_right (Nat.le_add_right _ _), Nat.add_sub_cancel_left]
        exact List.getElem?_eq_getElem hj')
      cases hj.symm.trans hz
      have hst := hx.status
      rw [hc] at hst
      refine ⟨c, ?_⟩
      generalize y.status = v at hst ⊢
      cases hst
      rfl
    · exact hnew' y hy

theorem wake (h : Undisturbed l m) (hm : m.tasks = l.tasks) (t : Nat) (signal : Option Failure) :
    Undisturbed l (m.wake t signal) := by
  refine .nudged (C := fun _ => True) (D := fun _ _ => True) (E := fun _ _ => True)
    ((State.wake_running m t signal).trans h.running) ?_
  rw [← hm]
  exact m.wake_nudged t fun _ _ => trivial

theorem setLock (h : Undisturbed l m) (hm : m.tasks = l.tasks) (M : Nat)
    (f : Access.Lock → Access.Lock × Option Nat) : Undisturbed l (m.setLock M f) := by
  unfold State.setLock
  split
  · exact h
  · dsimp only
    split
    · exact wake (m := m.modifyManager _ _) ⟨h.running, h.tasks⟩ hm _ _
    · exact ⟨h.running, h.tasks⟩

end Undisturbed

theorem Still.undisturbed (h : Still M l m) : Undisturbed l m :=
  .nudged (C := fun _ => True) (D := fun _ _ => True) (E := fun _ _ => True) h.running h.nudged

theorem State.release_undisturbed (l : State) (p id : Nat) : Undisturbed l (l.release p id).1 := by
  unfold State.release
  split
  · exact .refl l
  next s hs =>
    split
    · exact .refl l
    · split
      · exact .changed (((Changed.refl (C := fun _ => True) (D := fun _ _ => True) (E := fun _ _ => True)
          hs).modifyPool fun s => s.setFree id).spawnBackground (.destroy p id))
      · exact .changed ((Changed.refl (C := fun _ => True) (D := fun _ _ => True) (E := fun _ _ => True)
          hs).checkin id)

theorem State.giveBack_undisturbed (l : State) (M : Nat) (lease : Option Lease) :
    Undisturbed l (l.giveBack M lease).1 := by
  unfold State.giveBack
  split
  · exact .refl l
  · split
    · exact l.release_undisturbed _ _
    · have hs : ∀ id, Undisturbed l (l.setStandaloneUse id false) := fun _ => .of_eq rfl rfl
      unfold State.releaseSingle
      dsimp only
      split
      · exact .refl l
      · split
        · split
          · exact (hs _).setLock rfl M Access.Lock.release
          · exact .of_eq rfl rfl
        · exact .refl l

theorem State.wakeInLine_nudged (l : State) (t : Nat) (signal : Option Failure) :
    (l.wakeInLine t signal).running = l.running ∧
      Nudged (fun _ => True) (fun _ _ => True) (fun _ _ => True) l.tasks (l.wakeInLine t signal).tasks := by
  unfold State.wakeInLine
  split
  · exact ⟨(State.wake_running _ t signal).trans rfl,
      (l.dropTimer _).wake_nudged t fun _ _ => trivial⟩
  · exact ⟨State.wake_running _ t signal, l.wake_nudged t fun _ _ => trivial⟩

theorem State.cancelWithin_undisturbed (l : State) (t depth : Nat) :
    (l.cancelWithin t depth).running = l.running ∧
      Nudged (fun _ => True) (fun _ _ => True) (fun _ _ => True) l.tasks (l.cancelWithin t depth).tasks := by
  have request : ∀ (l : State) (t : Nat), (l.requestCancel t).running = l.running ∧
      Nudged (fun _ => True) (fun _ _ => True) (fun _ _ => True) l.tasks (l.requestCancel t).tasks :=
    fun l t => ⟨rfl, .modify fun k _ => ⟨.same _, .inr trivial, fun _ hf => .inl hf⟩⟩
  induction depth generalizing l t with
  | zero => exact request l t
  | succ depth ih =>
    have hall : ∀ (ts : List Nat) (m : State),
        (ts.foldl (fun l k => l.cancelWithin k depth) m).running = m.running ∧
          Nudged (fun _ => True) (fun _ _ => True) (fun _ _ => True) m.tasks
            (ts.foldl (fun l k => l.cancelWithin k depth) m).tasks := by
      intro ts
      induction ts with
      | nil => exact fun m => ⟨rfl, .refl _ _ _ _⟩
      | cons k ts ih' =>
        intro m
        obtain ⟨hr, hn⟩ := ih m k
        obtain ⟨hr', hn'⟩ := ih' (m.cancelWithin k depth)
        exact ⟨hr'.trans hr, hn.trans hn'⟩
    unfold State.cancelWithin
    cases hk : l.tasks[t]? with
    | none => exact ⟨rfl, .refl _ _ _ _⟩
    | some y =>
      obtain ⟨status, context, flag, followers⟩ := y
      cases status with
      | ready | running => exact request l t
      | finished => exact ⟨rfl, .refl _ _ _ _⟩
      | paused w st =>
        cases w with
        | task r =>
          dsimp only
          split
          · exact request l t
          · exact ih l r
        | tasks ts b =>
          obtain ⟨hr, hn⟩ := hall ts
            (l.modifyTask t fun k => { k with status := .paused (.tasks ts true) st })
          refine ⟨hr, Nudged.trans (.modify fun k' hk' => ?_) hn⟩
          cases hk.symm.trans hk'
          exact ⟨.recounted ts ts b true st, .inl rfl, fun _ hf => .inl hf⟩
        | turn | givenUp | opening | closing | held | sleep | lock =>
          exact State.wakeInLine_nudged _ t _

theorem Undisturbed.arrival (h : Undisturbed l m) (hr : l.running = none) : Arrival l m :=
  .rests (h.running.trans hr) h.spared

theorem State.enter_arrival (hr : l.running = none) (c : Call u) : Arrival l (l.enter c) := by
  refine .enters c rfl ?_ fun i hi => .inl ?_
  · simp [State.enter, State.point?, Status.point?, Running.point]
  · rw [State.point?_of_ne (r := ⟨l.tasks.length, _, .call c, .done _⟩) rfl (Ne.symm hi),
      State.point?_idle hr]
    by_cases hlt : i < l.tasks.length
    · simp [State.enter, List.getElem?_append_left hlt]
    · rw [List.getElem?_eq_none (Nat.le_of_not_lt hlt), List.getElem?_eq_none]
      have : i ≠ l.tasks.length := hi
      simp only [State.enter, List.length_append, List.length_singleton]
      omega

theorem State.spawn_arrival (hr : l.running = none) (c : Call u) : Arrival l (l.spawn c []).1 := by
  have hr' : (l.spawn c []).1.running = none := hr
  refine .spawns c hr' ?_ fun i hi => .inl ?_
  · simp [State.spawn, State.enqueue, State.point?, Status.point?]
  · rw [State.point?_idle hr', State.point?_idle hr]
    by_cases hlt : i < l.tasks.length
    · simp [State.spawn, State.enqueue, List.getElem?_append_left hlt]
    · rw [List.getElem?_eq_none (Nat.le_of_not_lt hlt), List.getElem?_eq_none]
      have : i ≠ l.tasks.length := hi
      simp only [State.spawn, State.enqueue, List.length_append, List.length_singleton]
      omega

theorem Desk.Step.arrival (hs : x.Step M way careless y) :
    x.loop.step? = some y.loop ∧ y.past = x.past ++ [x.loop] ∨
      x.loop.running = none ∧ y.past = x.past ∧ Arrival x.loop y.loop := by
  cases hs with
  | loop hl => exact .inl ⟨hl, rfl⟩
  | enter hr | runs _ _ _ hr | destroy _ _ hr => exact .inr ⟨hr, rfl, State.enter_arrival hr _⟩
  | spawn hr | plans _ _ _ hr => exact .inr ⟨hr, rfl, State.spawn_arrival hr _⟩
  | giveBack hr | release _ _ hr => exact .inr ⟨hr, rfl, (State.giveBack_undisturbed ..).arrival hr⟩
  | cancel t hr =>
    obtain ⟨hr', hn⟩ := x.loop.cancelWithin_undisturbed t x.loop.tasks.length
    exact .inr ⟨hr, rfl, (Undisturbed.nudged hr' hn).arrival hr⟩
  | @answer t _ _ hr =>
    have hu : Undisturbed x.loop (x.loop.modifyEngine fun e => e.letGo t) := .of_eq rfl rfl
    exact .inr ⟨hr, rfl, (hu.wake rfl t none).arrival hr⟩
  | engine _ _ _ hr | tick _ hr => exact .inr ⟨hr, rfl, Undisturbed.arrival (.of_eq rfl rfl) hr⟩
  | forget _ hr => exact .inr ⟨hr, rfl, (Undisturbed.refl _).arrival hr⟩

theorem Desk.Lent.undisturbed {b : Database} {s : Pool.State} (h : x.Lent M p b s)
    (hr : x.loop.running = some (w.on t k)) : Undisturbed x.loop (w.perform x.loop).1 := by
  obtain ⟨e, hw, hk⟩ := h.tended.work hr
  obtain ⟨s', cs, hp, _⟩ := h.toGrounded.performs hr hw hk fun a hret => by
    refine (h.used (t := t) ?_).check
    rw [h.lease_on hr, hret.lease]
    rfl
  obtain ⟨_, _, _, hc⟩ := hp.changed
  exact .changed hc

theorem Work.Exchanges.undisturbed (hx : w.Exchanges) (l : State) : Undisturbed l (w.perform l).1 := by
  cases w with
  | call e =>
    cases e with
    | lock m =>
      simp only [Work.perform, begin, State.lock]
      split
      · exact .refl l
      · split
        · exact .of_eq rfl rfl
        · exact .of_eq rfl rfl
    | _ => cases hx
  | back f o =>
    cases f with
    | leased => exact .refl l
    | letIn m =>
      cases o with
      | error e =>
        have hu : ∀ f, Undisturbed l (l.modifyManager m f) := fun _ => .of_eq rfl rfl
        exact (hu _).setLock rfl m fun k => if k.locked then (k, none) else k.letIn
      | ok _ => exact .of_eq rfl rfl
    | lockedToUse m =>
      cases o with
      | error e => exact .refl l
      | ok _ =>
        simp only [Work.perform, resume, State.lockedToUse]
        split
        · exact .refl l
        · exact .of_eq rfl rfl
    | lockedToClose m =>
      cases o with
      | error e => exact .refl l
      | ok _ =>
        simp only [Work.perform, resume, State.lockedToClose]
        split
        · exact .refl l
        · exact (Undisturbed.refl l).setLock rfl m Access.Lock.release
    | singleClosed m =>
      have hu : Undisturbed l (l.unlock m) := (Undisturbed.refl l).setLock rfl m Access.Lock.release
      cases o with
      | error e => exact hu
      | ok _ => exact ⟨hu.running, hu.tasks⟩
    | _ => cases hx

theorem Desk.Guarded.undisturbed (h : x.Guarded careless M c) (hr : x.loop.running = some (w.on t k)) :
    Undisturbed x.loop (w.perform x.loop).1 := by
  obtain ⟨e, hw, hk⟩ := h.tended.work hr
  by_cases hx : w.Exchanges
  · exact hx.undisturbed x.loop
  · rcases Work.perform_does hw hk h.manager (hw.unpooled hk) hx with hd | ⟨lease, hg⟩
    · exact hd.still.undisturbed
    · exact (x.loop.giveBack_undisturbed M lease).trans hg.still.undisturbed

end SqliteAccess.Loop
