import SqliteAccess.Proofs.Access.Desk
import SqliteAccess.Proofs.Access.PoolSteps
import SqliteAccess.Proofs.Pool.Ownership

/-!
What tasks have borrowed, from step to step: a connection stays with its task until it is given back,
and no step of one task changes what another one has.
-/

namespace SqliteAccess.Loop

open Access (Database)

def Work.lease? : {u : Shape} → Work u → Option Pool.Lease
  | _, .call _ => none
  | _, .back f o => (borrowed o).or f.lease?

def Next.lease? {u : Shape} : Next u → Option Pool.Lease
  | .give o => borrowed o
  | .call _ f => f.lease?
  | .jump _ => none
  | .pause _ f | .again f => f.lease?

variable {M p t i O O' N N' : Nat} {way : Route} {d : Database} {l l' m : State} {s s' : Pool.State}
  {u : Shape} {w : Work u} {k : Stack u} {n : Next u} {c : Call u} {cs : List (Call .unit)}
  {C : Nat → Prop} {D : Nat → Failure → Prop} {E : Nat → Follower → Prop}

theorem borrowed_error (e : Failure) : borrowed (.error e : Outcome u) = none := by
  cases u <;> rfl

theorem borrowed_of_ne (hu : u ≠ .borrowed) (o : Outcome u) : borrowed o = none := by
  cases u with
  | borrowed => exact absurd rfl hu
  | _ => rfl

theorem Work.on_lease (w : Work u) (t : Nat) (k : Stack u) :
    (w.on t k).lease? = w.lease?.or k.lease? := by
  cases w with
  | call c => rfl
  | back f o => exact Option.or_assoc.symm

theorem State.lease?_at (hr : l.running = some (w.on t k))
    (hx : ∃ x, l.tasks[t]? = some x ∧ x.status = .running) : l.lease? t = w.lease?.or k.lease? := by
  obtain ⟨x, hx, hs⟩ := hx
  simp [State.lease?, hx, hs, Status.lease?, hr, w.on_lease]

theorem State.carryOn_lease (hx : ∃ x, m.tasks[t]? = some x ∧ x.status = .running) (n : Next u) (k : Stack u) :
    (m.carryOn t n k).lease? t = n.lease?.or k.lease? := by
  obtain ⟨x, hx, hs⟩ := hx
  cases n <;>
    simp [State.carryOn, State.lease?, hx, hs, Status.lease?, Running.lease?, Control.lease?,
      Next.lease?, Stack.lease?, State.modifyTask, State.enqueue]

theorem State.carryOn_lease_of_ne (hr : m.running = some (w.on t k)) (hi : i ≠ t) :
    (m.carryOn t n k).lease? i = m.lease? i := by
  cases n <;>
    simp [State.carryOn, State.lease?, State.modifyTask, State.enqueue, hr, hi.symm]

theorem Status.Nudge.lease {D : Failure → Prop} {x y : Status} (h : x.Nudge D y) :
    y.lease? = x.lease? := by
  cases h <;> rfl

theorem Made.lease {v : Shape} {c : Call v} {x : Task} (h : Made p c x) : x.status.lease? = none := by
  rw [h.status]
  rfl

theorem State.lease?_of_le (hlt : ∀ r, l.running = some r → r.task < l.tasks.length)
    (hi : l.tasks.length ≤ i) : l.lease? i = none := by
  rw [State.lease?, List.getElem?_eq_none hi]
  cases hr : l.running with
  | none => rfl
  | some r =>
    have := hlt r hr
    simp [show r.task ≠ i by omega]

theorem State.lease?_lt (hlt : ∀ r, l.running = some r → r.task < l.tasks.length) {x : Pool.Lease}
    (hi : l.lease? i = some x) : i < l.tasks.length := by
  by_contra hn
  rw [State.lease?_of_le hlt (Nat.le_of_not_lt hn)] at hi
  cases hi

theorem State.lease?_idle (hr : l.running = none) (i : Nat) :
    l.lease? i = (l.tasks[i]?).bind fun k => k.status.lease? := by
  simp [State.lease?, hr]

theorem Desk.Keeps.lease {x : Desk} {a : Pool.Lease} (hk : x.Keeps t a) (hr : x.loop.running = none) :
    x.lease? t = some a := by
  obtain ⟨ht, k, hk, hs⟩ := hk
  rw [Desk.lease?, if_neg ht, State.lease?_idle hr, hk, Option.bind_some, hs]
  rfl

theorem Desk.lease?_congr {x : Desk} {p : List State} (h : ∀ i, m.lease? i = x.loop.lease? i) :
    Desk.lease? ⟨m, x.returned, p⟩ = x.lease? :=
  funext fun i => congrArg (fun v => if i ∈ x.returned then none else v) (h i)

theorem Desk.lease?_returned (x : Desk) (t : Nat) :
    Desk.lease? { x with returned := t :: x.returned } = Function.update x.lease? t none := by
  funext i
  by_cases hi : i = t
  · subst hi
    simp [Desk.lease?]
  · simp [Desk.lease?, hi]

theorem State.Idle.lease (h : l.Idle) (i : Nat) : l.lease? i = none := by
  rw [State.lease?_idle h.1]
  cases hk : l.tasks[i]? with
  | none => rfl
  | some k => exact (h.2 i k hk).2.1

theorem State.Idle.tended (h : l.Idle) : Tended M way l := by
  refine ⟨fun r hr => ?_, fun i k hk => ?_⟩
  · cases h.1.symm.trans hr
  · obtain ⟨⟨_, o, hs⟩, _⟩ := h.2 i k hk
    rw [hs]
    exact .finished o

theorem State.lease?_congr (hr : l'.running = l.running)
    (ht : (l'.tasks[i]?).bind (fun x => x.status.lease?) = (l.tasks[i]?).bind fun x => x.status.lease?) :
    l'.lease? i = l.lease? i := by
  rw [State.lease?, State.lease?, hr, ht]

theorem State.lease?_nudged (hr : l'.running = l.running) (hn : Nudged C D E l.tasks l'.tasks) (i : Nat) :
    l'.lease? i = l.lease? i := by
  refine State.lease?_congr hr ?_
  cases hy : l.tasks[i]? with
  | none =>
    have hlen := hn.length
    rw [List.getElem?_eq_none_iff] at hy
    rw [List.getElem?_eq_none (by omega)]
  | some y =>
    obtain ⟨z, hz, hx⟩ := hn.task i y hy
    rw [hz]
    exact hx.status.lease

theorem Changed.lease? (hc : Changed p C D E l l' s N cs) (i : Nat) : l'.lease? i = l.lease? i := by
  refine State.lease?_congr hc.running ?_
  cases hy : l'.tasks[i]? with
  | none =>
    have hl := hc.length
    rw [List.getElem?_eq_none_iff] at hy
    rw [List.getElem?_eq_none (by omega)]
  | some y =>
    rcases hc.task_cases hy with ⟨x, hx, hn⟩ | ⟨c, _, hle, hm⟩
    · rw [hx]
      exact hn.status.lease
    · rw [List.getElem?_eq_none hle]
      exact hm.lease

theorem getElem?_append_alike {β : Type} {ts : List Task} {z : Task} {f : Option Task → β}
    (hz : f (some z) = f none) (i : Nat) : f ((ts ++ [z])[i]?) = f (ts[i]?) := by
  by_cases hi : i < ts.length
  · rw [List.getElem?_append_left hi]
  · rw [List.getElem?_append_right (Nat.le_of_not_lt hi), List.getElem?_eq_none (Nat.le_of_not_lt hi),
      List.getElem?_singleton]
    split
    · exact hz
    · rfl

theorem bind_getElem?_append {β : Type} {ts : List Task} {z : Task} {f : Task → Option β} (hz : f z = none)
    (i : Nat) : ((ts ++ [z])[i]?).bind f = (ts[i]?).bind f :=
  getElem?_append_alike (f := (·.bind f)) hz i

theorem any_getElem?_append {ts : List Task} {z : Task} {f : Task → Bool} (hz : f z = false) (i : Nat) :
    ((ts ++ [z])[i]?).any f = (ts[i]?).any f :=
  getElem?_append_alike (f := (·.any f)) hz i

theorem State.lease?_lay {o : Outcome u} (hr : l.running = some ⟨t, u, .give o, .done u⟩)
    (hx : ∃ x, l.tasks[t]? = some x ∧ x.status = .running) (i : Nat) : (l.lay t o).lease? i = l.lease? i := by
  obtain ⟨x, hx, hs⟩ := hx
  by_cases hi : t = i
  · subst hi
    simp [State.lease?, State.lay, State.modifyTask, hx, hr, hs, Status.lease?, Running.lease?,
      Control.lease?, Stack.lease?]
  · simp [State.lease?, State.lay, State.modifyTask, hr, hi]

theorem Resumed.lease? {signal : Option Failure} {st : Stack .unit} {x : Task} (hr : l.running = none)
    (h : Resumed l l' t signal st x) (i : Nat) : l'.lease? i = l.lease? i := by
  by_cases hi : t = i
  · subst hi
    have hb : borrowed (x.answer signal) = none := borrowed_of_ne (by simp) _
    simp [State.lease?, hr, h.running, h.tasks, h.task, h.ready, Status.lease?, Running.lease?,
      Control.lease?, hb]
  · simp [State.lease?, hr, h.running, h.tasks, hi]

theorem State.lease?_enter (hr : l.running = none) (c : Call u) (i : Nat) :
    (l.enter c).lease? i = l.lease? i := by
  simp only [State.lease?, State.enter, hr]
  rw [bind_getElem?_append rfl]
  simp [Running.lease?, Control.lease?, Stack.lease?]

theorem State.lease?_spawn (c : Call u) (i : Nat) : (l.spawn c []).1.lease? i = l.lease? i := by
  simp only [State.lease?, State.spawn, State.enqueue]
  rw [bind_getElem?_append rfl]

theorem Act.lease (h : Act p t N O s w s' N' cs n) (hw : w.Pooled) :
    w.lease? = none ∧ n.lease? = none := by
  have drains : ∀ {s : Pool.State} {rest : List Nat} {n : Next .unit}, Drains p s rest n →
      n.lease? = none := by
    intro s rest n hn
    cases hn <;> rfl
  cases h
  case started => cases hw
  case neverStarted => cases hw
  case lines hl => cases hl <;> exact ⟨rfl, rfl⟩
  case openFailed =>
    refine ⟨rfl, ?_⟩
    unfold orFailure
    split <;> rfl
  case evicts hn => cases hn <;> exact ⟨rfl, rfl⟩
  case evictsOn hn => cases hn <;> exact ⟨rfl, rfl⟩
  case reaps hn => cases hn <;> exact ⟨rfl, rfl⟩
  case sweptOver hn => cases hn <;> exact ⟨rfl, rfl⟩
  case shutsAtOnce hn => exact ⟨rfl, drains hn⟩
  case clears hn => exact ⟨rfl, drains hn⟩
  case drains hn => exact ⟨rfl, drains hn⟩
  all_goals exact ⟨rfl, rfl⟩

theorem Next.over_lease (d : Database) (n : Next u) : (n.over d).lease? = n.lease? := by
  cases n <;> rfl

theorem Deed.lease (h : Deed M O way w O' n) : n.lease? = w.lease? := by
  cases h
  case neverStarts => exact borrowed_error _
  case executingFails | batchingFails | blockFails => rfl
  all_goals first
    | rfl
    | simp [Next.lease?, Work.lease?, Frame.lease?, borrowed]

theorem Work.Returns.lease {lease : Option Pool.Lease} (h : w.Returns M lease) : w.lease? = lease := by
  cases h <;> simp [Work.lease?, Frame.lease?, borrowed]

theorem Stack.Bears.lease_none {k : Stack .borrowed} (h : k.Bears M way (.borrow M)) :
    k.lease? = none := by
  cases h with
  | done => rfl
  | push hf hk =>
    cases hf with
    | executing | batching | blockEntered =>
      cases hk with
      | done => rfl
      | push hf _ => cases hf

theorem Stack.Bears.alone (h : k.Bears M way c) (hu : u = .reply ∨ u = .answers ∨ u = .sighting) :
    k = .done u := by
  cases h with
  | done => rfl
  | push hf _ => cases hf <;> simp at hu

theorem Work.Returns.ends {lease : Option Pool.Lease} (h : w.Returns M lease) :
    u = .reply ∨ u = .answers ∨ u = .sighting := by
  cases h <;> simp

end SqliteAccess.Loop
