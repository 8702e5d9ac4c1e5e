import SqliteAccess.Proofs.Access.Lending

/-!
What becomes of a connection that is given back to its pool, and that whoever gives back what it has
borrowed does not fail in this.
-/

namespace SqliteAccess.Loop

open Access (Database)
open SqliteAccess.Pool (Lease)

/-- A connection has been given back: it rests, or the caller that has waited longest has been handed it,
or, where the pool has been closed, a task has been made that destroys it. -/
inductive Rehoused (p id : Nat) (l l' : State) : Prop
  | rests {s s' : Pool.State} : l.pool? p = some s → l'.pool? p = some s' → s.closed = false →
      (∀ w ∈ s.waiters, w.pending = false) → s'.idle = s.idle ++ [id] → s'.UsedAs false id →
      Rehoused p id l l'
  | passes {s s' : Pool.State} (before : List Pool.Waiter) (w : Pool.Waiter) (rest : List Pool.Waiter) :
      l.pool? p = some s → l'.pool? p = some s' → s.closed = false →
      s.waiters = before ++ w :: rest → (∀ x ∈ before, x.pending = false) → w.pending = true →
      s'.waiters = rest → s'.handed = s.handed ++ [(w.task, id)] → s'.UsedAs true id →
      Rehoused p id l l'
  | leaves {s s' : Pool.State} {k : Task} : l.pool? p = some s → l'.pool? p = some s' →
      s.closed = true → s'.UsedAs false id → l.tasks.length ∈ s'.background →
      l'.tasks[l.tasks.length]? = some k → Made p (.destroy p id) k → Rehoused p id l l'

variable {M p t id : Nat} {d : Database} {l m l' : State} {s s' : Pool.State} {u : Shape}
  {cs : List (Call .unit)} {a : Lease}

theorem Changed.made {C : Nat → Prop} {D : Nat → Failure → Prop} {E : Nat → Follower → Prop} {N i : Nat}
    {c : Call .unit} (h : Changed p C D E l m s N cs) (hc : cs[i]? = some c) :
    ∃ k, m.tasks[l.tasks.length + i]? = some k ∧ Made p c k := by
  obtain ⟨ts, new, ht, hn, hm⟩ := h.tasks
  obtain ⟨hi, rfl⟩ := List.getElem?_eq_some_iff.mp hc
  have hi' : i < new.length := hm.length_eq ▸ hi
  refine ⟨new[i], ?_, hm.get hi hi'⟩
  rw [ht, List.getElem?_append_right (by rw [hn.length]; exact Nat.le_add_right _ _), hn.length,
    Nat.add_sub_cancel_left]
  exact List.getElem?_eq_getElem hi'

theorem Released.rehoused (h : Released p id l m s s' cs) (hp : l.pool? p = some s) (hu : s.UsedAs true id)
    (ht : l'.tasks = m.tasks) (hl : l'.pools = m.pools) : Rehoused p id l l' := by
  have hp' : l'.pool? p = some s' := by
    rw [State.pool?, hl]
    exact h.changed.pool
  cases h with
  | rests now hcl hc =>
    have hs := s.checkin_spec id now
    generalize (s.checkin id now).1 = s' at hp' hs
    cases hs with
    | serves before w rest hw hb hpw =>
      refine .passes before w rest hp hp' hcl hw hb hpw rfl rfl ?_
      exact Pool.State.usedAs_update (fun _ => ⟨rfl, rfl⟩) (fun _ => rfl) hu
    | rests hn =>
      refine .rests hp hp' hcl hn rfl ?_
      exact Pool.State.usedAs_update (fun _ => ⟨rfl, rfl⟩) (fun _ => rfl) hu
  | leaves hcl hc =>
    obtain ⟨k, hk, hm⟩ := hc.made (i := 0) rfl
    refine .leaves hp hp' hcl (Pool.State.usedAs_update (fun _ => ⟨rfl, rfl⟩) (fun _ => rfl) hu)
      (List.mem_append_right _ (List.mem_singleton.mpr rfl)) ?_ hm
    rw [ht]
    exact hk

theorem Rehoused.closed (h : Rehoused p id l l') (hp : l.pool? p = some s) (hc : s.closed = true) :
    ∃ k, l'.tasks[l.tasks.length]? = some k ∧ Made p (.destroy p id) k := by
  cases h with
  | rests hs _ ho => cases hp.symm.trans hs; cases hc.symm.trans ho
  | passes _ _ _ hs _ ho => cases hp.symm.trans hs; cases hc.symm.trans ho
  | leaves _ _ _ _ _ hk hm => exact ⟨_, hk, hm⟩

namespace Grounded

variable (h : Grounded M p d l s)

include h in
theorem endCall_returns (hu : s.UsedAs true a.id) (restores : Bool) (o : Outcome u) :
    ∃ m s' cs, l.endCall M (some a) restores o = (m, .give o) ∧ Released p a.id l m s s' cs := by
  obtain ⟨s', cs, hrel, hok⟩ := State.release_released h.pool hu.check
  refine ⟨_, s', cs, ?_, hrel.still (M := M) ((Still.refl _).leaveScope restores)⟩
  simp only [State.endCall, State.endBlock, h.giveBack_eq]
  generalize l.release p a.id = x at hok
  obtain ⟨m, r⟩ := x
  cases hok
  rfl

end Grounded

end SqliteAccess.Loop
