import Mathlib.Algebra.GroupWithZero.Nat
import Mathlib.Algebra.Order.BigOperators.Group.Finset
import SqliteAccess.Proofs.Loop.Perform

/-!
Weights count what is under way: a weight is given to calls that have not begun and to what is left
of those that have, and adds up over the stack of a task and over all tasks.
-/

namespace SqliteAccess.Loop

structure Weight where
  call : {s : Shape} → Call s → Nat
  rest : {s t : Shape} → Frame s t → Nat

namespace Weight

variable (W : Weight)

def frame : {s t : Shape} → Frame s t → Nat
  | _, _, .start c => W.call c
  | _, _, f => W.rest f

def stack : {s : Shape} → Stack s → Nat
  | _, .done _ => 0
  | _, .push f k => W.frame f + stack k

def status : Status → Nat
  | .ready _ k | .paused _ k => W.stack k
  | .running | .finished _ _ => 0

def control {s : Shape} : Control s → Nat
  | .call c => W.call c
  | .give _ => 0

def running (r : Running) : Nat := W.control r.control + W.stack r.stack

def of (l : State) (t : Nat) : Nat :=
  ((l.tasks[t]?).map fun k => W.status k.status).getD 0 +
    (l.running.map fun r => if r.task = t then W.running r else 0).getD 0

def total (l : State) : Nat := ∑ t ∈ Finset.range l.tasks.length, W.of l t

def work {u : Shape} : Work u → Nat
  | .call c => W.call c
  | .back f _ => W.frame f

def next {u : Shape} : Next u → Nat
  | .give _ => 0
  | .call c f => W.call c + W.frame f
  | .jump c => W.call c
  | .pause _ f | .again f => W.frame f

end Weight

structure Weight.Below (V W : Weight) : Prop where
  call : ∀ {s : Shape} (c : Call s), V.call c ≤ W.call c
  rest : ∀ {s t : Shape} (f : Frame s t), V.rest f ≤ W.rest f

namespace Weight.Below

variable {V W : Weight}

theorem stack (h : V.Below W) {s : Shape} (k : Stack s) : V.stack k ≤ W.stack k := by
  induction k with
  | done => exact Nat.le_refl _
  | push f k ih =>
    have hf : V.frame f ≤ W.frame f := by
      cases f with
      | start c => exact h.call c
      | _ => exact h.rest _
    exact Nat.add_le_add hf ih

theorem running (h : V.Below W) (r : Running) : V.running r ≤ W.running r := by
  refine Nat.add_le_add ?_ (h.stack r.stack)
  cases r.control with
  | call c => exact h.call c
  | give o => exact Nat.le_refl _

theorem status (h : V.Below W) (x : Status) : V.status x ≤ W.status x := by
  cases x with
  | ready _ k | paused _ k => exact h.stack k
  | running | finished => exact Nat.le_refl _

theorem of (h : V.Below W) (l : State) (t : Nat) : V.of l t ≤ W.of l t := by
  refine Nat.add_le_add ?_ ?_
  · cases l.tasks[t]? with
    | none => exact Nat.le_refl _
    | some k => exact h.status k.status
  · cases l.running with
    | none => exact Nat.le_refl _
    | some r =>
      simp only [Option.map_some, Option.getD_some]
      split
      · exact h.running r
      · exact Nat.le_refl _

theorem total (h : V.Below W) (l : State) : V.total l ≤ W.total l :=
  Finset.sum_le_sum fun t _ => h.of l t

end Weight.Below

def Work.on {u : Shape} (w : Work u) (t : Nat) (k : Stack u) : Running :=
  match w with
  | .call c => ⟨t, u, .call c, k⟩
  | .back (s := s) f o => ⟨t, s, .give o, .push f k⟩

section Lemmas

variable {W : Weight} {l l' : State} {p N : Nat} {C : Nat → Prop} {D : Nat → Failure → Prop}
  {E : Nat → Follower → Prop} {s : Pool.State} {cs : List (Call .unit)} {ts ts' : List Task}

theorem Weight.running_on {u : Shape} (w : Work u) (t : Nat) (k : Stack u) :
    W.running (w.on t k) = W.work w + W.stack k := by
  cases w <;> simp [Work.on, Weight.running, Weight.control, Weight.work, Weight.stack]

@[simp] theorem Work.on_task {u : Shape} (w : Work u) (t : Nat) (k : Stack u) :
    (w.on t k).task = t := by
  cases w <;> rfl

theorem Status.Nudge.weight {D : Failure → Prop} {x y : Status} (h : x.Nudge D y) :
    W.status y = W.status x := by
  cases h <;> rfl

theorem Nudged.weight (h : Nudged C D E ts ts') (i : Nat) :
    ((ts'[i]?).map fun k => W.status k.status) = (ts[i]?).map fun k => W.status k.status := by
  cases hk : ts[i]? with
  | none =>
    have hi : ts'[i]? = none := by
      rw [List.getElem?_eq_none_iff] at hk ⊢
      rw [h.length]
      exact hk
    rw [hi]
  | some k =>
    obtain ⟨k', hk', hn⟩ := h.task i k hk
    rw [hk']
    simp [hn.status.weight]

theorem Made.weight {v : Shape} {c : Call v} {k : Task} (h : Made p c k) :
    W.status k.status = W.call c := by
  simp [h.status, Weight.status, Weight.stack, Weight.frame]

theorem Changed.weight_of (h : Changed p C D E l l' s N cs) {i : Nat} (hi : i < l.tasks.length) :
    W.of l' i = W.of l i := by
  obtain ⟨ts, new, ht, hn, _⟩ := h.tasks
  have hi' : i < ts.length := by rwa [hn.length]
  rw [Weight.of, Weight.of, h.running, ht, List.getElem?_append_left hi', hn.weight]

theorem Changed.weight_new (h : Changed p C D E l l' s N cs)
    (hr : ∀ r, l.running = some r → r.task < l.tasks.length) (j : Nat) (hj : j < cs.length) :
    W.of l' (l.tasks.length + j) = W.call cs[j] := by
  obtain ⟨ts, new, ht, hn, hm⟩ := h.tasks
  have hj' : j < new.length := by rwa [← hm.length_eq]
  have hnew : l'.tasks[l.tasks.length + j]? = some new[j] := by
    rw [ht, ← hn.length, List.getElem?_append_right (by omega)]
    simp [hj']
  have hmade : Made p cs[j] new[j] := hm.get hj hj'
  rw [Weight.of, h.running, hnew]
  cases hr' : l.running with
  | none => simp [hmade.weight]
  | some r =>
    have := hr r hr'
    simp [hmade.weight, show r.task ≠ l.tasks.length + j by omega]

theorem State.carryOn_weight_of {u : Shape} {w : Work u} {t : Nat} {k : Stack u} (n : Next u) {x : Task}
    (hr : l.running = some (w.on t k)) (hx : l.tasks[t]? = some x) (hs : x.status = .running) :
    W.of (l.carryOn t n k) t + W.work w = W.of l t + W.next n := by
  have hl : W.of l t = W.work w + W.stack k := by
    simp [Weight.of, hx, hs, Weight.status, hr, Weight.running_on]
  rw [hl]
  cases n <;>
    simp [State.carryOn, Weight.of, hx, hs, Weight.status, Weight.running, Weight.control,
      Weight.next, Weight.stack, State.modifyTask, State.enqueue] <;> omega

theorem State.carryOn_weight_of_ne {u : Shape} {w : Work u} {t i : Nat} {k : Stack u} (n : Next u)
    (hr : l.running = some (w.on t k)) (hi : i ≠ t) : W.of (l.carryOn t n k) i = W.of l i := by
  have hl : W.of l i = ((l.tasks[i]?).map fun k => W.status k.status).getD 0 := by
    simp [Weight.of, hr, hi.symm]
  rw [hl]
  cases n <;> simp [State.carryOn, Weight.of, State.modifyTask, State.enqueue, hi.symm]

end Lemmas

end SqliteAccess.Loop
