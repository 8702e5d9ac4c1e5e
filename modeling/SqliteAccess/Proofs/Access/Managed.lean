import SqliteAccess.Proofs.Access.Points

/-!
A manager in use, whether it has a pool or one connection, and the steps of the loop behind it.
-/

namespace SqliteAccess.Loop

open Access (Database)
open SqliteAccess.Pool (Lease)

inductive Desk.Managed (careless : Prop) (M : Nat) (x : Desk) : Route → Prop
  | pool {p : Nat} {d : Database} {s : Pool.State} : x.Lent M p d s → Desk.Managed careless M x (.pool p d)
  | single {c : Lease} : x.Guarded careless M c → Desk.Managed careless M x .single

variable {careless : Prop} {M t i : Nat} {way : Route} {l l' m : State} {x y : Desk} {u : Shape}
  {w : Work u} {k : Stack u} {S : Nat → Prop}

namespace Desk.Managed

variable (h : x.Managed careless M way)

include h in
theorem tended : Tended M way x.loop := by
  cases h with
  | pool h => exact h.tended
  | single h => exact h.tended

include h in
theorem takes : x.loop.Takes M way := by
  cases h with
  | pool h => exact h.toGrounded.takes
  | single h => exact h.manager

include h in
theorem undisturbed (hr : x.loop.running = some (w.on t k)) : Undisturbed x.loop (w.perform x.loop).1 := by
  cases h with
  | pool h => exact h.undisturbed hr
  | single h => exact h.undisturbed hr

include h in
theorem stride (hl : x.loop.step? = some l') : Stride x.loop l' := h.tended.step_stride hl h.undisturbed

end Desk.Managed

theorem Desk.Step.managed (hs : x.Step M way careless y) (h : x.Managed careless M way) :
    y.Managed careless M way := by
  cases h with
  | pool h =>
    obtain ⟨s', hs'⟩ := hs.lent h
    exact .pool hs'
  | single h => exact .single (hs.moves h).guarded

theorem State.SetUp.managed (hs : l.SetUp M way) (hi : l.Idle) :
    Desk.Managed careless M ⟨l, [], []⟩ way := by
  cases way with
  | pool p d =>
    obtain ⟨s, h⟩ := hs.lent hi
    exact .pool h
  | single =>
    obtain ⟨c, hc⟩ := hs.shared
    exact .single (hs.guarded hi hc)

theorem Desk.Steps.managed (hs : Desk.Steps M way careless x y) (h : x.Managed careless M way) :
    y.Managed careless M way := by
  induction hs with
  | refl => exact h
  | tail _ hst ih => exact hst.managed ih

theorem State.Reaches.managed (h : l.Reaches M way careless x) : x.Managed careless M way :=
  h.steps.managed (h.setUp.managed h.idle)

theorem State.Reaches.induct (h : l.Reaches M way careless x) {P : Desk → Prop} (hstart : P ⟨l, [], []⟩)
    (hstep : ∀ x y, x.Managed careless M way → P x → x.Step M way careless y → P y) : P x := by
  obtain ⟨hi, hs, hsteps⟩ := h
  induction hsteps with
  | refl => exact hstart
  | tail hz hst ih => exact hstep _ _ (Desk.Steps.managed hz (hs.managed hi)) ih hst

theorem State.Reaches.past (h : l.Reaches M way careless x) (hm : m ∈ x.past) :
    ∃ (z : Desk) (l' : State), z.Managed careless M way ∧ z.loop = m ∧ m.step? = some l' := by
  refine h.induct (P := fun x => ∀ m ∈ x.past, ∃ (z : Desk) (l' : State),
    z.Managed careless M way ∧ z.loop = m ∧ m.step? = some l')
    (fun m hm => (List.not_mem_nil hm).elim) (fun x y hx ih hst m hm => ?_) m hm
  rcases hst.arrival with ⟨hl, hp⟩ | ⟨_, hp, _⟩
  · rw [hp] at hm
    rcases List.mem_append.mp hm with hm | hm
    · exact ih m hm
    · rw [List.mem_singleton.mp hm]
      exact ⟨x, _, hx, rfl, hl⟩
  · exact ih m (hp ▸ hm)

theorem Spared.lease? (hs : Spared S l l') (h : Tended M way l) (h' : Tended M way l') (hi : ¬ S i) :
    l'.lease? i = l.lease? i := by
  rw [h.lease?_eq, h'.lease?_eq]
  rcases hs i hi with he | ⟨hle, c, hc⟩
  · rw [he]
  · rw [hc, State.point?_of_le (fun r hr => ?_) hle]
    · rfl
    · obtain ⟨_, k, hk, _⟩ := h.running r hr
      exact (List.getElem?_eq_some_iff.mp hk).1

theorem Arrival.lease? (ha : Arrival l l') (h : Tended M way l) (h' : Tended M way l') (hr : l.running = none)
    (i : Nat) : l'.lease? i = l.lease? i := by
  have fresh : ∀ {p : Point}, l'.point? l.tasks.length = some p → p.lease? = none →
      Spared (· = l.tasks.length) l l' → l'.lease? i = l.lease? i := by
    intro p hp hn hs
    by_cases hi : i = l.tasks.length
    · subst hi
      rw [h.lease?_eq, h'.lease?_eq, hp, State.point?_of_le (fun r hr' => ?_) (Nat.le_refl _)]
      · exact hn
      · cases hr.symm.trans hr'
    · exact hs.lease? h h' hi
  cases ha with
  | enters c _ hp hs => exact fresh hp rfl hs
  | spawns c _ hp hs => exact fresh hp rfl hs
  | rests _ hs => exact hs.lease? h h' id

end SqliteAccess.Loop
