import Mathlib.Data.List.Forall2
import SqliteAccess.Pool.State

/-!
What the operations of a pool do, and the compound ones that steps of tasks are made of.
-/

namespace SqliteAccess.Pool

inductive Turn (ws : List Waiter) : List Waiter × Option Nat → Prop
  | next (before : List Waiter) (w : Waiter) (rest : List Waiter) : ws = before ++ w :: rest →
      (∀ x ∈ before, x.pending = false) → w.pending = true → Turn ws (rest, some w.task)
  | nobody : (∀ x ∈ ws, x.pending = false) → Turn ws ([], none)

theorem nextWaiter_turn (ws : List Waiter) : Turn ws (nextWaiter ws) := by
  induction ws with
  | nil => exact .nobody (by simp)
  | cons w ws ih =>
    cases hw : w.pending with
    | true =>
      rw [nextWaiter, if_pos hw]
      exact .next [] w ws rfl (by simp) hw
    | false =>
      rw [nextWaiter, if_neg (by simp [hw])]
      generalize nextWaiter ws = x at ih
      cases ih with
      | next before v rest hs hb hv =>
        exact .next (w :: before) v rest (by simp [hs]) (by simpa [hw] using hb) hv
      | nobody hn => exact .nobody (by simpa [hw] using hn)

theorem mem_of_nextWaiter {ws ws' : List Waiter} {t : Nat} (h : nextWaiter ws = (ws', some t)) :
    ∃ w ∈ ws, w.task = t := by
  have ht := nextWaiter_turn ws
  rw [h] at ht
  cases ht with
  | next before w rest hs _ _ => exact ⟨w, by simp [hs], rfl⟩

end SqliteAccess.Pool

namespace SqliteAccess.Pool.State

def expand (s : State) (T n : Nat) : State :=
  { s with
    pending := s.pending + n
    spawned := s.spawned + n
    background := s.background ++ List.range' T n }

@[simp] theorem expand_zero (s : State) (T : Nat) : s.expand T 0 = s := by
  cases s
  simp [expand]

theorem expand_succ (s : State) (T n : Nat) :
    s.expand T (n + 1) =
      ({ s.reserveBackground with background := s.background ++ [T] } : State).expand (T + 1) n := by
  simp [expand, reserveBackground, List.range'_succ, Nat.add_assoc, Nat.add_comm 1 n]

def awake (s : State) (T : Nat) : State :=
  { s with started := true, reaper := if s.started then s.reaper else some T }

theorem awake_of_started {s : State} (h : s.started = true) (T : Nat) : s.awake T = s := by
  cases s
  simp_all [awake]

def shut (s : State) : State := { s with closed := true }

def cleared (s : State) : State := { s with reaper := none, waiters := [] }

structure Lull (s s' : State) : Prop where
  same : s' = { s with waiters := s'.waiters, background := s'.background }
  line : List.Forall₂ (fun w w' => w'.task = w.task ∧ (w'.pending = true → w.pending = true))
    s.waiters s'.waiters
  staff : s'.background ⊆ s.background

theorem Lull.refl (s : State) : s.Lull s := ⟨rfl, List.forall₂_same.mpr fun _ _ => ⟨rfl, id⟩, List.Subset.refl _⟩

theorem Lull.dismiss (s : State) (t : Nat) : s.Lull { s with background := s.background.erase t } :=
  ⟨rfl, List.forall₂_same.mpr fun _ _ => ⟨rfl, id⟩, List.erase_subset⟩

theorem Lull.giveUp (s : State) (t : Nat) : s.Lull (s.giveUp t) := by
  refine ⟨rfl, ?_, List.Subset.refl _⟩
  rw [State.giveUp, List.forall₂_map_right_iff]
  apply List.forall₂_same.mpr
  intro w _
  by_cases ht : w.task = t <;> simp [ht]

theorem Lull.trans {s s' s'' : State} (h : s.Lull s') (h' : s'.Lull s'') : s.Lull s'' := by
  have hs := h'.same
  rw [h.same] at hs
  refine ⟨hs, ?_, List.Subset.trans h'.staff h.staff⟩
  have hl := h.line
  have hl' := h'.line
  clear hs h h'
  generalize s.waiters = a at *
  generalize s'.waiters = b at *
  generalize s''.waiters = c at *
  induction hl generalizing c with
  | nil => cases hl'; exact .nil
  | cons hw _ ih =>
    cases hl' with
    | cons hw' hr => exact .cons ⟨hw'.1.trans hw.1, fun hp => hw.2 (hw'.2 hp)⟩ (ih _ hr)

def leaseOf (s : State) (id : Nat) : Lease := ((s.everFind? id).map (·.lease)).getD ⟨id, .stray⟩

inductive Checkin (s : State) (id : Nat) (now : Float) : State → Prop
  | serves (before : List Waiter) (w : Waiter) (rest : List Waiter) :
      s.waiters = before ++ w :: rest → (∀ x ∈ before, x.pending = false) → w.pending = true →
      Checkin s id now
        { s.checkout id with waiters := rest, handed := s.handed ++ [(w.task, id)] }
  | rests : (∀ x ∈ s.waiters, x.pending = false) →
      Checkin s id now ({ s with waiters := [] }.rest id now)

theorem checkin_spec (s : State) (id : Nat) (now : Float) :
    Checkin s id now (s.checkin id now).1 := by
  have ht := nextWaiter_turn s.waiters
  unfold checkin
  generalize nextWaiter s.waiters = x at ht
  cases ht with
  | next before w rest hs hb hw => exact .serves before w rest hs hb hw
  | nobody hn => exact .rests hn

theorem takeIdle?_eq {s s' : State} {id : Nat} (h : s.takeIdle? = some (s', id)) :
    s.idle = s'.idle ++ [id] ∧ s' = ({ s with idle := s'.idle } : State).checkout id := by
  simp only [takeIdle?, Option.map_eq_some_iff, Prod.mk.injEq] at h
  obtain ⟨_, hl, rfl, rfl⟩ := h
  exact ⟨(List.dropLast_append_getLast? _ hl).symm, rfl⟩

theorem takeIdle?_none {s : State} (h : s.takeIdle? = none) : s.idle = [] := by
  simpa [takeIdle?] using h

def without (s : State) (id : Nat) : State :=
  { s.update id (fun c => { c with inUse := false, live := false }) with idle := s.idle.erase id }

theorem remove?_eq {s s' : State} {id : Nat} {h : Handle} (hr : s.remove? id = some (s', h)) :
    (∃ c, s.find? id = some c) ∧ s' = s.without id := by
  simp only [remove?, Option.map_eq_some_iff, Prod.mk.injEq] at hr
  obtain ⟨c, hc, rfl, _⟩ := hr
  exact ⟨⟨c, hc⟩, rfl⟩

theorem remove?_none {s : State} {id : Nat} (h : s.remove? id = none) : s.find? id = none := by
  simpa [remove?] using h

end SqliteAccess.Pool.State
