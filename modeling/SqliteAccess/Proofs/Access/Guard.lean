import Mathlib.Data.List.Nodup
import Mathlib.Logic.Function.Basic
import SqliteAccess.Proofs.Access.Desk

/-!
The lock of a manager and the one connection behind it, as the tasks see them: who stands in line, who
has been let in, who has the connection. There are few ways in which this changes, and all of them keep
the line in order and let the connection be had by one task at a time.
-/

namespace SqliteAccess.Access.Lock

def standing (l : Lock) : List Nat := (l.line.filter fun p => p.2 ≠ .cancelled).map (·.1)

variable {l : Lock} {t : Nat} {q : Place}

theorem letIn_of_head (h : l.line.head? = some (t, .waiting)) :
    ∃ r, l.line = (t, .waiting) :: r ∧ l.letIn = ({ l with line := (t, .granted) :: r }, some t) := by
  obtain ⟨locked, line⟩ := l
  cases line with
  | nil => cases h
  | cons x r =>
    cases h
    exact ⟨r, rfl, rfl⟩

theorem letIn_of_ne (h : ∀ t, l.line.head? ≠ some (t, .waiting)) : l.letIn = (l, none) := by
  obtain ⟨locked, line⟩ := l
  cases line with
  | nil => rfl
  | cons x r =>
    obtain ⟨t, q⟩ := x
    cases q with
    | waiting => exact absurd rfl (h t)
    | granted | cancelled => rfl

theorem isFree_iff : l.isFree = true ↔ l.locked = false ∧ ∀ p ∈ l.line, p.2 = .cancelled := by
  simp [isFree]

@[simp] theorem letIn_locked (l : Lock) : l.letIn.1.locked = l.locked := by
  unfold letIn
  split <;> rfl

theorem leave_line (hn : (l.line.map (·.1)).Nodup) (h : (t, q) ∈ l.line) :
    ∃ as bs, l.line = as ++ (t, q) :: bs ∧ (l.leave t).line = as ++ bs := by
  obtain ⟨x, as, bs, has, hx, hl, hle⟩ := List.exists_of_eraseP (p := fun p => p.1 = t) h (by simp)
  refine ⟨as, bs, ?_, hle⟩
  have hxt : x.1 = t := by simpa using hx
  have hx' : x ∈ l.line := by simp [hl]
  have he : x = (t, q) := List.inj_on_of_nodup_map hn hx' h hxt
  rw [hl, he]

end SqliteAccess.Access.Lock

namespace SqliteAccess.Loop

open Access (Lock Place)
open Pool (Lease)

@[ext] structure Guard where
  lock : Lock
  single : Option Nat
  place : Nat → Option Place
  lease : Nat → Option Lease
  bears : Nat → Bool
  inUse : Bool
  -- Who has asked for the lock, has obtained it, has left the line without it.
  asked : List Nat
  obtained : List Nat
  quit : List Nat
  -- Who has obtained it and come to use the connection, or has found it gone.
  used : List Nat
  missed : List Nat

namespace Guard

def letIn (g : Guard) : Guard :=
  { g with
    lock := g.lock.letIn.1
    place := fun i => if g.lock.letIn.2 = some i then some .granted else g.place i }

def unlock (g : Guard) : Guard := { g with lock := { g.lock with locked := false } }.letIn

def left (g : Guard) (t : Nat) : Guard :=
  { g with
    lock := g.lock.leave t
    place := Function.update g.place t none
    quit := g.quit ++ [t] }

/-- The ways in which tasks move, where `c` is the connection. -/
inductive Step (careless : Prop) (c : Lease) (g : Guard) : Guard → Prop
  | rests : Step careless c g g
  -- A task that has been let in is cancelled before it has noticed.
  | falters {t : Nat} : g.place t = some .granted →
      Step careless c g { g with place := Function.update g.place t (some .cancelled) }
  | marks {t : Nat} : g.place t = some .waiting →
      Step careless c g
        { g with lock := g.lock.mark t .cancelled, place := Function.update g.place t (some .cancelled) }
  | takes {t : Nat} : g.place t = none → g.lock.isFree = true →
      Step careless c g
        { g with lock := g.lock.take, bears := Function.update g.bears t true, asked := g.asked ++ [t],
                 obtained := g.obtained ++ [t] }
  | waits {t : Nat} : g.place t = none → g.lock.isFree = false →
      Step careless c g
        { g with lock := g.lock.enqueue t, place := Function.update g.place t (some .waiting),
                 asked := g.asked ++ [t] }
  | enters {t : Nat} : g.place t = some .granted →
      Step careless c g
        { g with lock := (g.lock.leave t).take, place := Function.update g.place t none,
                 bears := Function.update g.bears t true, obtained := g.obtained ++ [t] }
  | quits {t : Nat} : g.place t = some .cancelled →
      Step careless c g (if g.lock.locked then g.left t else (g.left t).letIn)
  | uses {t : Nat} : g.bears t = true → g.single = some c.id →
      Step careless c g
        { g with bears := Function.update g.bears t false, lease := Function.update g.lease t (some c), inUse := true,
                 used := g.used ++ [t] }
  -- The connection is gone, and the lock stays taken.
  | misses {t : Nat} : g.bears t = true → g.single = none →
      Step careless c g { g with bears := Function.update g.bears t false, missed := g.missed ++ [t] }
  | opens {t : Nat} {single : Option Nat} : g.bears t = true → single = g.single ∨ single = none →
      Step careless c g (unlock { g with bears := Function.update g.bears t false, single })
  | returns {t : Nat} : g.lease t = some c →
      Step careless c g (unlock { g with lease := Function.update g.lease t none, inUse := false })
  | forgets {t : Nat} : careless → g.lease t = some c →
      Step careless c g { g with lease := Function.update g.lease t none }
  | finds : careless → (∀ t, g.bears t = false) → (∀ t, g.lease t = none) → g.inUse = true →
      Step careless c g (unlock { g with inUse := false })

/-- The line is in order, and so are those that have been let in. -/
structure Lined (g : Guard) : Prop where
  once : (g.lock.line.map (·.1)).Nodup
  placed : ∀ t q, (t, q) ∈ g.lock.line →
    g.place t = some q ∨ q = .granted ∧ g.place t = some .cancelled
  lined : ∀ t q, g.place t = some q → ∃ q', (t, q') ∈ g.lock.line
  first : ∀ t, (t, .granted) ∈ g.lock.line →
    g.lock.locked = false ∧ g.lock.line.head? = some (t, .granted)
  fifo : (g.obtained ++ g.lock.standing).Sublist g.asked
  all : g.asked.Perm (g.obtained ++ (g.quit ++ g.lock.line.map (·.1)))
  turns : g.used.Sublist g.obtained
  next : ∀ t, g.bears t = true → (g.used ++ [t]).Sublist g.obtained

inductive Held (careless : Prop) (c : Lease) (g : Guard) : Prop
  | free : g.lock.locked = false → (∀ t, g.bears t = false) → (∀ t, g.lease t = none) → g.inUse = false →
      g.missed = [] → Held careless c g
  | passing {t : Nat} : g.lock.locked = true → g.bears t = true → (∀ i, i ≠ t → g.bears i = false) →
      (∀ t, g.lease t = none) → g.inUse = false → g.missed = [] → Held careless c g
  | lent {t : Nat} : g.lock.locked = true → (∀ t, g.bears t = false) → g.lease t = some c →
      (∀ i, i ≠ t → g.lease i = none) → g.inUse = true → g.single = some c.id → g.missed = [] →
      Held careless c g
  -- Somebody has found the connection gone, and has kept the lock.
  | stuck {t : Nat} : g.lock.locked = true → (∀ t, g.bears t = false) → (∀ t, g.lease t = none) →
      g.inUse = false → g.single = none → g.missed = [t] → Held careless c g
  | lost : careless → g.lock.locked = true → (∀ t, g.bears t = false) → (∀ t, g.lease t = none) →
      g.inUse = true → g.single = some c.id → g.missed = [] → Held careless c g

structure Sound (careless : Prop) (c : Lease) (g : Guard) : Prop where
  line : g.Lined
  moves : g.lock.locked = false → ∀ t, g.lock.line.head? ≠ some (t, .waiting)
  held : g.Held careless c
  single : g.single = none ∨ g.single = some c.id

variable {careless : Prop} {c : Lease} {g g' : Guard} {t : Nat} {q : Place}

theorem Held.congr (h : g.Held careless c) (hk : g'.lock.locked = g.lock.locked)
    (hb : g'.bears = g.bears) (hl : g'.lease = g.lease) (hu : g'.inUse = g.inUse)
    (hs : g'.single = g.single) (hm : g'.missed = g.missed) : g'.Held careless c := by
  cases h with
  | free h₁ h₂ h₃ h₄ h₅ => exact .free (hk.trans h₁) (hb ▸ h₂) (hl ▸ h₃) (hu.trans h₄) (hm.trans h₅)
  | passing h₁ h₂ h₃ h₄ h₅ h₆ =>
    exact .passing (hk.trans h₁) (hb ▸ h₂) (hb ▸ h₃) (hl ▸ h₄) (hu.trans h₅) (hm.trans h₆)
  | lent h₁ h₂ h₃ h₄ h₅ h₆ h₇ =>
    exact .lent (hk.trans h₁) (hb ▸ h₂) (hl ▸ h₃) (hl ▸ h₄) (hu.trans h₅) (hs.trans h₆) (hm.trans h₇)
  | stuck h₁ h₂ h₃ h₄ h₅ h₆ =>
    exact .stuck (hk.trans h₁) (hb ▸ h₂) (hl ▸ h₃) (hu.trans h₄) (hs.trans h₅) (hm.trans h₆)
  | lost h₀ h₁ h₂ h₃ h₄ h₅ h₆ =>
    exact .lost h₀ (hk.trans h₁) (hb ▸ h₂) (hl ▸ h₃) (hu.trans h₄) (hs.trans h₅) (hm.trans h₆)

theorem Held.open (h : g.Held careless c) (hk : g.lock.locked = false) :
    (∀ t, g.bears t = false) ∧ (∀ t, g.lease t = none) ∧ g.inUse = false ∧ g.missed = [] := by
  cases h with
  | free _ hb hl hu hm => exact ⟨hb, hl, hu, hm⟩
  | passing h | lent h | stuck h => cases hk.symm.trans h
  | lost _ h => cases hk.symm.trans h

theorem Held.bears (h : g.Held careless c) (hb : g.bears t = true) :
    g.lock.locked = true ∧ (∀ i, i ≠ t → g.bears i = false) ∧ (∀ i, g.lease i = none) ∧ g.inUse = false ∧
      g.missed = [] := by
  cases h with
  | @passing u hk _ ho hl hu hm =>
    have he : t = u := by
      by_contra hne
      cases hb.symm.trans (ho t hne)
    exact ⟨hk, he ▸ ho, hl, hu, hm⟩
  | free _ h | lent _ h | stuck _ h => cases (h t).symm.trans hb
  | lost _ _ h => cases (h t).symm.trans hb

theorem Held.has {c' : Lease} (h : g.Held careless c) (hl : g.lease t = some c') :
    g.lock.locked = true ∧ (∀ i, g.bears i = false) ∧ c' = c ∧ (∀ i, i ≠ t → g.lease i = none) ∧
      g.inUse = true ∧ g.single = some c.id ∧ g.missed = [] := by
  cases h with
  | @lent u hk hb ht ho hu hs hm =>
    have he : t = u := by
      by_contra hne
      cases hl.symm.trans (ho t hne)
    subst he
    exact ⟨hk, hb, Option.some.inj (hl.symm.trans ht), ho, hu, hs, hm⟩
  | free _ _ h | passing _ _ _ h | stuck _ _ h => cases hl.symm.trans (h t)
  | lost _ _ _ h => cases hl.symm.trans (h t)

namespace Lined

variable (h : g.Lined)

include h in
theorem of_granted (ht : g.place t = some .granted) : (t, .granted) ∈ g.lock.line := by
  obtain ⟨q, hq⟩ := h.lined t _ ht
  rcases h.placed t q hq with hp | ⟨_, hp⟩
  · cases ht.symm.trans hp
    exact hq
  · cases ht.symm.trans hp

include h in
theorem not_mem (ht : g.place t = none) (q : Place) : (t, q) ∉ g.lock.line := by
  intro hq
  rcases h.placed t q hq with hp | ⟨_, hp⟩ <;> cases ht.symm.trans hp

theorem bear {used : List Nat} (h : g.Lined) (hl : g'.lock = g.lock)
    (hp : g'.place = g.place) (ha : g'.asked = g.asked) (ho : g'.obtained = g.obtained)
    (hq : g'.quit = g.quit) (hu : g'.used = used) (ht : used.Sublist g.obtained)
    (hb : ∀ t, g'.bears t = true → (used ++ [t]).Sublist g.obtained) : g'.Lined := by
  refine ⟨hl ▸ h.once, fun t q hm => ?_, fun t q hm => ?_, fun t hm => ?_, ?_, ?_, ?_, fun t hm => ?_⟩
  · rw [hl] at hm
    rw [hp]
    exact h.placed t q hm
  · rw [hp] at hm
    rw [hl]
    exact h.lined t q hm
  · rw [hl] at hm ⊢
    exact h.first t hm
  · rw [ho, hl, ha]
    exact h.fifo
  · rw [ho, hl, ha, hq]
    exact h.all
  · rw [hu, ho]
    exact ht
  · rw [hu, ho]
    exact hb t hm

theorem opened (h : g.Lined) (hk : g.lock.locked = true) :
    Lined { g with lock := { g.lock with locked := false } } := by
  refine ⟨h.once, h.placed, h.lined, fun t hm => ?_, h.fifo, h.all, h.turns, h.next⟩
  cases hk.symm.trans (h.first t hm).1

theorem letIn (h : g.Lined) (hk : g.lock.locked = false) :
    g.letIn.Lined ∧ ∀ t, g.letIn.lock.line.head? ≠ some (t, .waiting) := by
  by_cases hw : ∃ t, g.lock.line.head? = some (t, .waiting)
  · obtain ⟨t, ht⟩ := hw
    obtain ⟨r, hline, hlet⟩ := Lock.letIn_of_head ht
    have hn := h.once
    rw [hline, List.map_cons, List.nodup_cons] at hn
    have hlock : g.letIn.lock = { g.lock with line := (t, .granted) :: r } := by
      simp only [Guard.letIn, hlet]
    have hplace : ∀ i, g.letIn.place i = if t = i then some .granted else g.place i := by
      simp only [Guard.letIn, hlet, Option.some.injEq, implies_true]
    have hr : ∀ {i q}, (i, q) ∈ r → t ≠ i := fun hi he => hn.1 (List.mem_map.mpr ⟨_, hi, he.symm⟩)
    refine ⟨⟨?_, fun i q hm => ?_, fun i q hm => ?_, fun i hm => ?_, ?_, ?_, h.turns, h.next⟩, fun i hi => ?_⟩
    · rw [hlock, List.map_cons, List.nodup_cons]
      exact hn
    · rw [hlock] at hm
      rw [hplace]
      rcases List.mem_cons.mp hm with he | hm
      · cases he
        exact .inl (if_pos rfl)
      · rw [if_neg (hr hm)]
        exact h.placed i q (by rw [hline]; exact List.mem_cons_of_mem _ hm)
    · rw [hplace] at hm
      rw [hlock]
      split at hm
      next he => exact ⟨.granted, he ▸ List.mem_cons_self⟩
      next he =>
        obtain ⟨q', hq'⟩ := h.lined i q hm
        rw [hline] at hq'
        rcases List.mem_cons.mp hq' with hc | hc
        · cases hc
          exact absurd rfl he
        · exact ⟨q', List.mem_cons_of_mem _ hc⟩
    · rw [hlock] at hm ⊢
      refine ⟨hk, ?_⟩
      rcases List.mem_cons.mp hm with he | hm
      · cases he
        rfl
      · have hf := (h.first i (by rw [hline]; exact List.mem_cons_of_mem _ hm)).2
        rw [ht] at hf
        cases hf
    · have hs : g.letIn.lock.standing = g.lock.standing := by simp [hlock, Lock.standing, hline]
      rw [hs]
      exact h.fifo
    · have hs : g.letIn.lock.line.map (·.1) = g.lock.line.map (·.1) := by simp [hlock, hline]
      rw [hs]
      exact h.all
    · rw [hlock] at hi
      cases hi
  · have hlet := Lock.letIn_of_ne fun t ht => hw ⟨t, ht⟩
    have he : g.letIn = g := by
      simp only [Guard.letIn, hlet, reduceCtorEq, if_false]
    rw [he]
    exact ⟨h, fun t ht => hw ⟨t, ht⟩⟩

theorem falters (h : g.Lined) (ht : g.place t = some .granted) :
    Lined { g with place := Function.update g.place t (some .cancelled) } := by
  refine ⟨h.once, fun i q hm => ?_, fun i q hm => ?_, h.first, h.fifo, h.all, h.turns, h.next⟩
  · by_cases hi : i = t
    · subst hi
      have hq : q = .granted := by
        rcases h.placed i q hm with hp | ⟨hq, _⟩
        · exact (Option.some.inj (ht.symm.trans hp)).symm
        · exact hq
      exact .inr ⟨hq, Function.update_self ..⟩
    · simp only [Function.update_of_ne hi]
      exact h.placed i q hm
  · by_cases hi : i = t
    · exact ⟨_, hi ▸ h.of_granted ht⟩
    · simp only [Function.update_of_ne hi] at hm
      exact h.lined i q hm

theorem marks (h : g.Lined) (ht : g.place t = some .waiting) :
    Lined { g with lock := g.lock.mark t .cancelled,
                   place := Function.update g.place t (some .cancelled) } := by
  have hids : (g.lock.mark t .cancelled).line.map (·.1) = g.lock.line.map (·.1) := by
    simp only [Lock.mark, List.map_map, List.map_inj_left, Function.comp_apply]
    intro x _
    split
    next hx => exact hx.symm
    next => rfl
  -- Whoever else is in line keeps the place.
  have hmem : ∀ {i q}, (i, q) ∈ (g.lock.mark t .cancelled).line →
      i = t ∧ q = .cancelled ∨ i ≠ t ∧ (i, q) ∈ g.lock.line := by
    intro i q hm
    obtain ⟨x, hx, he⟩ := List.mem_map.mp hm
    split at he
    next => cases he; exact .inl ⟨rfl, rfl⟩
    next hx' => cases he; exact .inr ⟨hx', hx⟩
  refine ⟨hids ▸ h.once, fun i q hm => ?_, fun i q hm => ?_, fun i hm => ?_, ?_, ?_, h.turns, h.next⟩
  · rcases hmem hm with ⟨rfl, rfl⟩ | ⟨hi, hm⟩
    · exact .inl (Function.update_self ..)
    · simp only [Function.update_of_ne hi]
      exact h.placed i q hm
  · have hin : i ∈ g.lock.line.map (·.1) := by
      by_cases hi : i = t
      · obtain ⟨q', hq'⟩ := h.lined t _ ht
        exact hi ▸ List.mem_map_of_mem hq'
      · simp only [Function.update_of_ne hi] at hm
        obtain ⟨q', hq'⟩ := h.lined i q hm
        exact List.mem_map_of_mem hq'
    rw [← hids] at hin
    obtain ⟨x, hx, rfl⟩ := List.mem_map.mp hin
    exact ⟨x.2, hx⟩
  · rcases hmem hm with ⟨_, hq⟩ | ⟨hi, hm⟩
    · cases hq
    · obtain ⟨hk, hf⟩ := h.first i hm
      exact ⟨hk, by simp [Lock.mark, hf, hi]⟩
  · refine List.Sublist.trans (List.Sublist.append_left ?_ _) h.fifo
    simp only [Lock.standing, Lock.mark]
    generalize g.lock.line = line
    induction line with
    | nil => exact .slnil
    | cons x r ih =>
      by_cases hx : x.1 = t
      · by_cases hc : x.2 = .cancelled
        · simpa [hx, hc] using ih
        · simpa [hx, hc] using ih.cons x.1
      · by_cases hc : x.2 = .cancelled
        · simpa [hx, hc] using ih
        · simpa [hx, hc] using ih
  · rw [hids]
    exact h.all

theorem obtains (h : g.Lined) (t : Nat) : ∀ i, Function.update g.bears t true i = true →
    (g.used ++ [i]).Sublist (g.obtained ++ [t]) := by
  intro i hi
  by_cases hit : i = t
  · subst hit
    exact List.Sublist.append_right h.turns _
  · rw [Function.update_of_ne hit] at hi
    exact (h.next i hi).trans (List.sublist_append_left _ _)

theorem takes (h : g.Lined) (hk : g.lock.isFree = true) :
    Lined { g with lock := g.lock.take, bears := Function.update g.bears t true, asked := g.asked ++ [t],
                   obtained := g.obtained ++ [t] } := by
  obtain ⟨_, hc⟩ := Lock.isFree_iff.mp hk
  have hs : g.lock.take.standing = [] := by
    simpa [Lock.standing, Lock.take] using hc
  refine ⟨h.once, h.placed, h.lined, fun i hm => ?_, ?_, ?_, h.turns.trans (List.sublist_append_left _ _),
    h.obtains t⟩
  · cases hc _ hm
  · rw [hs, List.append_nil]
    exact List.Sublist.append_right ((List.sublist_append_left _ _).trans h.fifo) _
  · refine (h.all.append_right [t]).trans ?_
    simp only [Lock.take, List.append_assoc]
    rw [← List.append_assoc g.quit]
    exact List.Perm.append_left _ List.perm_append_comm

theorem waits (h : g.Lined) (hp : g.place t = none) :
    Lined { g with lock := g.lock.enqueue t, place := Function.update g.place t (some .waiting),
                   asked := g.asked ++ [t] } := by
  have hne : ∀ {i q}, (i, q) ∈ g.lock.line → i ≠ t := by
    rintro i q hm rfl
    exact h.not_mem hp q hm
  refine ⟨?_, fun i q hm => ?_, fun i q hm => ?_, fun i hm => ?_, ?_, ?_, h.turns, h.next⟩
  · simp only [Lock.enqueue, List.map_append, List.map_cons, List.map_nil]
    refine h.once.append (List.nodup_singleton t) ?_
    simp only [List.disjoint_singleton, List.mem_map, Prod.exists, exists_and_right, exists_eq_right,
      not_exists]
    exact h.not_mem hp
  · rcases List.mem_append.mp hm with hm | hm
    · simp only [Function.update_of_ne (hne hm)]
      exact h.placed i q hm
    · cases List.mem_singleton.mp hm
      exact .inl (Function.update_self ..)
  · by_cases hi : i = t
    · exact ⟨.waiting, by simp [Lock.enqueue, hi]⟩
    · simp only [Function.update_of_ne hi] at hm
      obtain ⟨q', hq'⟩ := h.lined i q hm
      exact ⟨q', List.mem_append_left _ hq'⟩
  · rcases List.mem_append.mp hm with hm | hm
    · obtain ⟨hl, hf⟩ := h.first i hm
      exact ⟨hl, by simp [Lock.enqueue, hf]⟩
    · cases List.mem_singleton.mp hm
  · have hs : (g.lock.enqueue t).standing = g.lock.standing ++ [t] := by
      simp [Lock.standing, Lock.enqueue]
    rw [hs, ← List.append_assoc]
    exact List.Sublist.append_right h.fifo _
  · simp only [Lock.enqueue, List.map_append, List.map_cons, List.map_nil]
    rw [← List.append_assoc, ← List.append_assoc]
    have ha := h.all.append_right [t]
    simpa only [List.append_assoc] using ha

theorem leave (h : g.Lined) {q' : Place} (hq : (t, q') ∈ g.lock.line) :
    ((g.lock.leave t).line.map (·.1)).Nodup ∧
      (∀ i q, (i, q) ∈ (g.lock.leave t).line → Function.update g.place t none i = some q ∨
        q = .granted ∧ Function.update g.place t none i = some .cancelled) ∧
      (∀ i q, Function.update g.place t none i = some q → ∃ q', (i, q') ∈ (g.lock.leave t).line) ∧
      (∀ i q, (i, q) ∈ (g.lock.leave t).line → i ≠ t ∧ (i, q) ∈ g.lock.line) ∧
      (g.lock.line.map (·.1)).Perm (t :: (g.lock.leave t).line.map (·.1)) ∧
      (g.lock.leave t).standing.Sublist g.lock.standing := by
  obtain ⟨as, bs, hl, hle⟩ := Lock.leave_line h.once hq
  have hsub : (g.lock.leave t).line.Sublist g.lock.line := by
    rw [hl, hle]
    exact List.Sublist.append_left (List.sublist_cons_self _ _) _
  have hperm : (g.lock.line.map (·.1)).Perm (t :: (g.lock.leave t).line.map (·.1)) := by
    rw [hl, hle]
    simp
  have hout : ∀ i q, (i, q) ∈ (g.lock.leave t).line → i ≠ t ∧ (i, q) ∈ g.lock.line := by
    intro i q hm
    refine ⟨?_, hsub.subset hm⟩
    rintro rfl
    exact (List.nodup_cons.mp (hperm.nodup_iff.mp h.once)).1 (List.mem_map_of_mem hm)
  refine ⟨(hsub.map _).nodup h.once, fun i q hm => ?_, fun i q hm => ?_, hout, hperm,
    (hsub.filter _).map _⟩
  · obtain ⟨hi, hm⟩ := hout i q hm
    simp only [Function.update_of_ne hi]
    exact h.placed i q hm
  · by_cases hi : i = t
    · subst hi
      rw [Function.update_self] at hm
      cases hm
    · rw [Function.update_of_ne hi] at hm
      obtain ⟨q', hq'⟩ := h.lined i q hm
      refine ⟨q', ?_⟩
      rw [hl] at hq'
      rw [hle]
      rcases List.mem_append.mp hq' with hm | hm
      · exact List.mem_append_left _ hm
      · rcases List.mem_cons.mp hm with he | hm
        · cases he
          exact absurd rfl hi
        · exact List.mem_append_right _ hm

theorem enters (h : g.Lined) (ht : g.place t = some .granted) :
    Lined { g with lock := (g.lock.leave t).take, place := Function.update g.place t none,
                   bears := Function.update g.bears t true, obtained := g.obtained ++ [t] } := by
  have hm := h.of_granted ht
  obtain ⟨honce, hplaced, hlined, hout, hperm, _⟩ := h.leave hm
  obtain ⟨r, hr⟩ : ∃ r, g.lock.line = (t, .granted) :: r :=
    List.head?_eq_some_iff.mp (h.first t hm).2
  have hle : (g.lock.leave t).line = r := by simp [Lock.leave, hr]
  refine ⟨honce, hplaced, hlined, fun i hi => ?_, ?_, ?_, h.turns.trans (List.sublist_append_left _ _),
    h.obtains t⟩
  · -- Only the first in line can have been let in.
    obtain ⟨hne, hi⟩ := hout i _ hi
    have hf := (h.first i hi).2
    rw [(h.first t hm).2] at hf
    cases hf
    exact absurd rfl hne
  · have hs : g.lock.standing = t :: (g.lock.leave t).take.standing := by
      simp [Lock.standing, hr, Lock.take, hle]
    have hf := h.fifo
    rw [hs] at hf
    simpa only [List.append_assoc, List.singleton_append] using hf
  · refine h.all.trans ?_
    simp only [List.append_assoc, List.perm_append_left_iff]
    refine (hperm.append_left g.quit).trans ?_
    exact List.perm_middle

theorem left (h : g.Lined) (ht : g.place t = some .cancelled) : (g.left t).Lined := by
  obtain ⟨q, hq⟩ := h.lined t _ ht
  obtain ⟨honce, hplaced, hlined, hout, hperm, hsub⟩ := h.leave hq
  refine ⟨honce, hplaced, hlined, fun i hi => ?_, ?_, ?_, h.turns, h.next⟩
  · obtain ⟨hne, hi⟩ := hout i _ hi
    obtain ⟨hk, hf⟩ := h.first i hi
    obtain ⟨r, hr⟩ := List.head?_eq_some_iff.mp hf
    exact ⟨hk, by simp [Guard.left, Lock.leave, hr, hne]⟩
  · exact (List.Sublist.append_left hsub _).trans h.fifo
  · refine h.all.trans (List.Perm.append_left _ ?_)
    simp only [Guard.left, List.append_assoc, List.perm_append_left_iff]
    exact hperm

end Lined

theorem Held.obtained (hk : g'.lock.locked = true) (hb : g'.bears = Function.update g.bears t true)
    (ho : ∀ i, g.bears i = false) (hl : ∀ i, g'.lease i = none) (hu : g'.inUse = false)
    (hm : g'.missed = []) : g'.Held careless c :=
  .passing (t := t) hk (by rw [hb, Function.update_self])
    (fun i hi => by rw [hb, Function.update_of_ne hi, ho i]) hl hu hm

theorem Sound.step (h : g.Sound careless c) (hs : g.Step careless c g') : g'.Sound careless c := by
  -- Whoever lets go of the lock leaves it open, and lets in the next one.
  have opens : ∀ {k : Guard}, k.Lined → k.lock.locked = true → (∀ t, k.bears t = false) →
      (∀ t, k.lease t = none) → k.inUse = false → (k.single = none ∨ k.single = some c.id) → k.missed = [] →
      k.unlock.Sound careless c := by
    intro k hl hk hb hle hu hs hm
    obtain ⟨hl', hw⟩ := (hl.opened hk).letIn rfl
    exact ⟨hl', fun _ => hw, .free (Lock.letIn_locked _) hb hle hu hm, hs⟩
  -- Whoever bears the lock is the only one, and nobody does once it does not.
  have alone : ∀ {t : Nat}, (∀ i, i ≠ t → g.bears i = false) → ∀ i, Function.update g.bears t false i = false := by
    intro t ho i
    by_cases hi : i = t
    · rw [hi, Function.update_self]
    · rw [Function.update_of_ne hi, ho i hi]
  have bare : ∀ {b : Nat → Bool} {used : List Nat}, (∀ i, b i = false) → ∀ i, b i = true →
      (used ++ [i]).Sublist g.obtained := fun hb i hi => nomatch (hb i).symm.trans hi
  cases hs with
  | rests => exact h
  | falters ht => exact ⟨h.line.falters ht, h.moves, h.held.congr rfl rfl rfl rfl rfl rfl, h.single⟩
  | @marks t ht =>
    refine ⟨h.line.marks ht, fun hk i hi => ?_, h.held.congr rfl rfl rfl rfl rfl rfl, h.single⟩
    simp only [Lock.mark, List.head?_map, Option.map_eq_some_iff] at hi
    obtain ⟨x, hx, he⟩ := hi
    split at he
    next => cases he
    next => cases he; exact h.moves hk i hx
  | takes _ hk =>
    obtain ⟨hb, hl, hu, hm⟩ := h.held.open (Lock.isFree_iff.mp hk).1
    exact ⟨h.line.takes hk, nofun, .obtained rfl rfl hb hl hu hm, h.single⟩
  | @waits t hp hk =>
    refine ⟨h.line.waits hp, fun ho i hi => ?_, h.held.congr rfl rfl rfl rfl rfl rfl, h.single⟩
    -- A lock that is open is not free only where somebody is in line.
    simp only [Lock.enqueue] at ho hi
    cases hl : g.lock.line with
    | nil => simp [Lock.isFree, ho, hl] at hk
    | cons x r =>
      rw [hl] at hi
      exact h.moves ho i (by rw [hl]; exact hi)
  | enters hp =>
    have hopen := (h.line.first _ (h.line.of_granted hp)).1
    obtain ⟨hb, hl, hu, hm⟩ := h.held.open hopen
    exact ⟨h.line.enters hp, nofun, .obtained rfl rfl hb hl hu hm, h.single⟩
  | @quits t hp =>
    have hl := h.line.left hp
    split
    next hk =>
      refine ⟨hl, fun ho => ?_, h.held.congr rfl rfl rfl rfl rfl rfl, h.single⟩
      cases hk.symm.trans ho
    next hk =>
      obtain ⟨hl', hm⟩ := hl.letIn (Bool.eq_false_iff.mpr hk)
      exact ⟨hl', fun _ => hm, h.held.congr (Lock.letIn_locked _) rfl rfl rfl rfl rfl, h.single⟩
  | @uses t hb hs =>
    obtain ⟨hk, ho, hl, _, hm⟩ := h.held.bears hb
    exact ⟨h.line.bear rfl rfl rfl rfl rfl rfl (h.line.next t hb) (bare (alone ho)), h.moves,
      .lent (t := t) hk (alone ho) (Function.update_self ..)
        (fun i hi => (Function.update_of_ne hi ..).trans (hl i)) rfl hs hm, h.single⟩
  | misses hb hs =>
    obtain ⟨hk, ho, hl, hu, hm⟩ := h.held.bears hb
    exact ⟨h.line.bear rfl rfl rfl rfl rfl rfl h.line.turns (bare (alone ho)), h.moves,
      .stuck hk (alone ho) hl hu hs (by rw [hm]; rfl), h.single⟩
  | opens hb hs =>
    obtain ⟨hk, ho, hl, hu, hm⟩ := h.held.bears hb
    refine opens (h.line.bear rfl rfl rfl rfl rfl rfl h.line.turns (bare (alone ho))) hk (alone ho) hl hu ?_ hm
    rcases hs with rfl | rfl
    · exact h.single
    · exact .inl rfl
  | @returns t ht =>
    obtain ⟨hk, hb, _, hl, _, hs, hm⟩ := h.held.has ht
    refine opens (h.line.bear rfl rfl rfl rfl rfl rfl h.line.turns (bare hb)) hk hb (fun i => ?_) rfl h.single hm
    by_cases hi : i = t
    · subst hi
      exact Function.update_self ..
    · exact (Function.update_of_ne hi ..).trans (hl i hi)
  | @forgets t hc ht =>
    obtain ⟨hk, hb, _, hl, hu, hs, hm⟩ := h.held.has ht
    refine ⟨h.line.bear rfl rfl rfl rfl rfl rfl h.line.turns (bare hb), h.moves,
      .lost hc hk hb (fun i => ?_) hu hs hm, h.single⟩
    by_cases hi : i = t
    · subst hi
      exact Function.update_self ..
    · exact (Function.update_of_ne hi ..).trans (hl i hi)
  | finds _ hb hl hu =>
    obtain ⟨hk, hm⟩ : g.lock.locked = true ∧ g.missed = [] := by
      cases h.held with
      | free _ _ _ h | passing _ _ _ _ h | stuck _ _ _ h => cases h.symm.trans hu
      | lent hk _ _ _ _ _ hm | lost _ hk _ _ _ _ hm => exact ⟨hk, hm⟩
    exact opens (h.line.bear rfl rfl rfl rfl rfl rfl h.line.turns (bare hb)) hk hb hl rfl h.single hm

end Guard

end SqliteAccess.Loop
