import SqliteAccess.Proofs.Pool.Asleep

/-!
What becomes of a caller that sleeps in line: it ends with a connection or with a failure, and with none but that of
a pool that has been closed, unless anything else has reached it.
-/

namespace SqliteAccess.Loop

/-- The caller has been asked to cancel, or has been woken by anything but the end of the pool. -/
def State.Reached (l : State) (c : Nat) : Prop :=
  ∃ k, l.tasks[c]? = some k ∧
    (k.cancelRequested = true ∨ ∃ signal st, k.status = .ready signal st ∧ signal ≠ some .poolClosed)

inductive Status.Bides (p : Nat) (R : Prop) : Status → Prop
  | waits (w : Wait) : Status.Bides p R (.paused w (.push (.inLine p) (.done .lease)))
  | told (signal : Option Failure) : Status.Bides p R (.ready signal (.push (.inLine p) (.done .lease)))
  | running : Status.Bides p R .running
  | ended {o : Outcome .lease} : R ∨ o = .error .poolClosed → Status.Bides p R (.finished .lease o)

inductive Running.Bides (p : Nat) (R : Prop) : Running → Prop
  | back {c : Nat} {o : Outcome .unit} : R ∨ o = .error .poolClosed →
      Running.Bides p R ⟨c, .unit, .give o, .push (.inLine p) (.done .lease)⟩
  | gives {c : Nat} {o : Outcome .lease} : R ∨ o = .error .poolClosed →
      Running.Bides p R ⟨c, .lease, .give o, .done .lease⟩

structure Bides (p c : Nat) (R : Prop) (l : State) : Prop where
  task : ∃ k, l.tasks[c]? = some k ∧ k.status.Bides p R
  running : ∀ r, l.running = some r → r.task = c → r.Bides p R
  reached : l.Reached c → R

section Moves

variable {p c : Nat} {X Y : Prop} {v : Option Event} {l l' m : State} {s s' : Pool.State} {R R' : Prop}

theorem Status.Bides.mono {x : Status} (h : x.Bides p R) (hR : R → R') : x.Bides p R' := by
  cases h with
  | waits w => exact .waits w
  | told signal => exact .told signal
  | running => exact .running
  | ended ho => exact .ended (ho.imp_left hR)

theorem Running.Bides.mono {r : Running} (h : r.Bides p R) (hR : R → R') : r.Bides p R' := by
  cases h with
  | back ho => exact .back (ho.imp_left hR)
  | gives ho => exact .gives (ho.imp_left hR)

theorem Status.Nudge.bides {D : Failure → Prop} {x y : Status} (h : x.Nudge D y) (hx : x.Bides p R) :
    y.Bides p R := by
  cases h with
  | same => exact hx
  | woken =>
    cases hx
    exact .told _
  | recounted =>
    cases hx
    exact .waits _

theorem Changed.bides {C : Nat → Prop} {D : Nat → Failure → Prop} {E : Nat → Follower → Prop} {N : Nat}
    {cs : List (Call .unit)} (hc : Changed p C D E l l' s N cs)
    (h : ∃ k, l.tasks[c]? = some k ∧ k.status.Bides p R) : ∃ k, l'.tasks[c]? = some k ∧ k.status.Bides p R := by
  obtain ⟨k, hk, hb⟩ := h
  obtain ⟨k', hk', hn⟩ := hc.task hk
  exact ⟨k', hk', hn.status.bides hb⟩

theorem Bides.work (hb : Bides p c R l) {u : Shape} {w : Work u} {t : Nat} {k : Stack u} {n : Next u} {N N' : Nat}
    {cs : List (Call .unit)} {C : Nat → Prop} {D : Nat → Failure → Prop} {E : Nat → Follower → Prop}
    (hr : l.running = some (w.on t k)) (ha : Act p t l.tasks.length N s w s' N' cs n)
    (hc : Changed p C D E l m s' N' cs) :
    (∃ x, (m.carryOn t n k).tasks[c]? = some x ∧ x.status.Bides p R) ∧
      ∀ r, (m.carryOn t n k).running = some r → r.task = c → r.Bides p R := by
  have hm := hc.bides hb.task
  rw [State.carryOn_tasks]
  by_cases hct : t = c
  · subst hct
    have hrb := hb.running _ hr (Work.on_task w t k)
    cases w with
    | call => cases hrb
    | back f o =>
      cases hrb with
      | back ho =>
        have gives : ∀ o' : Outcome .lease, R ∨ o' = .error .poolClosed →
            (∃ x, (m.tasks.modify t fun x => { x with status := Next.lays (.give o') (.done .lease) x.status })[t]? =
              some x ∧ x.status.Bides p R) ∧
            ∀ r, (m.carryOn t (.give o') (.done .lease)).running = some r → r.task = t → r.Bides p R := by
          intro o' ho'
          obtain ⟨y, hy, hyb⟩ := hm
          exact ⟨⟨y, by rw [List.getElem?_modify_eq, hy]; rfl, hyb⟩, fun r hr' _ => by cases hr'; exact .gives ho'⟩
        cases ha with
        | served | misled => exact gives _ (.inl (ho.resolve_right (by simp)))
        | leaves | passesOn =>
          refine gives _ (ho.imp_right fun he => ?_)
          cases he
          rfl
  · refine ⟨?_, fun r hr' hrc => absurd ((State.carryOn_running hr').symm.trans hrc) hct⟩
    rw [List.getElem?_modify_ne _ _ hct]
    exact hm

theorem Bides.answer (hb : Bides p c R l) {x : Task} {signal : Option Failure} {st : Stack .unit}
    (hx : l.tasks[c]? = some x) (hs : x.status = .ready signal st) :
    R ∨ x.answer signal = .error .poolClosed := by
  by_cases hR : R
  · exact .inl hR
  right
  have hflag : ¬ x.cancelRequested = true := fun hf => hR (hb.reached ⟨x, hx, .inl hf⟩)
  obtain rfl : signal = some .poolClosed := by
    by_contra hne
    exact hR (hb.reached ⟨x, hx, .inr ⟨signal, st, hs, hne⟩⟩)
  unfold Task.answer
  rw [if_neg hflag]

theorem Bides.aside (hb : Bides p c R l) (ha : Aside p X Y v l l' s s') :
    (∃ x, l'.tasks[c]? = some x ∧ x.status.Bides p R) ∧ ∀ r, l'.running = some r → r.task = c → r.Bides p R := by
  obtain ⟨k, hk, hkb⟩ := hb.task
  have hlt := (List.getElem?_eq_some_iff.mp hk).1
  cases ha with
  | @ends t u o hr hc =>
    refine ⟨hc.bides ?_, fun r hr' => by cases hc.running.symm.trans hr'⟩
    by_cases hct : t = c
    · subst hct
      refine ⟨{ k with status := .finished u o, followers := [] }, by simp [State.lay, State.modifyTask, hk], ?_⟩
      cases hb.running _ hr rfl with
      | gives ho => exact .ended ho
    · exact ⟨k, (List.getElem?_modify_ne _ _ hct).trans hk, hkb⟩
  | @goesOn t signal st x hr hx hs hr' ht =>
    rw [ht]
    by_cases hct : t = c
    · subst hct
      refine ⟨⟨_, by rw [List.getElem?_modify_eq, hk]; rfl, .running⟩, fun r hr'' _ => ?_⟩
      cases hr'.symm.trans hr''
      have hans := hb.answer hx hs
      cases hk.symm.trans hx
      rw [hs] at hkb
      cases hkb
      exact .back hans
    · refine ⟨⟨k, (List.getElem?_modify_ne _ _ hct).trans hk, hkb⟩, fun r hr'' hrc => ?_⟩
      cases hr'.symm.trans hr''
      exact absurd hrc hct
  | enters _ hr hr' ht =>
    refine ⟨⟨k, by rw [ht, List.getElem?_append_left hlt, hk], hkb⟩, fun r hr'' hrc => ?_⟩
    cases hr'.symm.trans hr''
    exact absurd hrc (Nat.ne_of_gt hlt)
  | spawns _ _ hr' ht =>
    exact ⟨⟨k, by rw [ht, List.getElem?_append_left hlt, hk], hkb⟩, fun r hr'' => by cases hr'.symm.trans hr''⟩
  | lull hr _ hc | releases _ hr _ _ hc | discards hr _ _ hc =>
    exact ⟨hc.bides ⟨k, hk, hkb⟩, fun r hr' => by cases hr.symm.trans (hc.running.symm.trans hr')⟩

theorem Bides.move (hb : Bides p c R l) (hm : Move p X Y v l l' s s') (hR : R → R')
    (hreached : l'.Reached c → R') : Bides p c R' l' := by
  suffices (∃ x, l'.tasks[c]? = some x ∧ x.status.Bides p R) ∧
      ∀ r, l'.running = some r → r.task = c → r.Bides p R by
    obtain ⟨⟨x, hx, hxb⟩, hr⟩ := this
    exact ⟨⟨x, hx, hxb.mono hR⟩, fun r hr' hrc => (hr r hr' hrc).mono hR, hreached⟩
  cases hm with
  | work hr _ _ ha hc heq => exact heq ▸ hb.work hr ha hc
  | aside _ _ ha => exact hb.aside ha

theorem State.Dozes.bides (h : Sound p l s) (hd : l.Dozes p c) : Bides p c (l.Reached c) l := by
  obtain ⟨k, timer, st, hk, hs⟩ := hd
  refine ⟨⟨k, hk, ?_⟩, fun r hr hrc => ?_, id⟩
  · have hf := h.tasks c k hk
    rw [hs] at hf ⊢
    cases hf with
    | paused hp hst =>
      cases hp
      cases hst with
      | push hrest hst =>
        cases hrest
        cases hst with
        | done => exact .waits _
        | push ha => cases ha
  · cases hs.symm.trans (h.status_running hr (hrc ▸ hk))

end Moves

end SqliteAccess.Loop
