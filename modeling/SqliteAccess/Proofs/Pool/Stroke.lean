import SqliteAccess.Proofs.Pool.Attentive

/-!
The steps of a pool that has been shut, while nobody cancels the call that shuts it and the driver lets its closes
succeed. In what others do nothing reaches that call but what it waits for.
-/

namespace SqliteAccess.Loop

/-- Users do as they like, but nobody cancels the task, and the driver fails no close. -/
def Obliging (t : Nat) (_ : State) : Event → Prop
  | .cancel i => i ≠ t
  | .answerClose i signal => i = t → signal = none
  | .driver o => o.failCloses = []
  | _ => True

def Wait.Winds : Wait → Prop
  | .task _ | .closing _ | .tasks _ _ => True
  | _ => False

def State.Closes (l : State) (t : Nat) : Prop :=
  ∃ k c st, l.tasks[t]? = some k ∧ k.status = .paused (.closing c) st

inductive Stroke (p t : Nat) (l : State) : State → Prop
  | works {u : Shape} {w : Work u} {d : Call u} {i : Nat} {k : Stack u} : l.running = some (w.on i k) → w.Of p d →
      k.Holds p d → Stroke p t l ((w.perform l).1.carryOn i (w.perform l).2 k)
  | ends {i : Nat} {u : Shape} {o : Outcome u} : l.running = some ⟨i, u, .give o, .done u⟩ →
      Stroke p t l (l.finish i o)
  | goesOn {i : Nat} {signal : Option Failure} {st : Stack .unit} {x : Task} {l' : State} : l.running = none →
      l.tasks[i]? = some x → x.status = .ready signal st →
      l'.running = some ⟨i, .unit, .give (x.answer signal), st⟩ →
      l'.tasks = l.tasks.modify i (fun x => { x with status := .running, cancelRequested := false }) →
      l'.opener = l.opener → Stroke p t l l'
  | counts {m : State} (i j : Nat) : l.running = none → m.tasks = l.tasks → m.running = none → m.opener = l.opener →
      Stroke p t l (m.count i j)
  | enters {u : Shape} {c : Call u} {x : Task} {l' : State} : l.running = none →
      l'.running = some ⟨l.tasks.length, u, .call c, .done u⟩ → l'.tasks = l.tasks ++ [x] → x.status = .running →
      x.followers = [] → l'.opener = l.opener → Stroke p t l l'
  | aside {m l' : State} : l.running = none → m.tasks = l.tasks → m.running = none → m.opener = l.opener →
      Rouses p (fun i signal => i = t → signal = none ∧ l.Closes t) (fun i => i ≠ t) (fun _ _ => False) m l' →
      Stroke p t l l'

section Strokes

variable {p t : Nat} {l l' m : State} {s : Pool.State}

theorem State.perform_stroke (hr : l.running = none)
    (hw : ∀ k w st, l.tasks[t]? = some k → k.status = .paused w st → w.Winds) (hm : m.running = none)
    (ht : m.tasks = l.tasks) (ho : m.opener = l.opener) (j : Job) : Stroke p t l (m.perform j) := by
  -- Whoever waits for something else is not the task.
  have other : ∀ {i : Nat} {k : Task} {w : Wait} {st : Stack .unit}, m.tasks[i]? = some k →
      k.status = .paused w st → ¬ w.Winds → ∀ signal : Option Failure, i = t → signal = none ∧ l.Closes t := by
    rintro i k w st hk hs hn signal rfl
    exact absurd (hw k w st (ht ▸ hk) hs) hn
  cases j with
  | step i =>
    rw [State.perform, State.stepTask]
    split
    next signal st _ b _ hk =>
      rw [ht] at hk
      exact .goesOn hr hk rfl rfl (by simp [State.modifyTask, ht]) ho
    next => exact .aside hr ht hm ho .refl
  | ring n =>
    refine .aside hr ht hm ho ?_
    rw [State.perform, State.ring]
    generalize hown : m.tasks.findIdx? _ = owner
    cases owner with
    | none => exact .refl
    | some i =>
      obtain ⟨hlt, hp, _⟩ := List.findIdx?_eq_some_iff_getElem.mp hown
      have hk := List.getElem?_eq_getElem hlt
      dsimp only
      split
      next q timer st _ _ _ hk' =>
        rw [State.wake_modifyPool]
        exact (Rouses.refl.wake i (other hk' rfl id _)).giveUp (m.not_dozes_wake i _) q
      next hne =>
        refine Rouses.refl.wake i (fun hit => ⟨rfl, ?_⟩)
        subst hit
        generalize m.tasks[i] = k at hk hp
        obtain ⟨status, context, flag, followers⟩ := k
        cases status with
        | paused w st =>
          have hwinds := hw _ w st (ht ▸ hk) rfl
          cases w <;> first | exact hwinds.elim | cases hp
        | ready | running | finished => cases hp
  | dropBackground q i => exact .aside hr ht hm ho (Rouses.refl.tidy q fun _ _ => rfl)
  | count i j => exact .counts i j hr ht hm ho
  | notice i =>
    refine .aside hr ht hm ho ?_
    rw [State.perform, State.notice]
    split
    next hk => exact Rouses.refl.wake i (other hk rfl id _)
    next => exact .refl

theorem State.step_stroke (h : Sound p l s) (hw : ∀ k w st, l.tasks[t]? = some k → k.status = .paused w st → w.Winds)
    (hl : l.step? = some l') : Stroke p t l l' := by
  have job : ∀ {m : State}, l.running = none → m.running = none → m.tasks = l.tasks → m.opener = l.opener →
      m.nextJob = some l' → Stroke p t l l' := by
    intro m hr hm ht ho hj
    unfold State.nextJob at hj
    split at hj
    next => cases hj
    next j rest _ =>
      cases hj
      exact State.perform_stroke (m := { m with ready := rest, turnLeft := m.turnLeft - 1 }) hr hw hm ht ho j
  unfold State.step? at hl
  split at hl
  next r hr =>
    cases hl
    have hf := (h.running r hr).1
    have work : ∀ {u : Shape} {w : Work u} {d : Call u} {st : Stack u}, r = w.on r.task st → w.Of p d →
        st.Holds p d → Stroke p t l (l.advance r) := by
      intro u w d st he hd hst
      rw [he, State.advance_on]
      exact .works (he ▸ hr) hd hst
    obtain ⟨i, u, control, st⟩ := r
    cases control with
    | call c => exact work (w := .call c) rfl (.call c) hf
    | give o =>
      cases st with
      | push f st =>
        cases hf with
        | push hrest hst => exact work (w := .back f o) rfl (.back o hrest) hst
      | done => exact .ends hr
  next hr =>
    split at hl
    · exact job (m := l.startTurn) hr hr rfl rfl hl
    · exact job hr hr rfl rfl hl

theorem State.after_stroke (h : Sound p l s) (hr : l.running = none)
    (hw : ∀ k w st, l.tasks[t]? = some k → k.status = .paused w st → w.Winds)
    (hal : ∀ i ≠ t, i < l.tasks.length → Weight.shutting.of l i = 0) (hline : t ∉ s.line) {e : Event}
    (he : e.Offered p) (ha : Obliging t l e) : Stroke p t l (l.after e) := by
  have aside : ∀ {l'}, Rouses p (fun i signal => i = t → signal = none ∧ l.Closes t) (fun i => i ≠ t)
      (fun _ _ => False) l l' → Stroke p t l l' := .aside hr rfl hr rfl
  cases e with
  | enter c => exact .enters hr rfl rfl rfl rfl rfl
  | spawn c => exact aside (Rouses.refl.spawn c (by simp))
  | release q id =>
    cases he
    refine aside (.release h.pool id fun i hi hit => ?_)
    exact absurd (hit ▸ hi) hline
  | cancel i =>
    refine aside (Rouses.refl.cancelWithin _ ha (fun hit => absurd hit ha) fun k hk hp => ?_)
    have h0 := hal i ha (List.getElem?_eq_some_iff.mp hk).1
    exact absurd (h.passes_shutting hk hp) (by omega)
  | answerOpen i signal =>
    unfold State.after State.answerOpen
    dsimp only
    split
    next n st _ _ _ hk =>
      have ho : Rouses p (fun i signal => i = t → signal = none ∧ l.Closes t) (fun i => i ≠ t) (fun _ _ => False) l
          (l.modifyOpener fun o => o.dropOpen n) :=
        Rouses.refl.apart rfl (List.prefix_refl _) rfl rfl (List.suffix_refl _)
      refine aside (ho.wake i fun hit => ?_)
      subst hit
      exact (hw _ _ st hk rfl).elim
    next => exact aside .refl
  | answerClose i signal =>
    unfold State.after State.answerClose
    dsimp only
    split
    next c st _ _ _ hk =>
      have ho : Rouses p (fun i signal => i = t → signal = none ∧ l.Closes t) (fun i => i ≠ t) (fun _ _ => False) l
          (l.modifyOpener fun o => o.dropClose c) :=
        Rouses.refl.apart rfl (List.prefix_refl _) rfl rfl (List.suffix_refl _)
      exact aside (ho.wake i fun hit => ⟨ha hit, hit ▸ ⟨_, c, st, hk, rfl⟩⟩)
    next => exact aside .refl
  | driver o =>
    refine aside (Rouses.refl.apart rfl (List.prefix_refl _) rfl rfl ?_)
    have hn : o.failCloses = [] := ha
    exact hn ▸ List.nil_suffix
  | tick now => exact aside (Rouses.refl.apart rfl (List.prefix_refl _) rfl rfl (List.suffix_refl _))

theorem Step.stroke (h : Sound p l s) (hw : ∀ k w st, l.tasks[t]? = some k → k.status = .paused w st → w.Winds)
    (hal : ∀ i ≠ t, i < l.tasks.length → Weight.shutting.of l i = 0) (hline : t ∉ s.line)
    (hst : Step p (Obliging t) l l') : Stroke p t l l' := by
  cases hst with
  | loop hl => exact State.step_stroke h hw hl
  | event e hr he ha => exact State.after_stroke h hr hw hal hline he ha

end Strokes

end SqliteAccess.Loop
