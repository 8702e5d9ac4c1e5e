import SqliteAccess.Proofs.Pool.Drain
import SqliteAccess.Proofs.Pool.Line

/-!
The sweep ends only by a cancellation, as long as its interval is a number. So the call that closes the
pool clears the line, whatever happens to it while it waits for the sweep.
-/

namespace SqliteAccess.Loop

def Weight.reaping : Weight where
  call
    | .reap _ => 1
    | _ => 0
  rest
    | .rested _ _ | .swept _ _ => 1
    | _ => 0

theorem Weight.reaping_rooted (p : Nat) : reaping.Rooted p :=
  ⟨fun h => by cases h <;> rfl, fun h => by cases h <;> rfl, fun _ => rfl⟩

def Outcome.Gentle {u : Shape} (o : Outcome u) : Prop := ∀ e, o = .error e → e = .cancelled

inductive State.Gentle (l : State) (i : Nat) : Prop
  | sweeps : 0 < Weight.reaping.of l i → State.Gentle l i
  | ends {u : Shape} {o : Outcome u} : l.running = some ⟨i, u, .give o, .done u⟩ → o.Gentle →
      State.Gentle l i
  | ended {u : Shape} {o : Outcome u} : l.Ended i o → o.Gentle → State.Gentle l i

def Stack.Spared (e : Failure) (k : Stack .unit) : Prop := e = .cancelled ∨ Weight.resting.stack k = 0

def Work.Spared {u : Shape} (w : Work u) : Prop :=
  ∀ (f : Frame .unit u) (e : Failure), w = .back f (.error e) →
    e = .cancelled ∨ Weight.resting.frame f = 0

structure Tranquil (l : State) (s : Pool.State) : Prop where
  signal : ∀ (i : Nat) (k : Task) (e : Failure) (st : Stack .unit), l.tasks[i]? = some k →
    k.status = .ready (some e) st → st.Spared e
  comes : ∀ (t : Nat) (e : Failure) (st : Stack .unit),
    l.running = some ⟨t, .unit, .give (.error e), st⟩ → st.Spared e
  reaper : ∀ r, s.reaper = some r → l.Gentle r
  followed : ∀ (i : Nat) (k : Task) (t : Nat), l.tasks[i]? = some k → .resume t ∈ k.followers →
    l.Gentle i

structure Paced (s : Pool.State) : Prop where
  whole : s.settings.minConnections.isInteger = true
  interval : ∃ d, Config.seconds s.settings.reapIntervalMs = .ok d

section Acts

variable {p t T N N' : Nat} {s s' : Pool.State} {u : Shape} {w : Work u} {cs : List (Call .unit)}
  {n : Next u}

theorem Rests.reaping {n : Next .unit} (h : Rests p n) : 0 < Weight.reaping.next n := by
  cases h <;> exact Nat.one_pos

theorem Act.gentle (h : Act p t T N s w s' N' cs n) (hs : Paced s) (hw : 0 < Weight.reaping.work w)
    (hc : w.Spared) : 0 < Weight.reaping.next n ∨ ∃ o, n = .give o ∧ o.Gentle := by
  obtain ⟨hz, d, hd⟩ := hs
  have cut : ∀ {f : Frame .unit u} {e : Failure}, w = .back f (.error e) →
      0 < Weight.resting.frame f → Outcome.Gentle (u := u) (.error e) := by
    intro f e hf hpos e' he
    cases he
    rcases hc f e hf with h0 | h0
    · exact h0
    · omega
  cases h
  case started => exact .inl hw
  case neverStarted e c =>
    refine .inr ⟨_, rfl, cut rfl ?_⟩
    cases c <;> first | exact Nat.one_pos | exact absurd hw (Nat.lt_irrefl 0)
  case reaps hr => exact .inl hr.reaping
  case reapFails he => cases hd.symm.trans he
  case restCut i e => exact .inr ⟨_, rfl, cut rfl Nat.one_pos⟩
  case restOver => exact .inl Nat.one_pos
  case sweptCut =>
    refine .inr ⟨_, rfl, fun e he => ?_⟩
    cases he
    rfl
  case sweptOver hr => exact .inl hr.reaping
  case sweptFails he => exact absurd he (Pool.State.shortfall_ne_error hz _)
  all_goals exact absurd hw (Nat.lt_irrefl 0)

end Acts

section Moves

variable {p i : Nat} {X Y : Prop} {v : Option Event} {l l' m : State} {s s' : Pool.State}

theorem Weight.status_le {W : Weight} {k : Task} (hk : l.tasks[i]? = some k) :
    W.status k.status ≤ W.of l i := by
  simp [Weight.of, hk]

theorem State.Gentle.lt (h : Sound p l s) (hg : l.Gentle i) : i < l.tasks.length := by
  cases hg with
  | sweeps hpos =>
    by_contra hn
    rw [Weight.of_eq_zero (fun _ hr => h.running_lt hr) (Nat.le_of_not_lt hn)] at hpos
    exact Nat.lt_irrefl 0 hpos
  | ends hr _ => exact h.running_lt hr
  | ended he _ =>
    obtain ⟨k, hk, _⟩ := he
    exact (List.getElem?_eq_some_iff.mp hk).1

theorem Work.on_ne_end {u v : Shape} {w : Work u} {t : Nat} {k : Stack u} {o : Outcome v} :
    w.on t k ≠ ⟨i, v, .give o, .done v⟩ := by
  cases w <;> exact nofun

theorem Tranquil.work_spared (hq : Tranquil l s) {u : Shape} {w : Work u} {t : Nat} {k : Stack u}
    (hr : l.running = some (w.on t k)) : w.Spared := by
  rintro f e rfl
  exact (hq.comes t e _ hr).imp_right fun h0 => (Nat.add_eq_zero_iff.mp h0).1

theorem State.Gentle.move (h : Sound p l s) (hq : Tranquil l s) (hs : Paced s)
    (hm : Move p X Y v l l' s s') (hg : l.Gentle i) : l'.Gentle i := by
  have hi := hg.lt h
  cases hg with
  | ended he ho => exact .ended (hm.ended h he) ho
  | ends hr ho =>
    cases hm with
    | work hr' => exact absurd (Option.some.inj (hr'.symm.trans hr)) Work.on_ne_end
    | aside _ _ ha => exact .ended (ha.ends_ended h hr) ho
  | sweeps hpos =>
    cases hm with
    | @work u w d t k n cs m hr hd hk ha hc heq =>
      subst heq
      by_cases hit : i = t
      · subst hit
        by_cases h0 : Weight.reaping.work w = 0
        · exact .sweeps (h.carryOn_pos hr hc (.inr ⟨h0, hpos⟩))
        · have hw : 0 < Weight.reaping.work w := Nat.pos_of_ne_zero h0
          rcases ha.gentle hs hw (hq.work_spared hr) with hn | ⟨o, rfl, ho⟩
          · exact .sweeps (h.carryOn_pos hr hc (.inl hn))
          · obtain rfl := (Weight.reaping_rooted p).alone hk hd hw
            exact .ends rfl ho
      · exact .sweeps (((h.work_weight (W := .reaping) hr hc).2.1 i hi hit).symm ▸ hpos)
    | aside _ _ ha => exact .sweeps ((ha.weight_of h hi).symm ▸ hpos)

theorem Lined.spared (hl : Lined p l s) {k : Task} {w : Wait} {st : Stack .unit}
    (hw : ∃ w ∈ s.waiters, w.task = i) (hk : l.tasks[i]? = some k) (hs : k.status = .paused w st) :
    Weight.resting.stack st = 0 := by
  obtain ⟨x, hx, rfl⟩ := hw
  have hu := hl.unserved x.task (List.mem_map_of_mem hx)
  rcases hu.status k hk with hs' | hs'
  · cases hs.symm.trans hs'
  · rw [hs] at hs'
    cases hs'
    rfl

theorem Tranquil.spared (h : Sound p l s) (hq : Tranquil l s) {k : Task} {w : Wait} {st : Stack .unit}
    {e : Failure} (hk : l.tasks[i]? = some k) (hs : k.status = .paused w st)
    (he : e ≠ .cancelled → Weight.resting.of l i = 0 ∨ l.EndsWith e i) : st.Spared e := by
  by_cases hc : e = .cancelled
  · exact .inl hc
  rcases he hc with h0 | ⟨j, u, x, hr, hx, hf⟩
  · have hle := Weight.status_le (W := .resting) hk
    rw [hs, h0] at hle
    exact .inr (Nat.le_zero.mp hle)
  · -- What ends is the sweep, and that ends with nothing but a cancellation.
    refine absurd ?_ hc
    obtain ⟨_, y, hy, hst⟩ := h.running _ hr
    cases hq.followed j x i hx hf with
    | sweeps hpos => simp [Weight.of, hy, hst, hr, Weight.status, Weight.running, Weight.control,
        Weight.stack] at hpos
    | ends hr' ho =>
      cases hr.symm.trans hr'
      exact ho e rfl
    | ended hend => exact absurd rfl (h.ended_ne hr hend)

theorem Tranquil.signal_aside (h : Sound p l s) (hq : Tranquil l s) (ha : Aside p X Y v l l' s s')
    {k : Task} {e : Failure} {st : Stack .unit} (hk : l'.tasks[i]? = some k)
    (hs : k.status = .ready (some e) st) : st.Spared e := by
  have told : ∀ {a : State} {C : Nat → Prop} {D : Nat → Failure → Prop} {s₁ : Pool.State} {N : Nat}
      {cs : List (Call .unit)}, Changed p C D (fun _ _ => False) a l' s₁ N cs →
      (∀ x : Task, a.tasks[i]? = some x → x.status = k.status ∨ (∃ w, x.status = .paused w st) →
        l.tasks[i]? = some x) →
      (D i e → e ≠ .cancelled → Weight.resting.of l i = 0 ∨ l.EndsWith e i) → st.Spared e := by
    intro a C D s₁ N cs hc hold hd
    obtain ⟨x, hx, hsame | ⟨hde, w, hw⟩⟩ := hc.told hk hs
    · exact hq.signal i x e st (hold x hx (.inl (hsame.trans hs.symm))) hsame
    · exact hq.spared h (hold x hx (.inr ⟨w, hw⟩)) hw (hd hde)
  cases ha with
  | ends o hr hc =>
    refine told hc (fun x hx hst => ?_) fun hd => hd.2.2
    rcases modify_cases hx with ⟨_, hx⟩ | ⟨_, _, _, rfl⟩
    · exact hx
    · rw [hs] at hst
      rcases hst with hst | ⟨_, hst⟩ <;> cases hst
  | goesOn _ _ _ _ ht =>
    rw [ht] at hk
    rcases modify_cases hk with ⟨_, hk⟩ | ⟨_, _, _, rfl⟩
    · exact hq.signal i k e st hk hs
    · cases hs
  | lull _ _ hc _ _ _ _ hr => exact told hc (fun _ hx _ => hx) fun hd hne => .inl (hr i e hd hne)
  | enters _ _ _ ht hr =>
    rw [ht] at hk
    rcases append_cases hk with hk | ⟨_, rfl⟩
    · exact hq.signal i k e st hk hs
    · cases hr.symm.trans hs
  | spawns _ _ _ ht hm =>
    rw [ht] at hk
    rcases append_cases hk with hk | ⟨_, rfl⟩
    · exact hq.signal i k e st hk hs
    · cases hm.status.symm.trans hs
  | releases _ _ _ _ hc => exact told hc (fun _ hx _ => hx) False.elim
  | discards _ _ _ hc => exact told hc (fun _ hx _ => hx) False.elim

theorem Tranquil.comes_aside (hq : Tranquil l s) (ha : Aside p X Y v l l' s s') {t : Nat} {e : Failure}
    {st : Stack .unit} (hr : l'.running = some ⟨t, .unit, .give (.error e), st⟩) : st.Spared e := by
  cases ha with
  | ends _ _ hc => cases hc.running.symm.trans hr
  | @goesOn t' signal k x _ hx hs hr' _ =>
    generalize ho : x.answer signal = o at hr'
    cases hr'.symm.trans hr
    unfold Task.answer at ho
    by_cases hc : x.cancelRequested = true
    · rw [if_pos hc] at ho
      cases ho
      exact .inl rfl
    · rw [if_neg hc] at ho
      cases signal with
      | none => cases ho
      | some e' =>
        cases ho
        exact hq.signal t x e st hx hs
  | lull hn _ hc => cases hn.symm.trans (hc.running.symm.trans hr)
  | enters _ _ hr' => cases hr'.symm.trans hr
  | spawns _ _ hr' => cases hr'.symm.trans hr
  | releases _ hn _ _ hc => cases hn.symm.trans (hc.running.symm.trans hr)
  | discards hn _ _ hc => cases hn.symm.trans (hc.running.symm.trans hr)

theorem Tranquil.aside (h : Sound p l s) (hq : Tranquil l s) (hs : Paced s)
    (hp : l'.pool? p = some s') (hN : l'.nextConnection = l.nextConnection)
    (ha : Aside p X Y v l l' s s') : Tranquil l' s' := by
  have gentle : ∀ {j : Nat}, l.Gentle j → l'.Gentle j := .move h hq hs (.aside hp hN ha)
  refine ⟨fun i k e st hk hst => hq.signal_aside h ha hk hst, fun t e st hr => hq.comes_aside ha hr,
    fun r hr => ?_, fun i k t hk hf => ?_⟩
  · rw [ha.constant.2.2.1] at hr
    exact gentle (hq.reaper r hr)
  · obtain ⟨x, hx, hf⟩ := (ha.tasks h hk).2 t hf
    exact gentle (hq.followed i x t hx hf)

section Work

variable {u : Shape} {w : Work u} {d : Call u} {t : Nat} {k : Stack u} {n : Next u}
  {cs : List (Call .unit)}

theorem Tranquil.signal_work (hl : Lined p l s) (hq : Tranquil l s)
    (hc : Changed p (fun i => s.reaper = some i) (Tells s s') (Follows w t s s') l m s'
      m.nextConnection cs) {x : Task} {e : Failure} {st : Stack .unit}
    (hx : (m.carryOn t n k).tasks[i]? = some x) (hs : x.status = .ready (some e) st) :
    st.Spared e := by
  have told : ∀ y : Task, m.tasks[i]? = some y → y.status = .ready (some e) st → st.Spared e := by
    intro y hy hst
    obtain ⟨z, hz, hsame | ⟨hd, v, hv⟩⟩ := hc.told hy hst
    · exact hq.signal i z e st hz hsame
    · by_cases hcan : e = .cancelled
      · exact .inl hcan
      · exact .inr (hl.spared (hd.2.2 hcan) hz hv)
  rw [State.carryOn_tasks] at hx
  rcases modify_cases hx with ⟨_, hx⟩ | ⟨rfl, y, hy, rfl⟩
  · exact told x hx hs
  · cases n with
    | give | call | jump => exact told y hy hs
    | pause | again => cases hs

theorem Tranquil.followed_work (hq : Tranquil l s)
    (hc : Changed p (fun i => s.reaper = some i) (Tells s s') (Follows w t s s') l m s'
      m.nextConnection cs) {x : Task} {r : Nat} (hx : (m.carryOn t n k).tasks[i]? = some x)
    (hf : .resume r ∈ x.followers) : l.Gentle i := by
  have followed : ∀ y : Task, m.tasks[i]? = some y → .resume r ∈ y.followers → l.Gentle i := by
    intro y hy hf
    rcases hc.task_cases hy with ⟨z, hz, hn⟩ | ⟨c, _, _, hm⟩
    · rcases hn.followers _ hf with hf | ⟨_, _, ⟨_, hreap⟩ | hf⟩
      · exact hq.followed i z r hz hf
      · exact hq.reaper i hreap
      · cases hf
    · cases hm.followers _ hf
  rw [State.carryOn_tasks] at hx
  rcases modify_cases hx with ⟨_, hx⟩ | ⟨rfl, y, hy, rfl⟩
  · exact followed x hx hf
  · exact followed y hy hf

theorem Tranquil.work (h : Sound p l s) (hl : Lined p l s) (hq : Tranquil l s) (hs : Paced s)
    (hr : l.running = some (w.on t k)) (hd : w.Of p d) (hk : k.Holds p d)
    (ha : Act p t l.tasks.length l.nextConnection s w s' m.nextConnection cs n)
    (hc : Changed p (fun i => s.reaper = some i) (Tells s s') (Follows w t s s') l m s'
      m.nextConnection cs) (hv : v = none) : Tranquil (m.carryOn t n k) s' := by
  have gentle : ∀ {j : Nat}, l.Gentle j → (m.carryOn t n k).Gentle j :=
    .move h hq hs (.work (X := True) (Y := True) hr hd hk ha hc rfl hv)
  refine ⟨fun i x e st hx hst => hq.signal_work hl hc hx hst, fun t' e st hr' => ?_,
    fun r hr' => ?_, fun i x r hx hf => gentle (hq.followed_work hc hx hf)⟩
  · cases n with
    | give o =>
      cases hr'
      exact .inr hk.resting
    | call | jump | pause | again => cases hr'
  · rcases ha.reaper hr' with hr' | ⟨rfl, cs', hcs⟩
    · exact gentle (hq.reaper r hr')
    · have hnew := (h.work_weight (W := .reaping) (n := n) hr hc).2.2 0 (by simp [hcs])
      simp only [hcs, List.getElem_cons_zero, Nat.add_zero] at hnew
      exact .sweeps (hnew ▸ Nat.one_pos)

end Work

theorem Tranquil.move (h : Sound p l s) (hl : Lined p l s) (hq : Tranquil l s) (hs : Paced s)
    (hm : Move p X Y v l l' s s') : Tranquil l' s' := by
  cases hm with
  | work hr hd hk ha hc heq hv =>
    subst heq
    exact hq.work h hl hs hr hd hk ha hc hv
  | aside hp hN ha => exact hq.aside h hs hp hN ha

end Moves

end SqliteAccess.Loop
