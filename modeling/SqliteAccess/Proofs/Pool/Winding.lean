import SqliteAccess.Proofs.Pool.Stroke
import SqliteAccess.Proofs.Pool.Closing

/-!
How the call that shuts a pool comes to its end. It waits for the sweep, which it has cancelled, then clears the line,
destroys what rests, and waits for the tasks in the background.
-/

namespace SqliteAccess.Loop

section Cancelled

variable {p : Nat} {l : State} {s : Pool.State} {u v : Shape} {f : Frame v u} {d : Call u}

theorem State.growThen_closed (hp : l.pool? p = some s) (hc : s.closed = true) (o : Outcome u) :
    (l.growThen p o).2 = .give o := by
  simp [State.growThen, State.grow, hp, Pool.State.growth, hc]

theorem resume_cancelled (hp : l.pool? p = some s) (hc : s.closed = true) (hf : f.RestOf p d)
    (h0 : Weight.closing.frame f = 0) : (resume l f (.error .cancelled)).2 = .give (.error .cancelled) := by
  cases hf with
  | start | askedOpen | askedClose | rested | swept => rfl
  | opened => exact State.growThen_closed hp hc _
  | inLine =>
    rw [resume, State.inLine]
    cases (l.pool? p).bind _ <;> rfl
  | registering => rfl
  | openedBackground => rfl
  | destroyed id =>
    refine State.growThen_closed (s := s) ?_ hc _
    rw [← hp]
    unfold State.report
    split <;> rfl
  | evicting rest n => rfl
  | reaperEnded | draining | backgroundEnded => cases h0

end Cancelled

section Tasks

variable {p t i : Nat} {l l' m : State} {s : Pool.State} {k : Task} {signal : Option Failure} {st : Stack .unit}

theorem Sound.rouses_closed (h : Sound p l s) (hc : s.closed = true) {u : Shape} {w : Work u} {d : Call u} {j : Nat}
    {st : Stack u} (hr : l.running = some (w.on j st)) (hd : w.Of p d) (hk : st.Holds p d) :
    Rouses p (fun i _ => i ∈ s.line) (fun _ => False) (fun _ f => ∃ q, f = .count q) l (w.perform l).1 :=
  Work.rouses hd hk h.pool (h.not_dozing hr) (fun _ hi _ => hi) (fun _ => ⟨_, rfl⟩) fun _ => .inl hc

theorem Rouses.ready_task {A : Nat → Option Failure → Prop} {C : Nat → Prop} {E : Nat → Follower → Prop}
    (h : Rouses p A C E l l') (hk : l.tasks[i]? = some k) (hs : k.status = .ready signal st) :
    ∃ k', l'.tasks[i]? = some k' ∧ k'.status = .ready signal st ∧
      (k'.cancelRequested = k.cancelRequested ∨ C i ∧ k'.cancelRequested = true) := by
  obtain ⟨k', hk', hr⟩ := h.old i k hk
  exact ⟨k', hk', hr.status.ready hs, hr.flag⟩

theorem State.count_task {n : Nat} (hk : l.tasks[i]? = some k)
    (hs : n = i → ∀ ts b st, k.status ≠ .paused (.tasks ts b) st) (j : Nat) : (l.count n j).tasks[i]? = some k := by
  rw [State.count]
  split
  next ts b st context flag fs hn =>
    have hne : n ≠ i := by
      rintro rfl
      cases hk.symm.trans hn
      exact hs rfl ts b st rfl
    have hm : (l.modifyTask n fun k => { k with status := .paused (.tasks (ts.erase j) b) st }).tasks[i]? = some k :=
      (List.getElem?_modify_ne _ _ hne).trans hk
    dsimp only
    split
    · have hp : (l.modifyTask n fun k => { k with status := .paused (.tasks (ts.erase j) b) st }).tasks[n]? =
          some ⟨.paused (.tasks (ts.erase j) b) st, context, flag, fs⟩ := by simp [State.modifyTask, hn]
      rw [State.wake_of_paused hp rfl]
      exact (List.getElem?_modify_ne _ _ hne).trans hm
    · exact hm
  next => exact hk

theorem Stroke.ready (h : Sound p l s) (hc : s.closed = true) (hst : Stroke p t l l') (hk : l.tasks[i]? = some k)
    (hs : k.status = .ready signal st) :
    (∃ k', l'.tasks[i]? = some k' ∧ k'.status = .ready signal st ∧
      (k'.cancelRequested = k.cancelRequested ∨ i ≠ t ∧ k'.cancelRequested = true)) ∨
      l'.running = some ⟨i, .unit, .give (k.answer signal), st⟩ ∧
        l'.tasks[i]? = some { k with status := .running, cancelRequested := false } := by
  have at_work : ∀ {r : Running}, l.running = some r → r.task ≠ i := by
    rintro r hr rfl
    cases hs.symm.trans (h.status_running hr hk)
  cases hst with
  | @works u w d j stack hr hd hst =>
    have hj : j ≠ i := Work.on_task w j stack ▸ at_work hr
    obtain ⟨k', hk', hs', hf⟩ := (h.rouses_closed hc hr hd hst).ready_task hk hs
    refine .inl ⟨k', ?_, hs', .inl (hf.resolve_right fun hf => hf.1)⟩
    rw [State.carryOn_tasks, List.getElem?_modify_ne _ _ hj]
    exact hk'
  | @ends j u o hr =>
    have hlay : (l.lay j o).tasks[i]? = some k := (List.getElem?_modify_ne _ _ (at_work hr)).trans hk
    obtain ⟨k', hk', hs', hf⟩ := (State.followAll p (l.lay j o) j _).1.ready_task hlay hs
    exact .inl ⟨k', hk', hs', .inl (hf.resolve_right fun hf => hf.1)⟩
  | @goesOn j signal' st' x _ hr hx hs' hr' ht =>
    by_cases hj : j = i
    · subst hj
      cases hk.symm.trans hx
      cases hs.symm.trans hs'
      exact .inr ⟨hr', by rw [ht, List.getElem?_modify_eq, hk]; rfl⟩
    · exact .inl ⟨k, by rw [ht, List.getElem?_modify_ne _ _ hj, hk], hs, .inl rfl⟩
  | counts n j hr ht =>
    exact .inl ⟨k, State.count_task (ht ▸ hk) (fun _ ts b st => by simp [hs]) j, hs, .inl rfl⟩
  | enters hr hr' ht =>
    exact .inl ⟨k, by rw [ht, List.getElem?_append_left (List.getElem?_eq_some_iff.mp hk).1, hk], hs, .inl rfl⟩
  | aside hr ht _ _ hrs => exact .inl (hrs.ready_task (ht ▸ hk) hs)

structure State.Ceases (l : State) (i : Nat) : Prop where
  other : Weight.closing.of l i = 0
  comes : (∃ k signal st, l.tasks[i]? = some k ∧ k.status = .ready signal st ∧
    (k.cancelRequested = true ∨ signal = some .cancelled)) ∨
      ∃ (u : Shape) (st : Stack u), l.running = some ⟨i, u, .give (.error .cancelled), st⟩

theorem Task.answer_cancelled (hk : k.cancelRequested = true ∨ signal = some .cancelled) :
    k.answer signal = .error .cancelled := by
  unfold Task.answer
  rcases hk with hk | rfl
  · rw [if_pos hk]
  · rw [ite_self]

theorem Task.answer_gentle (k : Task) (hs : ∀ e, signal = some e → e = .cancelled) : (k.answer signal).Gentle := by
  intro e he
  unfold Task.answer at he
  split at he
  next e' heq =>
    cases he
    split at heq
    · cases heq
      rfl
    · exact hs e heq
  next => cases he

theorem State.Ceases.stroke {X Y : Prop} {v : Option Event} {s' : Pool.State} (h : Sound p l s) (hc : s.closed = true)
    (hst : Stroke p t l l') (hm : Move p X Y v l l' s s') (hi : l.Ceases i) :
    l'.Ceases i ∨ ∃ u, l.running = some ⟨i, u, .give (.error .cancelled), .done u⟩ := by
  have other : i < l.tasks.length → Weight.closing.of l' i = 0 := fun hlt =>
    Nat.le_zero.mp (hi.other ▸ hm.rooted_le h (Weight.closing_rooted p) hlt)
  rcases hi.comes with ⟨k, signal, st, hk, hs, hcan⟩ | ⟨u, st, hr⟩
  · refine .inl ⟨other (List.getElem?_eq_some_iff.mp hk).1, ?_⟩
    rcases hst.ready h hc hk hs with ⟨k', hk', hs', hf⟩ | ⟨hr, _⟩
    · refine .inl ⟨k', signal, st, hk', hs', hcan.imp_left fun hcan => ?_⟩
      rcases hf with hf | hf
      · exact hf.trans hcan
      · exact hf.2
    · exact .inr ⟨_, st, by rw [hr, Task.answer_cancelled hcan]⟩
  · cases st with
    | done => exact .inr ⟨u, hr⟩
    | push f st =>
      refine .inl ⟨other (h.running_lt hr), .inr ⟨_, st, ?_⟩⟩
      cases hst with
      | @works _ w d j stack hr' hd hk =>
        cases w with
        | call => cases hr.symm.trans hr'
        | back f o =>
          cases hr.symm.trans hr'
          cases hd with
          | back _ hf =>
            have h0 : Weight.closing.frame f = 0 := by
              have hle := h.of_on (W := .closing) hr'
              rw [hi.other] at hle
              simp only [Weight.work] at hle
              omega
            rw [Work.perform, resume_cancelled h.pool hc hf h0]
            rfl
      | ends hr' => cases hr.symm.trans hr'
      | goesOn hr' | counts _ _ hr' | enters hr' | aside hr' => cases hr.symm.trans hr'

end Tasks

inductive Stack.Unwinds (p : Nat) : Stack .unit → Prop
  | done : Stack.Unwinds p (.done .unit)
  | drains (rest : List Nat) : Stack.Unwinds p (.push (.draining p rest) (.done .unit))
  | gathers : Stack.Unwinds p (.push (.backgroundEnded p) (.done .unit))
  | destroyed (id : Nat) (rest : List Nat) :
      Stack.Unwinds p (.push (.destroyed p id) (.push (.draining p rest) (.done .unit)))
  | closed (id : Nat) (rest : List Nat) :
      Stack.Unwinds p (.push (.askedClose none) (.push (.destroyed p id) (.push (.draining p rest) (.done .unit))))

inductive Running.Unwinds (p : Nat) : Running → Prop
  | swept {t : Nat} {o : Outcome .unit} : o.Gentle →
      Running.Unwinds p ⟨t, .unit, .give o, .push (.reaperEnded p) (.done .unit)⟩
  | back {t : Nat} {st : Stack .unit} : st.Unwinds p → Running.Unwinds p ⟨t, .unit, .give (.ok ()), st⟩
  | destroys {t : Nat} (id : Nat) (rest : List Nat) :
      Running.Unwinds p ⟨t, .unit, .call (.destroy p id), .push (.draining p rest) (.done .unit)⟩
  | asks {t : Nat} (c : Pool.Handle) (id : Nat) (rest : List Nat) : Running.Unwinds p
      ⟨t, .unit, .call (.askClose c), .push (.destroyed p id) (.push (.draining p rest) (.done .unit))⟩

inductive Next.Unwinds (p : Nat) (B : Nat → Prop) : {u : Shape} → Next u → Stack u → Prop
  | gives {st : Stack .unit} : st.Unwinds p → Next.Unwinds p B (.give (.ok ())) st
  | destroys (id : Nat) (rest : List Nat) :
      Next.Unwinds p B (.call (.destroy p id) (.draining p rest)) (.done .unit)
  | asks (c : Pool.Handle) (id : Nat) (rest : List Nat) :
      Next.Unwinds p B (.call (.askClose c) (.destroyed p id)) (.push (.draining p rest) (.done .unit))
  | closes (c : Pool.Handle) (id : Nat) (rest : List Nat) : Next.Unwinds p B
      (.pause (.closing c) (.askedClose none)) (.push (.destroyed p id) (.push (.draining p rest) (.done .unit)))
  | waits {ts : List Nat} : (∀ j ∈ ts, B j) →
      Next.Unwinds p B (.pause (.tasks ts false) (.backgroundEnded p)) (.done .unit)

inductive Status.Unwinds (p : Nat) (R B : Nat → Prop) : Status → Prop
  | sweeps {r : Nat} : R r → Status.Unwinds p R B (.paused (.task r) (.push (.reaperEnded p) (.done .unit)))
  | swept {signal : Option Failure} : (∀ e, signal = some e → e = .cancelled) →
      Status.Unwinds p R B (.ready signal (.push (.reaperEnded p) (.done .unit)))
  | closes (c : Pool.Handle) (id : Nat) (rest : List Nat) : Status.Unwinds p R B (.paused (.closing c)
      (.push (.askedClose none) (.push (.destroyed p id) (.push (.draining p rest) (.done .unit)))))
  | waits {ts : List Nat} : (∀ j ∈ ts, B j) →
      Status.Unwinds p R B (.paused (.tasks ts false) (.push (.backgroundEnded p) (.done .unit)))
  | told {st : Stack .unit} : st.Unwinds p → Status.Unwinds p R B (.ready none st)
  | running : Status.Unwinds p R B .running

def State.Labours (l : State) (j : Nat) : Prop := j < l.tasks.length ∧ Weight.lingering.of l j = 0

structure Winding (p t : Nat) (l : State) : Prop where
  task : ∃ k, l.tasks[t]? = some k ∧ k.cancelRequested = false ∧ k.status.Unwinds p l.Ceases l.Labours
  running : ∀ r, l.running = some r → r.task = t → r.Unwinds p
  known : ∀ (i : Nat) (k : Task), l.tasks[i]? = some k → .resume t ∈ k.followers →
    ∃ k' st, l.tasks[t]? = some k' ∧ k'.status = .paused (.task i) st
  alone : ∀ i ≠ t, i < l.tasks.length → Weight.shutting.of l i = 0
  faults : l.opener.failCloses = []

section Own

variable {p t : Nat} {l m : State} {s : Pool.State} {u : Shape} {w : Work u} {d : Call u} {k : Stack u} {n : Next u}

theorem Drains.unwinds {B : Nat → Prop} {rest : List Nat} {n : Next .unit} (h : Drains p s rest n)
    (hB : ∀ j ∈ s.background, B j) : n.Unwinds p B (.done .unit) := by
  cases h with
  | destroys id rest => exact .destroys id rest
  | waits => exact .waits hB
  | ends => exact .gives .done

theorem State.askClose_unwinds {B : Nat → Prop} (hf : l.opener.failCloses = []) (c : Pool.Handle) (id : Nat)
    (rest : List Nat) :
    (l.askClose c).2.Unwinds p B (.push (.destroyed p id) (.push (.draining p rest) (.done .unit))) := by
  have hnone : (l.opener.record (.close c)).nextCloseFault.1 = none := by
    simp [Engine.Opener.nextCloseFault, Engine.Opener.record, hf]
  unfold State.askClose
  dsimp only
  rw [hnone]
  split
  · exact .closes c id rest
  · exact .gives (.destroyed id rest)

theorem Running.Unwinds.next (hu : (w.on t k).Unwinds p) (h : Sound p l s) (hc : s.closed = true)
    (hs : ∀ j ∈ s.background, l.Labours j) (hf : l.opener.failCloses = []) (hr : l.running = some (w.on t k))
    (hd : w.Of p d) (hk : k.Holds p d) : (w.perform l).2.Unwinds p l.Labours k := by
  obtain ⟨s', cs, ha, _⟩ := h.performs hr hd hk
  generalize (w.perform l).1.nextConnection = N at ha
  cases w with
  | call c =>
    cases hu with
    | destroys id rest =>
      generalize (Work.perform l (.call (.destroy p id))).2 = n at ha ⊢
      cases ha with
      | gone => exact .gives (.drains rest)
      | removes => exact .asks _ id rest
    | asks c id rest => exact State.askClose_unwinds hf c id rest
  | back f o =>
    cases hu with
    | @swept _ o ho =>
      generalize (Work.perform l (.back (.reaperEnded p) o)).2 = n at ha ⊢
      cases ha with
      | clears _ hdr => exact hdr.unwinds hs
      | clearFails he => exact absurd (ho _ rfl) he
    | back hst =>
      cases hst with
      | drains rest =>
        generalize (Work.perform l (.back (.draining p rest) (.ok ()))).2 = n at ha ⊢
        cases ha with
        | drains hdr => exact hdr.unwinds hs
      | gathers =>
        generalize (Work.perform l (.back (.backgroundEnded p) (.ok ()))).2 = n at ha ⊢
        cases ha with
        | gathers => exact .gives .done
      | destroyed id rest =>
        generalize (Work.perform l (.back (.destroyed p id) (.ok ()))).2 = n at ha ⊢
        cases ha with
        | destroyed =>
          have hg : s.growth = .ok 0 := by simp [Pool.State.growth, hc]
          rw [hg]
          exact .gives (.drains rest)
      | closed id rest => exact .gives (.destroyed id rest)

theorem Next.Unwinds.carryOn {R B : Nat → Prop} (h : n.Unwinds p B k) :
    (n.lays k .running).Unwinds p R B ∧ ∀ r, (m.carryOn t n k).running = some r → r.Unwinds p := by
  cases h with
  | gives hst => exact ⟨.running, fun r hr => by cases hr; exact .back hst⟩
  | destroys id rest => exact ⟨.running, fun r hr => by cases hr; exact .destroys id rest⟩
  | asks c id rest => exact ⟨.running, fun r hr => by cases hr; exact .asks c id rest⟩
  | closes c id rest => exact ⟨.closes c id rest, fun _ hr => by cases hr⟩
  | waits hB => exact ⟨.waits hB, fun _ hr => by cases hr⟩

end Own

section Others

variable {p t : Nat} {X Y : Prop} {v : Option Event} {l l' m : State} {s s' : Pool.State} {k : Task}

theorem State.count_opener (l : State) (i j : Nat) : (l.count i j).opener = l.opener := by
  rw [State.count]
  split
  · dsimp only
    split
    · unfold State.wake
      split <;> rfl
    · rfl
  · rfl

theorem Stroke.faults (h : Sound p l s) (hst : Stroke p t l l') (hf : l.opener.failCloses = []) :
    l'.opener.failCloses = [] := by
  have done : ∀ {m m' : State}, m'.opener.failCloses <:+ m.opener.failCloses → m.opener = l.opener →
      m'.opener.failCloses = [] := fun hs ho => List.suffix_nil.mp (hf ▸ ho ▸ hs)
  cases hst with
  | @works _ w d i k hr hd hk =>
    have ho : ((w.perform l).1.carryOn i (w.perform l).2 k).opener = (w.perform l).1.opener := by
      cases (w.perform l).2 <;> rfl
    rw [ho]
    exact done (h.rouses hr hd hk).faults rfl
  | @ends i _ o => exact done (State.followAll p (l.lay i o) i _).1.faults rfl
  | goesOn _ _ _ _ _ ho => rw [ho, hf]
  | counts i j _ _ _ ho => rw [State.count_opener, ho, hf]
  | enters _ _ _ _ _ ho => rw [ho, hf]
  | aside _ _ _ ho hrs => exact done hrs.faults ho

theorem Move.alone (h : Sound p l s) (hc : s.closed = true) (hm : Move p X Y v l l' s s')
    (hal : ∀ i ≠ t, i < l.tasks.length → Weight.shutting.of l i = 0) {i : Nat} (hit : i ≠ t)
    (hi : i < l'.tasks.length) : Weight.shutting.of l' i = 0 := by
  cases hm with
  | @work u w d j k n cs m hr hd hk ha hch heq =>
    subst heq
    obtain ⟨hwt, hwi, hwj⟩ := h.work_weight (W := .shutting) (n := n) hr hch
    by_cases hlt : i < l.tasks.length
    · by_cases hij : i = j
      · subst hij
        have hle := ha.shutting (.inl hc)
        have h0 := hal i hit hlt
        omega
      · rw [hwi i hlt hij, hal i hit hlt]
    · obtain ⟨j, rfl⟩ := Nat.exists_eq_add_of_le (Nat.le_of_not_lt hlt)
      rw [State.carryOn_length, hch.length] at hi
      exact hwj j (by omega)
  | aside _ _ ha =>
    by_cases hlt : i < l.tasks.length
    · rw [ha.weight_of h hlt, hal i hit hlt]
    · obtain ⟨_, u, c, _, _, _, hw⟩ := ha.weight_new (W := .shutting) (Nat.le_of_not_lt hlt) hi
      exact hw

theorem Stroke.followers (h : Sound p l s) (hc : s.closed = true) (hst : Stroke p t l l')
    (hm : Move p X Y v l l' s s') {i r : Nat} (hk : l'.tasks[i]? = some k) (hf : .resume r ∈ k.followers) :
    ∃ x, l.tasks[i]? = some x ∧ .resume r ∈ x.followers := by
  cases hm with
  | aside _ _ ha => exact (ha.tasks h hk).2 r hf
  | work hr =>
    cases hst with
    | @works u w d j st hr hd hst =>
      have hrs := h.rouses_closed hc hr hd hst
      rw [State.carryOn_tasks] at hk
      obtain ⟨y, hy, hfy⟩ : ∃ y : Task, (w.perform l).1.tasks[i]? = some y ∧ .resume r ∈ y.followers := by
        rcases modify_cases hk with ⟨_, hk⟩ | ⟨rfl, y, hy, rfl⟩
        · exact ⟨k, hk, hf⟩
        · exact ⟨y, hy, hf⟩
      by_cases hlt : i < l.tasks.length
      · have hx := List.getElem?_eq_getElem hlt
        obtain ⟨y', hy', hry⟩ := hrs.old i _ hx
        cases hy.symm.trans hy'
        obtain ⟨fs, hfs, hE, _⟩ := hry.followers
        rw [hfs] at hfy
        rcases List.mem_append.mp hfy with hfy | hfy
        · exact ⟨_, hx, hfy⟩
        · obtain ⟨q, hq⟩ := hE _ hfy
          cases hq
      · obtain ⟨_, _, hnew⟩ := hrs.new i y hy (Nat.le_of_not_lt hlt)
        rcases hnew _ hfy with ⟨q, hq⟩ | ⟨q, hq⟩ <;> cases hq
    | ends hr' => exact absurd (Option.some.inj (hr.symm.trans hr')) Work.on_ne_end
    | goesOn hr' | counts _ _ hr' | enters hr' | aside hr' => cases hr.symm.trans hr'

theorem State.followAll_resumes {a : State} {i : Nat} {u : Shape} {o : Outcome u} (hi : a.Ended i o)
    (fs : List Follower) :
    Rouses p (fun r signal => .resume r ∈ fs ∧ ∀ e, signal = some e → o = .error e) (fun _ => False)
      (fun _ _ => False) a (fs.foldl (fun l f => l.follow i f) a) := by
  suffices ∀ (gs : List Follower) (l : State), gs ⊆ fs → l.Ended i o →
      Rouses p (fun r signal => .resume r ∈ fs ∧ ∀ e, signal = some e → o = .error e) (fun _ => False)
        (fun _ _ => False) l (gs.foldl (fun l f => l.follow i f) l) from this fs a (List.Subset.refl _) hi
  intro gs
  induction gs with
  | nil => exact fun _ _ _ => .refl
  | cons f gs ih =>
    intro l hsub hi
    rw [List.cons_subset] at hsub
    have hf : Rouses p (fun r signal => .resume r ∈ fs ∧ ∀ e, signal = some e → o = .error e) (fun _ => False)
        (fun _ _ => False) l (l.follow i f) := by
      cases f with
      | dropBackground | count => exact Rouses.refl.apart rfl (List.prefix_append _ _) rfl rfl (List.suffix_refl _)
      | resume r =>
        refine Rouses.refl.wake r ⟨hsub.1, fun e he => ?_⟩
        obtain ⟨x, hx, hs⟩ := hi
        rw [State.endOf_eq hx, hs] at he
        cases o with
        | ok => cases he
        | error => exact congrArg _ (Option.some.inj he)
    obtain ⟨x, hx, hs⟩ := hi
    obtain ⟨y, hy, hxy⟩ := hf.old i x hx
    exact hf.trans (ih _ hsub.2 ⟨y, hy, hxy.status.finished hs⟩)

inductive State.Stirs (l : State) (t : Nat) (w : Wait) (st : Stack .unit) : Status → Prop
  | stays : State.Stirs l t w st (.paused w st)
  | counts {ts : List Nat} {b : Bool} (j : Nat) : w = .tasks ts b →
      State.Stirs l t w st (.paused (.tasks (ts.erase j) b) st)
  | gathers {ts : List Nat} {b : Bool} : w = .tasks ts b →
      State.Stirs l t w st (.ready (if b then some .cancelled else none) st)
  | closes : l.Closes t → State.Stirs l t w st (.ready none st)
  | resumes {i : Nat} {u : Shape} {o : Outcome u} {x : Task} {signal : Option Failure} :
      l.running = some ⟨i, u, .give o, .done u⟩ → l.tasks[i]? = some x → .resume t ∈ x.followers →
      (∀ e, signal = some e → o = .error e) → State.Stirs l t w st (.ready signal st)

theorem Stroke.paused (h : Sound p l s) (hc : s.closed = true) (hline : t ∉ s.line) (hst : Stroke p t l l') {w : Wait}
    {st : Stack .unit} (hk : l.tasks[t]? = some k) (hs : k.status = .paused w st) :
    ∃ k', l'.tasks[t]? = some k' ∧ k'.cancelRequested = k.cancelRequested ∧ l.Stirs t w st k'.status := by
  have at_work : ∀ {r : Running}, l.running = some r → r.task ≠ t := by
    rintro r hr rfl
    cases hs.symm.trans (h.status_running hr hk)
  have roused : ∀ {A : Nat → Option Failure → Prop} {C : Nat → Prop} {E : Nat → Follower → Prop} {m m' : State},
      Rouses p A C E m m' → m.tasks[t]? = some k → ¬ C t →
      (∀ signal, A t signal → l.Stirs t w st (.ready signal st)) →
      ∃ k', m'.tasks[t]? = some k' ∧ k'.cancelRequested = k.cancelRequested ∧ l.Stirs t w st k'.status := by
    intro A C E m m' hrs hk hC hA
    obtain ⟨k', hk', hr⟩ := hrs.old t k hk
    refine ⟨k', hk', hr.flag.resolve_right fun hf => hC hf.1, ?_⟩
    have hst := hr.status
    rw [hs] at hst
    generalize k'.status = y at hst
    cases hst with
    | same => exact .stays
    | woken _ signal _ ha => exact hA signal ha
    | cut _ _ _ hc => exact absurd hc hC
  cases hst with
  | @works u w d j stack hr hd hst =>
    have hj : j ≠ t := Work.on_task w j stack ▸ at_work hr
    rw [State.carryOn_tasks, List.getElem?_modify_ne _ _ hj]
    exact roused (h.rouses_closed hc hr hd hst) hk id fun _ hi => absurd hi hline
  | @ends j u o hr =>
    have hlay : (l.lay j o).tasks[t]? = some k := (List.getElem?_modify_ne _ _ (at_work hr)).trans hk
    obtain ⟨_, x, hx, _⟩ := h.running _ hr
    have hend : (l.lay j o).Ended j o :=
      ⟨{ x with status := .finished u o, followers := [] }, by simp [State.lay, State.modifyTask, hx], rfl⟩
    refine roused (State.followAll_resumes hend _) hlay id fun signal hA => ?_
    rw [hx] at hA
    exact .resumes hr hx hA.1 hA.2
  | @goesOn j signal' st' x _ hr hx hs' hr' ht =>
    have hj : j ≠ t := by
      rintro rfl
      cases hk.symm.trans hx
      cases hs.symm.trans hs'
    exact ⟨k, by rw [ht, List.getElem?_modify_ne _ _ hj, hk], rfl, hs ▸ .stays⟩
  | @counts m n j hr ht =>
    by_cases hn : n = t ∧ ∃ ts b, w = .tasks ts b
    · obtain ⟨rfl, ts, b, rfl⟩ := hn
      obtain ⟨status, context, flag, followers⟩ := k
      cases hs
      have hm : (m.modifyTask n fun k => { k with status := .paused (.tasks (ts.erase j) b) st }).tasks[n]? =
          some ⟨.paused (.tasks (ts.erase j) b) st, context, flag, followers⟩ := by
        simp [State.modifyTask, ht, hk]
      rw [State.count, ht, hk]
      dsimp only
      split
      · rw [State.wake_of_paused hm rfl]
        exact ⟨_, (List.getElem?_modify_eq _ _ _).trans (congrArg _ hm), rfl, .gathers rfl⟩
      · exact ⟨_, hm, rfl, .counts j rfl⟩
    · refine ⟨k, State.count_task (ht ▸ hk) (fun hnt ts b st' hst => hn ⟨hnt, ts, b, ?_⟩) j, rfl, hs ▸ .stays⟩
      cases hs.symm.trans hst
      rfl
  | enters hr hr' ht =>
    exact ⟨k, by rw [ht, List.getElem?_append_left (List.getElem?_eq_some_iff.mp hk).1, hk], rfl, hs ▸ .stays⟩
  | aside hr ht _ _ hrs =>
    refine roused hrs (ht ▸ hk) (fun hne => hne rfl) fun signal hA => ?_
    obtain ⟨rfl, hcl⟩ := hA rfl
    exact .closes hcl

end Others

section Steps

variable {p t : Nat} {X Y : Prop} {v : Option Event} {l l' : State} {s s' : Pool.State}

theorem Status.Unwinds.mono {R B R' B' : Nat → Prop} {x : Status} (h : x.Unwinds p R B)
    (hR : ∀ i st, x = .paused (.task i) st → R i → R' i) (hB : ∀ i, B i → B' i) : x.Unwinds p R' B' := by
  cases h with
  | sweeps hr => exact .sweeps (hR _ _ rfl hr)
  | swept hs => exact .swept hs
  | closes c id rest => exact .closes c id rest
  | waits hts => exact .waits fun j hj => hB j (hts j hj)
  | told hst => exact .told hst
  | running => exact .running

theorem Move.ends_ended (h : Sound p l s) (hm : Move p X Y v l l' s s') {i : Nat} {u : Shape} {o : Outcome u}
    (hr : l.running = some ⟨i, u, .give o, .done u⟩) : l'.Ended i o := by
  cases hm with
  | work hr' => exact absurd (Option.some.inj (hr'.symm.trans hr)) Work.on_ne_end
  | aside _ _ ha => exact ha.ends_ended h hr

theorem State.Labours.move (h : Sound p l s) (hm : Move p X Y v l l' s s') {j : Nat} (hj : l.Labours j) :
    l'.Labours j :=
  ⟨hj.1.trans_le hm.grows.1, Nat.le_zero.mp (hj.2 ▸ hm.rooted_le h (Weight.lingering_rooted p) hj.1)⟩

namespace Winding

theorem winds (hw : Winding p t l) {k : Task} {w : Wait} {st : Stack .unit} (hk : l.tasks[t]? = some k)
    (hs : k.status = .paused w st) : w.Winds := by
  obtain ⟨k', hk', _, hu⟩ := hw.task
  cases hk.symm.trans hk'
  rw [hs] at hu
  cases hu <;> trivial

theorem at_work (hw : Winding p t l) (ha : Attentive p l) {k : Task} (hk : l.tasks[t]? = some k)
    (hs : k.status = .running) : ∃ r, l.running = some r ∧ r.task = t ∧ r.Unwinds p := by
  obtain ⟨_, r, hr, ht⟩ := (ha t k hk).at_work hs
  exact ⟨r, hr, ht, hw.running r hr ht⟩

theorem not_in_line (hw : Winding p t l) (ha : Attentive p l) (hl : Lined p l s) : t ∉ s.line := by
  intro hline
  have hu := hl.unserved t hline
  obtain ⟨k, hk, _, hs⟩ := hw.task
  rcases hu.status k hk with hr | hr
  · obtain ⟨r, hr', ht, hun⟩ := hw.at_work ha hk hr
    have hr'' := hu.running r hr' ht
    cases hr'' with
    | wakes => cases hun with | back hst => cases hst
    | fails => cases hun
  · generalize k.status = x at hs hr
    cases hr with
    | waits | failed => cases hs
    | told => cases hs with | told hst => cases hst

theorem known_stroke (h : Sound p l s) (hc : s.closed = true) (ha : Attentive p l) (ha' : Attentive p l')
    (hl : Lined p l s) (hm : Move p X Y v l l' s s') (hst : Stroke p t l l') (hw : Winding p t l) {i : Nat} {k : Task}
    (hk : l'.tasks[i]? = some k) (hf : .resume t ∈ k.followers) :
    ∃ k' st, l'.tasks[t]? = some k' ∧ k'.status = .paused (.task i) st := by
  obtain ⟨x, hx, hfx⟩ := hst.followers h hc hm hk hf
  obtain ⟨y, st, hy, hys⟩ := hw.known i x hx hfx
  obtain ⟨y', hy', _, hstirs⟩ := hst.paused h hc (hw.not_in_line ha hl) hy hys
  generalize hx' : y'.status = x' at hstirs
  cases hstirs with
  | stays => exact ⟨y', st, hy', hx'⟩
  | counts _ hts | gathers hts => cases hts
  | closes hcl =>
    obtain ⟨z, c, st', hz, hzs⟩ := hcl
    cases hy.symm.trans hz
    cases hys.symm.trans hzs
  | resumes hr hj hfj =>
    -- The task that it has waited for is the one that has ended, and has no followers any more.
    obtain ⟨z, st', hz, hzs⟩ := hw.known _ _ hj hfj
    cases hy.symm.trans hz
    cases hys.symm.trans hzs
    obtain ⟨z', hz', hend⟩ := hm.ends_ended h hr
    cases hk.symm.trans hz'
    exact absurd hf ((ha' i k hk).unfollowed hend ▸ List.not_mem_nil)

theorem paused_stroke (h : Sound p l s) (hc : s.closed = true) (ha : Attentive p l) (ha' : Attentive p l')
    (hl : Lined p l s) (hm : Move p X Y v l l' s s') (hst : Stroke p t l l') (hw : Winding p t l) {k : Task} {w : Wait}
    {st : Stack .unit} (hk : l.tasks[t]? = some k) (hs : k.status = .paused w st) :
    ∃ k', l'.tasks[t]? = some k' ∧ k'.cancelRequested = false ∧ k'.status.Unwinds p l'.Ceases l'.Labours := by
  obtain ⟨k₁, hk₁, hflag, hu⟩ := hw.task
  cases hk.symm.trans hk₁
  obtain ⟨k', hk', hflag', hstirs⟩ := hst.paused h hc (hw.not_in_line ha hl) hk hs
  refine ⟨k', hk', hflag'.trans hflag, ?_⟩
  have closing : l.Closes t → ∃ c, w = .closing c := by
    rintro ⟨z, c, st', hz, hzs⟩
    cases hk.symm.trans hz
    cases hs.symm.trans hzs
    exact ⟨c, rfl⟩
  have resumed : ∀ {i : Nat} {x : Task}, l.tasks[i]? = some x → .resume t ∈ x.followers → w = .task i := by
    intro i x hx hf
    obtain ⟨z, st', hz, hzs⟩ := hw.known i x hx hf
    cases hk.symm.trans hz
    cases hs.symm.trans hzs
    rfl
  rw [hs] at hu
  generalize hy : k'.status = y at hstirs
  cases hu with
  | @sweeps r hr =>
    cases hstirs with
    | stays =>
      rcases hr.stroke h hc hst hm with hr | ⟨u, hrun⟩
      · exact .sweeps hr
      · -- The sweep has ended, but then the task would have learnt of it.
        obtain ⟨z, hz, hend⟩ := hm.ends_ended h hrun
        have hnone := (ha' r z hz).unfollowed hend
        have hwaits := (ha' t k' hk').waits hy
        simp [Wait.Attended, State.following, hz, hnone] at hwaits
    | counts _ hts | gathers hts => cases hts
    | closes hcl =>
      obtain ⟨_, hw'⟩ := closing hcl
      cases hw'
    | resumes hrun hx hf hsig =>
      cases resumed hx hf
      refine .swept fun e he => ?_
      rcases hr.comes with ⟨z, signal, st', hz, hzs, _⟩ | ⟨u, st', hrun'⟩
      · cases hzs.symm.trans (h.status_running hrun hz)
      · cases hrun.symm.trans hrun'
        cases hsig e he
        rfl
  | closes c id rest =>
    cases hstirs with
    | stays => exact .closes c id rest
    | counts _ hts | gathers hts => cases hts
    | closes => exact .told (.closed id rest)
    | resumes _ hx hf => cases resumed hx hf
  | waits hts =>
    have hserves : ∀ j ∈ _, l'.Labours j := fun j hj => (hts j hj).move h hm
    cases hstirs with
    | stays => exact .waits hserves
    | counts j he =>
      cases he
      exact .waits fun i hi => hserves i (List.mem_of_mem_erase hi)
    | gathers he =>
      cases he
      exact .told .gathers
    | closes hcl =>
      obtain ⟨_, hw'⟩ := closing hcl
      cases hw'
    | resumes _ hx hf => cases resumed hx hf

theorem awake_stroke (h : Sound p l s) (hc : s.closed = true) (hs : Staffed l s) (ha : Attentive p l)
    (hm : Move p X Y v l l' s s') (hst : Stroke p t l l') (hw : Winding p t l) {k : Task}
    (hk : l.tasks[t]? = some k) (hp : ∀ w st, k.status ≠ .paused w st) :
    l'.Ended t (u := .unit) (.ok ()) ∨
      (∃ k', l'.tasks[t]? = some k' ∧ k'.cancelRequested = false ∧ k'.status.Unwinds p l'.Ceases l'.Labours) ∧
        ∀ r, l'.running = some r → r.task = t → r.Unwinds p := by
  obtain ⟨k₁, hk₁, hflag, hu⟩ := hw.task
  cases hk.symm.trans hk₁
  have ready : ∀ {signal st}, k.status = .ready signal st →
      (∀ {R B : Nat → Prop}, (Status.ready signal st).Unwinds p R B) →
      (∀ i, Running.Unwinds p ⟨i, .unit, .give (k.answer signal), st⟩) →
      (∃ k', l'.tasks[t]? = some k' ∧ k'.cancelRequested = false ∧ k'.status.Unwinds p l'.Ceases l'.Labours) ∧
        ∀ r, l'.running = some r → r.task = t → r.Unwinds p := by
    intro signal st hready hst' hrun
    rcases hst.ready h hc hk hready with ⟨k', hk', hs', hf⟩ | ⟨hr, hk'⟩
    · refine ⟨⟨k', hk', (hf.resolve_right fun hf => hf.1 rfl).trans hflag, hs' ▸ hst'⟩, fun r hr hrt => ?_⟩
      cases hs'.symm.trans ((hm.sound h).status_running hr (hrt ▸ hk'))
    · refine ⟨⟨_, hk', rfl, .running⟩, fun r hr' _ => ?_⟩
      cases hr.symm.trans hr'
      exact hrun t
  generalize hx : k.status = x at hu hp
  cases hu with
  | sweeps | closes | waits => exact absurd rfl (hp _ _)
  | swept hsig =>
    exact .inr (ready hx (.swept hsig) fun i => .swept (k.answer_gentle hsig))
  | told hst' =>
    refine .inr (ready hx (.told hst') fun i => ?_)
    have : k.answer none = .ok () := by simp [Task.answer, hflag]
    rw [this]
    exact .back hst'
  | running =>
    obtain ⟨r, hr, hrt, hun⟩ := hw.at_work ha hk hx
    cases hst with
    | @works u w d i st hr' hd hst' =>
      cases hr.symm.trans hr'
      rw [Work.on_task] at hrt
      subst hrt
      obtain ⟨k', hk', hrd⟩ := (h.rouses_closed hc hr' hd hst').old i k hk
      have hk's : k'.status = .running := hrd.status.running hx
      have hn := hun.next h hc hs hw.faults hr' hd hst'
      obtain ⟨hlay, hrun⟩ := hn.carryOn (m := (w.perform l).1) (t := i)
        (R := ((w.perform l).1.carryOn i (w.perform l).2 st).Ceases)
      have hkt : ((w.perform l).1.carryOn i (w.perform l).2 st).tasks[i]? =
          some { k' with status := (w.perform l).2.lays st k'.status } := by
        rw [State.carryOn_tasks, List.getElem?_modify_eq, hk']
        rfl
      refine .inr ⟨⟨_, hkt, ?_, ?_⟩, fun r hr _ => hrun r hr⟩
      · exact (hrd.flag.resolve_right fun hf => hf.1).trans hflag
      · dsimp only
        rw [hk's]
        exact hlay.mono (fun _ _ _ hi => hi) fun j hj => hj.move h hm
    | @ends i u o hr' =>
      cases hr.symm.trans hr'
      obtain rfl : i = t := hrt
      have hend := hm.ends_ended h hr
      cases hun with
      | back => exact .inl hend
    | goesOn hr' | counts _ _ hr' | enters hr' | aside hr' => cases hr.symm.trans hr'

theorem stroke (h : Sound p l s) (hc : s.closed = true) (hs : Staffed l s) (ha : Attentive p l)
    (ha' : Attentive p l') (hl : Lined p l s) (hm : Move p X Y v l l' s s') (hst : Stroke p t l l')
    (hw : Winding p t l) : l'.Ended t (u := .unit) (.ok ()) ∨ Winding p t l' := by
  obtain ⟨k, hk, _⟩ := hw.task
  have whole : (∃ k', l'.tasks[t]? = some k' ∧ k'.cancelRequested = false ∧
      k'.status.Unwinds p l'.Ceases l'.Labours) → (∀ r, l'.running = some r → r.task = t → r.Unwinds p) →
      Winding p t l' := fun htask hrun =>
    ⟨htask, hrun, fun i k' hk' hf => known_stroke h hc ha ha' hl hm hst hw hk' hf,
      fun i hit hi => hm.alone h hc hw.alone hit hi, hst.faults h hw.faults⟩
  by_cases hp : ∃ w st, k.status = .paused w st
  · obtain ⟨w, st, hps⟩ := hp
    have htask := paused_stroke h hc ha ha' hl hm hst hw hk hps
    refine .inr (whole htask fun r hr hrt => ?_)
    obtain ⟨k', hk', _, hstirs⟩ := hst.paused h hc (hw.not_in_line ha hl) hk hps
    rw [(hm.sound h).status_running hr (hrt ▸ hk')] at hstirs
    cases hstirs
  · have hp' : ∀ w st, k.status ≠ .paused w st := fun w st hps => hp ⟨w, st, hps⟩
    exact (awake_stroke h hc hs ha hm hst hw hk hp').imp_right fun hboth => whole hboth.1 hboth.2

end Winding

end Steps

end SqliteAccess.Loop
