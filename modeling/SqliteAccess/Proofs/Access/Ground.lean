import SqliteAccess.Proofs.Access.PooledSteps

/-!
Whatever happens to a manager over a pool, its tasks stay chains of callers, and the sweep and those
that close the pool stay apart from the connections of clients.
-/

namespace SqliteAccess.Loop

open Access (Database)

variable {M p t i id : Nat} {d : Database} {l l' m : State} {s s' : Pool.State} {u : Shape}
  {w : Work u} {k : Stack u} {n : Next u} {c : Call u} {cs : List (Call .unit)} {v : Option Nat}
  {W : Weight} {N : Nat} {C : Nat → Prop} {D : Nat → Failure → Prop} {E : Nat → Follower → Prop}

theorem Next.over_give {o : Outcome u} (h : n.over d = .give o) : n = .give o := by
  cases n <;> first | exact h | cases h

theorem Next.over_weight (d : Database) (n : Next u) (h : W.call (.connect d true) = W.call .askOpen)
    (h' : ∀ c, W.call (.hangUp c) = W.call (.askClose c)) : W.next (n.over d) = W.next n := by
  cases n with
  | call c f => cases c <;> simp [Next.over, Call.over, Weight.next, h, h']
  | give | jump | pause | again => rfl

theorem Released.makes (h : Released p id l m s s' cs) : ∀ c ∈ cs, c.Served M (.pool p d) := by
  cases h with
  | rests => exact fun _ hc => (List.not_mem_nil hc).elim
  | leaves =>
    intro c hc
    rw [List.mem_singleton.mp hc]
    exact .destroy p d _

theorem Performs.makes (h : Performs M p d l m t s w s' cs n) : ∀ c ∈ cs, c.Served M (.pool p d) := by
  cases h with
  | acts _ ha _ => exact ha.makes
  | passes | lends | frees => exact fun _ hc => (List.not_mem_nil hc).elim
  | returns _ _ hr => exact hr.makes

theorem Act.borrowing {T N N' : Nat} (h : Act p t T N s w s' N' cs n)
    (hw : Weight.borrowing.work w = 0) : Weight.borrowing.next n = 0 := by
  have drains : ∀ {s : Pool.State} {rest : List Nat} {n : Next .unit}, Drains p s rest n →
      Weight.borrowing.next n = 0 := by
    intro s rest n hn
    cases hn <;> rfl
  cases h
  case lines => cases hw
  case evicts hn => cases hn <;> rfl
  case evictsOn hn => cases hn <;> rfl
  case reaps hn => cases hn <;> rfl
  case sweptOver hn => cases hn <;> rfl
  case shutsAtOnce hn => exact drains hn
  case clears hn => exact drains hn
  case drains hn => exact drains hn
  all_goals first | rfl | cases hw | exact hw

theorem Deed.borrowing {O O' : Nat} {way : Route} (h : Deed M O way w O' n)
    (hw : Weight.borrowing.work w = 0) : Weight.borrowing.next n = 0 := by
  cases h <;> first | rfl | cases hw | exact hw

theorem Deed.shutting {O O' : Nat} {way : Route} (h : Deed M O way w O' n) :
    Weight.shutting.next n = 0 := by
  cases h <;> rfl

theorem Performs.borrowing (h : Performs M p d l m t s w s' cs n) (hw : Weight.borrowing.work w = 0) :
    Weight.borrowing.next n = 0 := by
  cases h with
  | acts _ ha _ _ =>
    rw [Next.over_weight d _ rfl fun _ => rfl]
    exact ha.borrowing hw
  | passes hd _ => exact hd.borrowing hw
  | lends | frees | returns => rfl

theorem Performs.shutting (h : Performs M p d l m t s w s' cs n) (hc : s'.closed = false) :
    Weight.shutting.next n ≤ Weight.shutting.work w := by
  cases h with
  | acts _ ha _ _ =>
    rw [Next.over_weight d _ rfl fun _ => rfl]
    exact ha.shutting (.inr hc)
  | passes hd _ =>
    rw [hd.shutting]
    exact Nat.zero_le _
  | lends | frees | returns => exact Nat.zero_le _

theorem Released.constant (h : Released p id l m s s' cs) : s'.source = s.source ∧
    s'.closed = s.closed ∧ s'.reaper = s.reaper ∧
    s'.connections.map (·.id) = s.connections.map (·.id) := by
  cases h with
  | rests now _ _ =>
    have hc := s.checkin_spec id now
    generalize (s.checkin id now).1 = s' at hc
    cases hc with
    | serves => exact ⟨rfl, rfl, rfl, s.update_ids id fun _ => rfl⟩
    | rests => exact ⟨rfl, rfl, rfl, s.update_ids id fun _ => rfl⟩
  | leaves => exact ⟨rfl, rfl, rfl, s.update_ids id fun _ => rfl⟩

theorem Performs.was_open (h : Performs M p d l m t s w s' cs n) (hc : s'.closed = false) :
    s.closed = false := by
  cases h with
  | acts _ ha _ _ => exact ha.was_open hc
  | passes | lends | frees => exact hc
  | returns _ _ hr => exact hr.constant.2.1 ▸ hc

theorem Performs.closed (h : Performs M p d l m t s w s' cs n) (hc : s.closed = true) : s'.closed = true := by
  by_contra hn
  exact Bool.noConfusion (hc.symm.trans (h.was_open (Bool.eq_false_of_not_eq_true hn)))

theorem Work.PartOf.of (hw : w.PartOf M (.pool p d) c) (hp : w.Pooled) : w.Of p c := by
  cases hw with
  | call => exact .call c
  | back o hf =>
    cases hf with
    | start => cases hp
    | called hf =>
      cases hf with
      | opened => exact .back o .opened
      | registering => exact .back o .registering
      | openedBackground => exact .back o .openedBackground
      | destroyed _ _ id => exact .back o (.destroyed id)
      | evicting _ _ _ rest n => exact .back o (.evicting rest n)
      | swept _ _ i => exact .back o (.swept i)
      | draining _ _ _ rest => exact .back o (.draining rest)
      | _ => cases hp
    | paused hf =>
      cases hf with
      | turn | givenUp => exact .back o .inLine
      | sleep _ _ i => exact .back o (.rested i)
      | task => exact .back o .reaperEnded
      | tasks => exact .back o .backgroundEnded
      | _ => cases hp

theorem Act.shuts_closes {T N N' : Nat} {w : Work .unit} {n : Next .unit} (h : Act p t T N s w s' N' cs n)
    (hw : w.Of p (.closePool p)) (hs : s.closed = false → Weight.shutting.work w = 0)
    (hn : n = .give (.ok ())) : s'.closed = true := by
  have shut : Weight.shutting.work w ≠ 0 → s.closed = true := fun hne => by
    by_contra hcl
    exact hne (hs (Bool.eq_false_of_not_eq_true hcl))
  cases h
  case shutBefore hc => exact hc
  case shutsAtOnce | shutFails => rfl
  case clears | clearFails | drains | drainFails | gathers => exact shut (Nat.succ_ne_zero 0)
  case started | neverStarted | shuts => cases hn
  all_goals first
    | cases hw; done
    | cases hw with | back _ hf => cases hf

theorem Performs.shuts_closes {w : Work .unit} {n : Next .unit} (h : Performs M p d l m t s w s' cs n)
    (hw : w.PartOf M (.pool p d) (.closePool p)) (hs : s.closed = false → Weight.shutting.work w = 0)
    (hn : n = .give (.ok ())) : s'.closed = true := by
  cases h with
  | acts hp ha =>
    exact ha.shuts_closes (hw.of hp) hs (Next.over_give hn)
  | passes hd _ =>
    cases hw with
    | call => cases hd
    | back _ hf =>
      cases hf with
      | start hc => cases hc
      | called hf => cases hf; cases hd
      | paused hf => cases hf <;> cases hd
  | frees _ hret | returns _ hret => simpa using hret.ends

theorem Performs.source (h : Performs M p d l m t s w s' cs n) : s'.source = s.source := by
  cases h with
  | acts _ ha _ _ => exact ha.constant.1
  | passes | lends | frees => rfl
  | returns _ _ hr => exact hr.constant.1

theorem Performs.reaper (h : Performs M p d l m t s w s' cs n) {r : Nat} (hr : s'.reaper = some r) :
    s.reaper = some r ∨ r = l.tasks.length ∧ ∃ cs', cs = .reap p :: cs' := by
  cases h with
  | acts _ ha _ _ => exact ha.reaper hr
  | passes | lends | frees => exact .inl hr
  | returns _ _ hrel => exact .inl (hrel.constant.2.2.1 ▸ hr)

theorem Performs.known (h : Performs M p d l m t s w s' cs n)
    (hk : ∀ i ∈ s.connections.map (·.id), i < l.nextConnection) :
    ∀ i ∈ s'.connections.map (·.id), i < m.nextConnection := by
  cases h with
  | acts _ ha _ _ => exact ha.known hk
  | passes _ hc => exact hc.next ▸ hk
  | lends _ hc => exact hc.next ▸ hk
  | frees _ _ hc => exact hc.next ▸ hk
  | returns _ _ hr =>
    rw [hr.constant.2.2.2, hr.changed.next]
    exact hk

theorem Performs.once (h : Performs M p d l m t s w s' cs n)
    (hk : ∀ i ∈ s.connections.map (·.id), i < l.nextConnection)
    (ho : (s.connections.map (·.id)).Nodup) : (s'.connections.map (·.id)).Nodup := by
  cases h with
  | acts _ ha _ _ => exact ha.ids_once hk ho
  | passes | lends | frees => exact ho
  | returns _ _ hr => exact hr.constant.2.2.2 ▸ ho

theorem AllChained.changed {C : Nat → Prop} {D : Nat → Failure → Prop} {E : Nat → Follower → Prop}
    {N : Nat} (h : AllChained M (.pool p d) l.tasks) (hc : Changed p C D E l m s' N cs)
    (hs : ∀ c ∈ cs, c.Served M (.pool p d)) : AllChained M (.pool p d) m.tasks := by
  obtain ⟨ts, new, ht, hn, hm⟩ := hc.tasks
  rw [ht]
  refine (h.nudged hn).append fun x hx => ?_
  obtain ⟨i, hi, rfl⟩ := List.getElem_of_mem hx
  have hi' : i < cs.length := hm.length_eq ▸ hi
  exact (hm.get hi' hi).chained (hs _ (List.getElem_mem hi'))

theorem Beside.constant (hb : Beside M p d l s v l' s') :
    s'.source = s.source ∧ s'.closed = s.closed ∧ s'.reaper = s.reaper ∧
      s'.connections.map (·.id) = s.connections.map (·.id) := by
  cases hb with
  | ends _ hs | lull _ hs =>
    rw [hs.same]
    exact ⟨rfl, rfl, rfl, rfl⟩
  | goesOn | enters | spawns => exact ⟨rfl, rfl, rfl, rfl⟩
  | gives _ hrel => exact hrel.constant

theorem Beside.next (hb : Beside M p d l s v l' s') : l'.nextConnection = l.nextConnection := by
  cases hb with
  | ends _ _ hc | lull _ _ hc => exact hc.next
  | goesOn _ hres => exact hres.next
  | enters | spawns => rfl
  | gives _ hrel => exact hrel.changed.next

theorem Beside.pool (hb : Beside M p d l s v l' s') (hp : l.pool? p = some s) : l'.pool? p = some s' := by
  cases hb with
  | ends _ _ hc | lull _ _ hc => exact hc.pool
  | goesOn _ hres =>
    rw [State.pool?, hres.pools]
    exact hp
  | enters | spawns => exact hp
  | gives _ hrel => exact hrel.changed.pool

theorem Beside.outer (hb : Beside M p d l s v l' s') : l'.outer = l.outer := by
  cases hb with
  | ends _ _ _ _ ho | lull _ _ _ _ ho | gives _ _ ho => exact ho
  | goesOn _ hres => rw [State.outer, State.outer, hres.managers, hres.engine]
  | enters | spawns => rfl

theorem Beside.length_le (hb : Beside M p d l s v l' s') : l.tasks.length ≤ l'.tasks.length := by
  cases hb with
  | ends _ _ hc =>
    rw [hc.length]
    simp [State.lay, State.modifyTask]
  | goesOn _ hres =>
    rw [hres.tasks]
    simp
  | lull _ _ hc =>
    rw [hc.length]
    exact Nat.le_refl _
  | enters => simp [State.enter]
  | spawns => simp [State.spawn, State.enqueue]
  | gives _ hrel =>
    rw [hrel.changed.length]
    exact Nat.le_add_right _ _

theorem Beside.weight_new (hb : Beside M p d l s v l' s') (hi : l.tasks.length ≤ i) :
    W.of l' i = 0 ∨ i = l.tasks.length ∧
      ((∃ (u : Shape) (c : Call u), c.destroys? = v ∧ W.of l' i = W.call c) ∨
        ∃ id, v = some id ∧ s.closed = true ∧ W.of l' i = W.call (.destroy p id)) := by
  have quiet : l'.running = none → l'.tasks.length ≤ i → W.of l' i = 0 := fun hr hlen =>
    Weight.of_eq_zero (fun _ hr' => nomatch hr.symm.trans hr') hlen
  cases hb with
  | @ends t _ o _ _ _ _ _ hc =>
    refine .inl (quiet hc.running ?_)
    rw [hc.length]
    simpa [State.lay, State.modifyTask] using hi
  | goesOn hr hres =>
    refine .inl (Weight.of_eq_zero (fun r hr' => ?_) (by rw [hres.tasks]; simpa using hi))
    cases hres.running.symm.trans hr'
    rw [hres.tasks, List.length_modify]
    exact (List.getElem?_eq_some_iff.mp hres.task).1
  | lull hr _ hc => exact .inl (quiet (hc.running.trans hr) (by rw [hc.length]; simpa using hi))
  | @enters u c hr _ =>
    rcases Nat.eq_or_lt_of_le hi with rfl | hlt
    · refine .inr ⟨rfl, .inl ⟨u, c, rfl, ?_⟩⟩
      simp [Weight.of, State.enter, Weight.status, Weight.running, Weight.control, Weight.stack]
    · refine .inl (Weight.of_eq_zero (fun r hr' => ?_) (by simpa [State.enter] using Nat.succ_le_of_lt hlt))
      cases hr'
      simp [State.enter]
  | @spawns u c hr _ =>
    rcases Nat.eq_or_lt_of_le hi with rfl | hlt
    · refine .inr ⟨rfl, .inl ⟨u, c, rfl, ?_⟩⟩
      simp [Weight.of, hr, State.spawn, State.enqueue, Weight.status, Weight.stack, Weight.frame]
    · exact .inl (quiet hr (by simpa [State.spawn, State.enqueue] using Nat.succ_le_of_lt hlt))
  | @gives id _ _ cs hr hrel =>
    have hc := hrel.changed
    cases hrel with
    | rests => exact .inl (quiet (hc.running.trans hr) (by rw [hc.length]; simpa using hi))
    | leaves hcl =>
      rcases Nat.eq_or_lt_of_le hi with rfl | hlt
      · exact .inr ⟨rfl, .inr ⟨id, rfl, hcl, hc.weight_new (fun _ hr' => nomatch hr.symm.trans hr') 0 (by simp)⟩⟩
      · exact .inl (quiet (hc.running.trans hr) (by rw [hc.length]; simpa using Nat.succ_le_of_lt hlt))

namespace Grounded

variable (h : Grounded M p d l s)

include h in
theorem weight_old (hr : l.running = some (w.on t k)) (hp : Performs M p d l m t s w s' cs n)
    (hi : i < l.tasks.length) :
    W.of (m.carryOn t n k) i + (if i = t then W.work w else 0) =
      W.of l i + if i = t then W.next n else 0 := by
  obtain ⟨_, _, _, hc⟩ := hp.changed
  obtain ⟨hwt, hwi, _⟩ := hc.work_weight (W := W) (n := n) hr (h.at_work hr)
  by_cases hit : i = t
  · subst hit
    simpa using hwt
  · simpa [hit] using hwi i hi hit

include h in
theorem weight_new (hr : l.running = some (w.on t k)) (hp : Performs M p d l m t s w s' cs n)
    (hi : l.tasks.length ≤ i) :
    W.of (m.carryOn t n k) i = 0 ∨ ∃ j, ∃ hj : j < cs.length, i = l.tasks.length + j ∧
      W.of (m.carryOn t n k) i = W.call cs[j] := by
  obtain ⟨_, _, _, hc⟩ := hp.changed
  by_cases hlen : i < l.tasks.length + cs.length
  · obtain ⟨j, rfl⟩ := Nat.exists_eq_add_of_le hi
    exact .inr ⟨j, by omega, rfl,
      (hc.work_weight (W := W) (n := n) hr (h.at_work hr)).2.2 j (by omega)⟩
  · refine .inl (Weight.of_eq_zero (fun r hr' => ?_) (by rw [State.carryOn_length, hc.length]; omega))
    have ht := h.running_lt hr
    rw [Work.on_task] at ht
    rw [State.carryOn_running hr', State.carryOn_length, hc.length]
    omega

include h in
theorem works (hr : l.running = some (w.on t k)) (hw : w.PartOf M (.pool p d) c)
    (hk : k.Bears M (.pool p d) c)
    (hn : n.Continues M (.pool p d) c) (hp : Performs M p d l m t s w s' cs n)
    (ho : Remains M (.pool p d) l w m) : Grounded M p d (m.carryOn t n k) s' := by
  obtain ⟨_, _, _, hc⟩ := hp.changed
  have hx : ∃ x, m.tasks[t]? = some x ∧ x.status = .running := by
    obtain ⟨x, hx, hs⟩ := h.at_work hr
    obtain ⟨y, hy, hxy⟩ := hc.task hx
    exact ⟨y, hy, hxy.running hs⟩
  have hnext : (m.carryOn t n k).nextConnection = m.nextConnection := by cases n <;> rfl
  have hbare : (m.carryOn t n k).bare? M = m.bare? M := by cases n <;> rfl
  refine ⟨.carryOn (AllChained.changed h.tended.tasks hc hp.makes) hx hk hn, ?_, ?_,
    hp.source.trans h.source, fun r hr' => ?_, fun hcl i => ?_, ?_, hp.once h.known h.once,
    fun t' k' hr' => ?_, fun hdb => ?_⟩
  · obtain ⟨b, hb, hbp, hbs⟩ := h.reaches
    rw [hbare]
    rcases ho with ho | ⟨_, ho⟩
    · exact ⟨b, ho.trans hb, hbp, hbs⟩
    · exact ⟨_, ho.trans (congrArg _ hb), hbp, hbs⟩
  · rw [State.carryOn_pool]
    exact hc.pool
  · rw [State.carryOn_length, hc.length]
    rcases hp.reaper hr' with hr' | ⟨rfl, cs', rfl⟩
    · obtain ⟨hlt, hz⟩ := h.reaper r hr'
      refine ⟨by omega, ?_⟩
      have hold := h.weight_old (W := .borrowing) hr hp hlt
      by_cases hrt : r = t
      · subst hrt
        have hle : Weight.borrowing.work w = 0 := by
          have := State.of_on (W := .borrowing) hr (h.at_work hr)
          omega
        have := hp.borrowing hle
        simp only [if_true] at hold
        omega
      · simpa [hrt, hz] using hold
    · -- A sweep that has just been made is the first of the new tasks.
      have hnew := (hc.work_weight (W := .borrowing) (n := n) hr (h.at_work hr)).2.2 0 (by simp)
      exact ⟨by simp, hnew⟩
  · by_cases hi : i < l.tasks.length
    · have hold := h.weight_old (W := .shutting) hr hp hi
      have hz := h.shutting (hp.was_open hcl) i
      have hle := hp.shutting hcl
      split at hold <;> omega
    · rcases h.weight_new (W := .shutting) hr hp (Nat.le_of_not_lt hi) with hz | ⟨j, hj, _, hz⟩
      · exact hz
      · exact hz
  · rw [hnext]
    exact hp.known h.known
  · cases n with
    | give o =>
      cases hr'
      cases hk with
      | push hf _ =>
        cases hf
        refine hp.shuts_closes hw (fun hcl => ?_) rfl
        have hz := h.shutting hcl t
        rw [State.of_on hr (h.at_work hr)] at hz
        omega
    | call | jump | pause | again => cases hr'
  · rw [State.database?_eq, hbare] at hdb
    refine hp.closed ?_
    rcases ho with ho | ⟨hdis, ho⟩
    · exact h.disabled ((State.database?_eq l M).trans (ho ▸ hdb))
    · -- The manager has just been disabled by a shut down that has closed the pool before.
      cases hw with
      | call => cases hdis
      | back o hf =>
        cases hf with
        | start => cases hdis
        | called hf =>
          cases hf with
          | poolShut =>
            cases o with
            | ok => exact h.shut t k hr
            | error => cases hdis
          | _ => cases hdis
        | paused hf => cases hf <;> cases hdis

include h in
theorem lay_weight {o : Outcome u} (hr : l.running = some ⟨t, u, .give o, .done u⟩) (i : Nat) :
    W.of (l.lay t o) i = W.of l i := by
  obtain ⟨_, k, hk, hs⟩ := h.tended.running _ hr
  dsimp only at hk
  by_cases hi : t = i
  · subst hi
    simp [Weight.of, State.lay, State.modifyTask, hk, hr, hs, Weight.status, Weight.running,
      Weight.control, Weight.stack]
  · simp [Weight.of, State.lay, State.modifyTask, hr, hi]

include h in
theorem beside_old (hb : Beside M p d l s v l' s') (hi : i < l.tasks.length) : W.of l' i = W.of l i := by
  cases hb with
  | @ends t _ o _ _ _ hr _ hc =>
    have hi' : i < (l.lay t o).tasks.length := by simpa [State.lay, State.modifyTask] using hi
    rw [hc.weight_of hi', h.lay_weight hr]
  | @goesOn t _ _ _ _ hr hres =>
    by_cases hit : t = i
    · subst hit
      simp [Weight.of, hr, hres.running, hres.task, hres.ready, hres.tasks, Weight.status,
        Weight.running, Weight.control]
    · simp [Weight.of, hr, hres.running, hres.tasks, hit]
  | lull _ _ hc => exact hc.weight_of hi
  | enters hr =>
    have hne : l.tasks.length ≠ i := by omega
    simp [Weight.of, hr, State.enter, List.getElem?_append_left hi, hne]
  | spawns hr => simp [Weight.of, hr, State.spawn, State.enqueue, List.getElem?_append_left hi]
  | gives _ hrel => exact hrel.changed.weight_of hi

include h in
theorem lay_tended (t : Nat) (o : Outcome u) : Tended M (.pool p d) (l.lay t o) :=
  ⟨fun _ hr => absurd hr (Option.some_ne_none _).symm, AllChained.modify h.tended.tasks fun _ _ => .finished o⟩

theorem tended_changed (ht : Tended M (.pool p d) l) (hc : Changed p C D E l l' s' N cs)
    (hs : ∀ c ∈ cs, c.Served M (.pool p d)) : Tended M (.pool p d) l' := by
  refine ⟨fun r hr => ?_, AllChained.changed ht.tasks hc hs⟩
  obtain ⟨hch, k, hk, hst⟩ := ht.running r (hc.running ▸ hr)
  obtain ⟨k', hk', hn⟩ := hc.task hk
  exact ⟨hch, k', hk', hn.running hst⟩

include h in
theorem beside_tended (hb : Beside M p d l s v l' s') : Tended M (.pool p d) l' := by
  cases hb with
  | ends _ _ hc => exact tended_changed (h.lay_tended _ _) hc fun _ hm => (List.not_mem_nil hm).elim
  | goesOn _ hres => exact h.tended.goesOn hres.task hres.ready hres.running hres.tasks
  | lull _ _ hc => exact tended_changed h.tended hc fun _ hm => (List.not_mem_nil hm).elim
  | enters _ hc => exact h.tended.enter hc
  | spawns _ hc => exact h.tended.spawn hc
  | gives _ hrel => exact tended_changed h.tended hrel.changed hrel.makes

include h in
theorem beside_shut (hb : Beside M p d l s v l' s') {k : Stack .unit}
    (hr' : l'.running = some ⟨t, .unit, .give (.ok ()), .push (.poolShut M) k⟩) : s'.closed = true := by
  cases hb with
  | ends _ _ hc => cases hc.running.symm.trans hr'
  | @goesOn t _ _ x _ hr hres =>
    -- Whoever goes on comes back from what it has waited for.
    have hx := h.tended.tasks t x hres.task
    rw [hres.ready] at hx
    have he := hres.running.symm.trans hr'
    simp only [Option.some.injEq, Running.mk.injEq, heq_eq_eq, true_and] at he
    obtain ⟨_, _, rfl⟩ := he
    cases hx with
    | ready _ hf => cases hf
  | lull hr _ hc => cases (hc.running.trans hr).symm.trans hr'
  | enters => cases hr'
  | spawns hr => cases hr.symm.trans hr'
  | gives hr hrel => cases (hrel.changed.running.trans hr).symm.trans hr'

include h in
theorem besides (hb : Beside M p d l s v l' s') : Grounded M p d l' s' := by
  obtain ⟨hsource, hclosed, hreaper, hids⟩ := hb.constant
  refine ⟨h.beside_tended hb, ?_, hb.pool h.pool, hsource.trans h.source, fun r hr => ?_,
    fun hcl i => ?_, ?_, hids ▸ h.once, fun t k hr' => ?_, fun hdb => ?_⟩
  · rw [State.bare?_congr hb.outer]
    exact h.reaches
  · obtain ⟨hlt, hz⟩ := h.reaper r (hreaper ▸ hr)
    exact ⟨hlt.trans_le hb.length_le, (h.beside_old hb hlt).trans hz⟩
  · by_cases hi : i < l.tasks.length
    · exact (h.beside_old hb hi).trans (h.shutting (hclosed ▸ hcl) i)
    · rcases hb.weight_new (W := .shutting) (Nat.le_of_not_lt hi) with hz | ⟨_, ⟨u, c, _, hw⟩ | ⟨_, _, _, hw⟩⟩
      · exact hz
      · exact hw
      · exact hw
  · rw [hids, hb.next]
    exact h.known
  · exact h.beside_shut hb hr'
  · rw [hclosed]
    refine h.disabled ((State.database?_eq l M).trans ?_)
    rw [← State.bare?_congr hb.outer]
    exact (State.database?_eq l' M).symm.trans hdb

include h in
theorem shifts (hs : Shift M p d l s v l' s') : Grounded M p d l' s' := by
  cases hs with
  | works hr hw hk hn hp ho _ => exact h.works hr hw hk hn hp ho
  | beside hb => exact h.besides hb

end Grounded

end SqliteAccess.Loop
