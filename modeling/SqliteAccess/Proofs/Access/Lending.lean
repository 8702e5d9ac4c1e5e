import SqliteAccess.Proofs.Access.Lent

/-!
Whatever the clients of a manager over a pool do, connections keep their places: a client gives its
connection back once, and a careless one meddles with nothing that somebody else has.
-/

namespace SqliteAccess.Loop

open Access (Database)
open SqliteAccess.Pool (Lease)

variable {careless : Prop} {M p t i id : Nat} {d : Database} {x y : Desk} {l l' m : State}
  {s s' : Pool.State} {u : Shape} {c : Call u} {a : Lease} {cs : List (Call .unit)} {v : Option Nat}
  {r : List Nat} {q : List State}

theorem Call.dooms_of_none (h : c.destroys? = none) (i : Nat) : (Weight.dooms i).call c = 0 := by
  cases c <;> first | rfl | cases h

theorem Call.Asked.destroys_none {way : Route} (h : c.Asked M way) : c.destroys? = none := by
  cases h <;> rfl

theorem State.SetUp.lent (h : l.SetUp M (.pool p d)) (hi : l.Idle) : ∃ s, Desk.Lent M p d ⟨l, [], []⟩ s := by
  obtain ⟨⟨k, hk, hdb, hp, hsingle⟩, settings, hpool⟩ := h
  have hzero : ∀ (W : Weight) i, W.of l i = 0 := by
    intro W i
    cases ht : l.tasks[i]? with
    | none => simp [Weight.of, ht, hi.1]
    | some x =>
      obtain ⟨⟨_, _, hs⟩, _⟩ := hi.2 i x ht
      simp [Weight.of, ht, hi.1, hs, Weight.status]
  have hbare : l.bare? M = some { k with lock := {} } := by rw [State.bare?, hk]; rfl
  have henabled : l.database? M = some d := by rw [State.database?, hk]; exact hdb
  have hheld : Desk.held ⟨l, [], []⟩ = [] := by
    refine List.filterMap_eq_nil_iff.mpr fun i _ => ?_
    simp [Desk.lease?, hi.lease i]
  refine ⟨_, ⟨hi.tended, ⟨_, hbare, hp, hsingle⟩, hpool, rfl, (by simp), fun _ i => hzero _ i, ?_, .nil,
    fun _ _ hr => (by cases hi.1.symm.trans hr), fun hn => by cases henabled.symm.trans hn⟩, ?_, ?_, ?_⟩
  · exact fun i hi => (List.not_mem_nil hi).elim
  · rw [hheld]
    refine ⟨?_, fun i hdoomed => ?_, fun _ i t => (hzero _ t).le.trans (Nat.zero_le _)⟩
    · rw [State.brings_of_none hi.1]
      constructor
      · exact .nil
      all_goals
        intros
        contradiction
    · obtain ⟨t, ht⟩ := hdoomed
      rw [hzero] at ht
      exact absurd ht (Nat.lt_irrefl 0)
  · exact fun _ _ _ hr => by cases hi.1.symm.trans hr
  · exact fun t ht => (List.not_mem_nil ht).elim

namespace Desk.Lent

variable (h : x.Lent M p d s)

include h in
theorem step_shift (hl : x.loop.step? = some l') : ∃ s', Shift M p d x.loop s none l' s' := by
  refine h.toGrounded.step_shift hl fun {u w t k c} hr hret => ?_
  have hlease : x.lease? t = some c := by
    rw [h.lease_on hr, hret.lease]
    rfl
  exact (h.used hlease).check

include h in
theorem ended_besides (hb : Beside M p d x.loop s v l' s') (hi : i ∈ x.returned) :
    ∃ (v : Shape) (o : Outcome v), l'.Ended i o := by
  obtain ⟨v, o, he⟩ := h.ended i hi
  refine ⟨v, o, hb.ended he fun r hr => ?_⟩
  rintro rfl
  exact h.running_returned hr hi

include h in
theorem held_besides (hb : Beside M p d x.loop s v l' s') :
    Desk.held ⟨l', x.returned, q⟩ = x.held := by
  refine h.held_of_lease hb.length_le (funext fun i => ?_)
  exact congrArg (fun o => if i ∈ x.returned then none else o) (hb.lease? h.toGrounded i)

theorem brings_besides (hb : Beside M p d l s v l' s') : l'.brings = [] := by
  cases hb with
  | ends _ _ hc => exact State.brings_of_none hc.running
  | goesOn _ hres => simp [State.brings, hres.running, brought]
  | lull hr _ hc => exact State.brings_of_none (hc.running.trans hr)
  | enters => rfl
  | spawns hr => exact State.brings_of_none hr
  | gives hr hrel => exact State.brings_of_none (hrel.changed.running.trans hr)

theorem arriving_besides (hb : Beside M p d l s v l' s') {k : Stack .borrowed}
    (hr : l'.running = some ⟨t, .lease, .give (.ok a), .push .leased k⟩) : s'.UsedAs true a.id := by
  have := brings_besides hb
  simp [State.brings, hr, brought] at this

theorem front_besides (hb : Beside M p d l s v l' s') (i j : Nat) : l.front (.dooms i) j = 0 := by
  cases hb with
  | ends hr => simp [State.front, hr, Weight.control]
  | goesOn hr | lull hr | enters hr | spawns hr | gives hr => exact State.front_idle hr j

include h in
theorem besides (hb : Beside M p d x.loop s none l' s') : Desk.Lent M p d ⟨l', x.returned, q⟩ s' := by
  refine ⟨h.toGrounded.besides hb, ?_, fun _ _ _ => arriving_besides hb, fun i => h.ended_besides hb⟩
  have hsame : s'.idle = s.idle ∧ s'.handed = s.handed ∧ s'.connections = s.connections := by
    generalize hv : (none : Option Nat) = v at hb
    cases hb with
    | ends _ hs | lull _ hs =>
      rw [hs.same]
      exact ⟨rfl, rfl, rfl⟩
    | goesOn | enters | spawns => exact ⟨rfl, rfl, rfl⟩
    | gives => cases hv
  obtain ⟨hidle, hhanded, hconns⟩ := hsame
  rw [h.held_besides hb]
  refine h.stowed.drops hidle hhanded hconns hb.constant.2.1 hb.next (.inl (brings_besides hb))
    (fun i j => ?_) (front_besides hb)
  by_cases hj : j < x.loop.tasks.length
  · exact (h.toGrounded.beside_old hb hj).le
  · rcases hb.weight_new (W := .dooms i) (Nat.le_of_not_lt hj) with hz | ⟨_, ⟨u, c, hc, hw⟩ | ⟨_, hv, _⟩⟩
    · exact hz.le.trans (Nat.zero_le _)
    · rw [hw, c.dooms_of_none hc]
      exact Nat.zero_le _
    · cases hv

include h in
theorem gives (hb : Beside M p d x.loop s (some id) l' s') (hrel : Released p id x.loop l' s s' cs)
    (hr : x.loop.running = none) (hst : Stowed (Desk.held ⟨x.loop, r, q⟩) x.loop s)
    (hs : s.Sole (fun _ => True) (Desk.held ⟨x.loop, r, q⟩) [id])
    (hd : s.closed = false → ¬ x.loop.Doomed id)
    (hret : ∀ i ∈ r, ∃ (v : Shape) (o : Outcome v), x.loop.Ended i o) :
    Desk.Lent M p d ⟨l', r, q⟩ s' := by
  have hheld : Desk.held ⟨l', r, q⟩ = Desk.held ⟨x.loop, r, q⟩ := by
    have hlease : Desk.lease? ⟨l', r, q⟩ = Desk.lease? ⟨x.loop, r, q⟩ := funext fun i =>
      congrArg (fun o => if i ∈ r then none else o) (hb.lease? h.toGrounded i)
    rw [Desk.held, hlease]
    refine holdings_of_le hb.length_le fun i hi => ?_
    have hnone : x.loop.lease? i = none := State.lease?_of_le (fun _ => h.running_lt) hi
    rw [Desk.lease?]
    split
    · rfl
    · exact hnone
  refine ⟨h.toGrounded.besides hb, ?_, fun _ _ _ => arriving_besides hb, fun i hi => ?_⟩
  · rw [hheld]
    exact hst.released h.toGrounded hs hd hrel (State.brings_of_none hr) (brings_besides hb) hb.next
      (front_besides hb) fun _ _ => Nat.le_refl _
  · obtain ⟨v, o, he⟩ := hret i hi
    exact ⟨v, o, hb.ended he fun r hr' => by cases hr.symm.trans hr'⟩

include h in
theorem gives_up (hr : x.loop.running = none) (hk : x.Keeps t a) :
    Stowed (Desk.held ⟨x.loop, t :: x.returned, q⟩) x.loop s ∧
      s.Sole (fun _ => True) (Desk.held ⟨x.loop, t :: x.returned, q⟩) [a.id] ∧ ¬ x.loop.Doomed a.id ∧
      ∀ i ∈ t :: x.returned, ∃ (v : Shape) (o : Outcome v), x.loop.Ended i o := by
  have hl := hk.lease hr
  have hp := holdings_loses (h.lease_lt hl) hl
  rw [← Desk.lease?_returned] at hp
  obtain ⟨hst, hs, hd⟩ := h.stowed.loses (State.brings_of_none hr) hp
  refine ⟨hst, hs, hd, fun i hi => ?_⟩
  rcases List.mem_cons.mp hi with rfl | hi
  · obtain ⟨_, k, hk, hs⟩ := hk
    exact ⟨_, _, k, hk, hs⟩
  · exact h.ended i hi

include h in
theorem giveBack (hr : x.loop.running = none) (hk : x.Keeps t a) :
    ∃ s', Desk.Lent M p d ⟨(x.loop.giveBack M (some a)).1, t :: x.returned, q⟩ s' := by
  obtain ⟨hst, hs, hd, hret⟩ := h.gives_up (q := q) hr hk
  obtain ⟨s', cs, hrel, _⟩ := State.release_released h.pool (h.used (hk.lease hr)).check
  rw [h.toGrounded.giveBack_eq]
  exact ⟨s', h.gives (.gives hr hrel (State.outer_release ..)) hrel hr hst hs (fun _ => hd) hret⟩

include h in
theorem forget (hr : x.loop.running = none) (hk : x.Keeps t a) :
    Desk.Lent M p d ⟨x.loop, t :: x.returned, q⟩ s := by
  obtain ⟨hst, _, _, hret⟩ := h.gives_up (q := q) hr hk
  exact ⟨h.toGrounded, hst, fun t c k hr' => (nomatch hr.symm.trans hr'), hret⟩

theorem apart (hnone : ∀ t c, x.lease? t = some c → c.id ≠ id) (hhanded : ∀ t, (t, id) ∉ s.handed) :
    id ∉ s.given ++ x.held := by
  intro hm
  rcases List.mem_append.mp hm with hm | hm
  · obtain ⟨⟨t, _⟩, ht, rfl⟩ := List.mem_map.mp hm
    exact hhanded t ht
  · obtain ⟨t, _, c, ht, hid⟩ := mem_holdings.mp hm
    exact hnone t c ht hid

include h in
theorem release (hr : x.loop.running = none) (hun : x.Unclaimed a.id (.pool p d)) :
    ∃ s', Desk.Lent M p d ⟨(x.loop.giveBack M (some a)).1, x.returned, q⟩ s' := by
  rw [h.toGrounded.giveBack_eq]
  cases hc : s.checkRelease a.id with
  | error e =>
    have he : x.loop.release p a.id = (x.loop, .error e) := by
      simp only [State.release, h.pool, hc]
    rw [he]
    exact ⟨s, h.toGrounded, h.stowed, h.arriving, h.ended⟩
  | ok =>
    obtain ⟨hnone, s₀, hs₀, _, hhanded⟩ := hun
    cases h.pool.symm.trans hs₀
    have hout := apart hnone hhanded
    have hu : s.UsedAs true a.id := by
      rw [Pool.State.checkRelease] at hc
      split at hc
      next => cases hc
      next c hf =>
        split at hc
        next hin => exact ⟨c, hf, hin⟩
        next => cases hc
    have hsole := h.stowed.sole
    rw [State.brings_of_none hr] at hsole
    obtain ⟨s', cs, hrel, _⟩ := State.release_released h.pool hc
    refine ⟨s', h.gives (.gives hr hrel (State.outer_release ..)) hrel hr h.stowed (hsole.finds hu hout)
      (fun hopen => ?_) h.ended⟩
    rintro ⟨t, ht⟩
    have := h.stowed.early hopen a.id t
    rw [State.front_idle hr] at this
    omega

include h in
theorem destroy (hr : x.loop.running = none) (hun : x.Unclaimed id (.pool p d)) :
    Desk.Lent M p d ⟨x.loop.enter (.destroy p id), x.returned, q⟩ s := by
  obtain ⟨hnone, s₀, hs₀, hid, hhanded⟩ := hun
  cases h.pool.symm.trans hs₀
  have hb : Beside M p d x.loop s (some id) (x.loop.enter (.destroy p id)) s :=
    .enters (c := .destroy p id) hr (.destroy p d id)
  have hout : id ∉ s.given ++ (x.held ++ []) := by
    rw [List.append_nil]
    exact apart hnone hhanded
  refine ⟨h.toGrounded.besides hb, ?_, fun _ _ _ => arriving_besides hb, fun i => h.ended_besides hb⟩
  rw [h.held_besides hb]
  have hsole := h.stowed.sole
  rw [State.brings_of_none hr] at hsole
  have hnew : ∀ j a, x.loop.tasks.length ≤ a → (Weight.dooms j).of (x.loop.enter (.destroy p id)) a =
      if a = x.loop.tasks.length then (Weight.dooms j).call (.destroy p id) else 0 := by
    intro j a ha
    split
    next he =>
      subst he
      simp [Weight.of, State.enter, Weight.status, Weight.running, Weight.control, Weight.stack]
    next hne =>
      refine Weight.of_eq_zero (fun r hr' => ?_) ?_
      · cases hr'
        simp [State.enter]
      · have : (x.loop.enter (.destroy p id)).tasks.length = x.loop.tasks.length + 1 := by
          simp [State.enter]
        omega
  refine ⟨brings_besides hb ▸ hsole, fun j hdoomed => ?_, fun hopen j a => ?_⟩
  · obtain ⟨a, ha⟩ := hdoomed
    rw [brings_besides hb]
    by_cases hlt : a < x.loop.tasks.length
    · rw [h.toGrounded.beside_old hb hlt] at ha
      have hj := h.stowed.doomed j ⟨a, ha⟩
      rwa [State.brings_of_none hr] at hj
    · rw [hnew j a (Nat.le_of_not_lt hlt)] at ha
      split at ha
      · rw [Weight.dooms_destroy] at ha
        subst ha
        exact ⟨h.known id hid, hout⟩
      · exact absurd ha (Nat.lt_irrefl 0)
  · by_cases hlt : a < x.loop.tasks.length
    · have hle := h.stowed.early hopen j a
      rw [State.front_idle hr] at hle
      rw [h.toGrounded.beside_old hb hlt]
      omega
    · rw [hnew j a (Nat.le_of_not_lt hlt)]
      split
      next he =>
        subst he
        simp [State.front, State.enter, Weight.control]
      next => exact Nat.zero_le _

end Desk.Lent

theorem Desk.Step.lent (hs : x.Step M (.pool p d) careless y) (h : x.Lent M p d s) :
    ∃ s', y.Lent M p d s' := by
  have hg := h.toGrounded
  have shifts : ∀ {l' s'}, Shift M p d x.loop s none l' s' → ∀ q, ∃ s', Desk.Lent M p d ⟨l', x.returned, q⟩ s' := by
    intro l' s' hsh q
    cases hsh with
    | works hr hw hk hn hp ho _ => exact ⟨_, h.works hr hw hk hn hp ho⟩
    | beside hb => exact ⟨_, h.besides hb⟩
  have enters : ∀ {u : Shape} {c : Call u}, x.loop.running = none → c.Served M (.pool p d) →
      c.destroys? = none → Shift M p d x.loop s none (x.loop.enter c) s := fun {u c} hr hc hd =>
    .beside (hd ▸ .enters hr hc)
  have spawns : ∀ {u : Shape} {c : Call u}, x.loop.running = none → c.Served M (.pool p d) →
      c.destroys? = none → Shift M p d x.loop s none (x.loop.spawn c []).1 s := fun {u c} hr hc hd =>
    .beside (hd ▸ .spawns hr hc)
  cases hs with
  | loop hl =>
    obtain ⟨s', hsh⟩ := h.step_shift hl
    exact shifts hsh _
  | enter hr hc => exact shifts (enters hr hc.served hc.destroys_none) _
  | spawn hr hc => exact shifts (spawns hr hc.served hc.destroys_none) _
  | runs e st m hr => exact shifts (enters hr (.run _ e _ st m) rfl) _
  | plans e st m hr => exact shifts (spawns hr (.run _ e _ st m) rfl) _
  | giveBack hr hk _ => exact h.giveBack hr hk
  | cancel t hr =>
    obtain ⟨s', hsh⟩ := hg.cancel_shift hr t
    exact shifts hsh _
  | answer hr =>
    obtain ⟨s', hsh⟩ := hg.answer_shift hr _
    exact shifts hsh _
  | engine rules openings closings hr =>
    have hsh : Shift M p d x.loop s none (x.loop.modifyEngine fun e => { e with rules, openings, closings }) s :=
      hg.outside_shift hr rfl rfl rfl rfl rfl
    exact shifts hsh _
  | tick now hr =>
    have hsh : Shift M p d x.loop s none { x.loop with clock := now } s :=
      hg.outside_shift hr rfl rfl rfl rfl rfl
    exact shifts hsh _
  | forget _ hr hk => exact ⟨s, h.forget hr hk⟩
  | release a _ hr hun => exact h.release hr hun
  | destroy id _ hr hw hun =>
    cases hw
    exact ⟨s, h.destroy hr hun⟩

theorem Desk.Steps.lent (hs : Desk.Steps M (.pool p d) careless x y) (h : x.Lent M p d s) :
    ∃ s', y.Lent M p d s' := by
  induction hs with
  | refl => exact ⟨s, h⟩
  | tail _ hst ih =>
    obtain ⟨s', hs'⟩ := ih
    exact hst.lent hs'

theorem State.Reaches.lent (h : l.Reaches M (.pool p d) careless x) : ∃ s, x.Lent M p d s := by
  obtain ⟨s, hs⟩ := h.setUp.lent h.idle
  exact h.steps.lent hs

end SqliteAccess.Loop
