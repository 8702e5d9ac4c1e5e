import SqliteAccess.Proofs.Access.Loans

/-!
Callers of a manager over a pool have a connection each, and no two of them the same one, whatever its
clients do.
-/

namespace SqliteAccess.Loop

open Access (Database)
open SqliteAccess.Pool (Lease)

def Desk.held (x : Desk) : List Nat := holdings x.lease? x.loop.tasks.length

structure Desk.Lent (M p : Nat) (d : Database) (x : Desk) (s : Pool.State) : Prop
    extends Grounded M p d x.loop s where
  stowed : Stowed x.held x.loop s
  arriving : ∀ t c k, x.loop.running = some ⟨t, .lease, .give (.ok c), .push .leased k⟩ →
    s.UsedAs true c.id
  ended : ∀ t ∈ x.returned, ∃ (v : Shape) (o : Outcome v), x.loop.Ended t o

variable {M p t i O O' N : Nat} {way : Route} {d : Database} {x y : Desk} {l l' m : State}
  {s s' : Pool.State} {u : Shape} {w : Work u} {k : Stack u} {n : Next u} {c : Call u} {a b : Lease}
  {cs : List (Call .unit)} {C : Nat → Prop} {D : Nat → Failure → Prop} {E : Nat → Follower → Prop}
  {v : Option Nat} {q : List State}

theorem State.front_eq_zero {W : Weight} (hr : l.running = some (w.on t k))
    (hw : ∀ c, w = .call c → W.call c = 0) (j : Nat) : l.front W j = 0 := by
  cases w with
  | call c => simp [State.front, hr, Work.on, Weight.control, hw c rfl]
  | back => simp [State.front, hr, Work.on, Weight.control]

theorem State.front_idle {W : Weight} (hr : l.running = none) (j : Nat) : l.front W j = 0 := by
  simp [State.front, hr]

theorem Deed.brings (h : Deed M O way w O' n) : w.brings = [] ∧ n.brings = [] := by
  cases h
  case neverStarts => exact ⟨rfl, brought_error _⟩
  all_goals exact ⟨rfl, rfl⟩

theorem Deed.dooms (h : Deed M O way w O' n) (i : Nat) :
    (Weight.dooms i).next n ≤ (Weight.dooms i).work w ∧ ∀ c, w = .call c → (Weight.dooms i).call c = 0 := by
  cases h
  case starts c => exact ⟨Nat.le_refl _, fun _ hc => by cases hc⟩
  all_goals exact ⟨Nat.zero_le _, fun c hc => by cases hc <;> rfl⟩

theorem Work.Returns.brings {lease : Option Lease} (h : w.Returns M lease) (o : Outcome u) :
    w.brings = [] ∧ (Next.give o).brings = [] := by
  cases h <;> exact ⟨rfl, rfl⟩

theorem Work.Returns.not_call {lease : Option Lease} (h : w.Returns M lease) (c : Call u) :
    w ≠ .call c := by
  cases h <;> exact nofun

theorem Next.over_alike (d : Database) (n : Next u) : n.Alike (n.over d) := by
  have hd : ∀ i {v : Shape} (c : Call v), (Weight.dooms i).call (c.over d) = (Weight.dooms i).call c := by
    intro i v c
    cases c <;> rfl
  cases n with
  | call c f => exact ⟨rfl, fun i => congrArg (· + _) (hd i c), fun i => hd i c⟩
  | give | jump | pause | again => exact .refl _

theorem State.Ended.carryOn {v : Shape} {o : Outcome v} (h : m.Ended i o) (hi : i ≠ t) (n : Next u) (k : Stack u) :
    (m.carryOn t n k).Ended i o :=
  State.ended_modify (m.carryOn_tasks t n k) hi h

theorem Beside.ended (hb : Beside M p d l s v l' s') {e : Shape} {o : Outcome e} (h : l.Ended i o)
    (hrun : ∀ r, l.running = some r → r.task ≠ i) : l'.Ended i o := by
  cases hb with
  | ends hr _ hc => exact hc.ended (State.ended_modify rfl (Ne.symm (hrun _ hr)) h)
  | @goesOn t _ _ _ _ _ hres =>
    refine State.ended_modify hres.tasks (fun he => ?_) h
    subst he
    obtain ⟨k, hk, hs⟩ := h
    cases hk.symm.trans hres.task
    cases hs.symm.trans hres.ready
  | lull _ _ hc => exact hc.ended h
  | enters => exact State.ended_append rfl h
  | spawns => exact State.ended_append rfl h
  | gives _ hrel => exact hrel.changed.ended h

theorem Beside.lease? (hg : Grounded M p d l s) (hb : Beside M p d l s v l' s') (i : Nat) :
    l'.lease? i = l.lease? i := by
  cases hb with
  | ends hr _ hc => exact (hc.lease? i).trans (State.lease?_lay hr (hg.tended.running _ hr).2 i)
  | goesOn hr hres => exact hres.lease? hr i
  | lull _ _ hc => exact hc.lease? i
  | enters hr => exact State.lease?_enter hr _ i
  | spawns => exact State.lease?_spawn _ i
  | gives _ hrel => exact hrel.changed.lease? i

namespace Desk.Lent

variable (h : x.Lent M p d s)

include h in
theorem lease_lt (ht : x.lease? t = some a) : t < x.loop.tasks.length := by
  refine State.lease?_lt (x := a) (fun _ => h.running_lt) ?_
  rw [Desk.lease?] at ht
  split at ht
  · cases ht
  · exact ht

include h in
theorem mem_held (ht : x.lease? t = some a) : a.id ∈ x.held :=
  mem_holdings.mpr ⟨t, h.lease_lt ht, a, ht, rfl⟩

include h in
theorem used (ht : x.lease? t = some a) : s.UsedAs true a.id :=
  h.stowed.sole.used a.id (List.mem_append_right _ (h.mem_held ht))

include h in
theorem alone {j : Nat} (hi : x.lease? i = some a) (hj : x.lease? j = some b) (hab : a.id = b.id) : i = j := by
  have hn := (List.nodup_append.mp h.stowed.sole.once).2.1
  have hheld : x.held.Nodup := (List.nodup_append.mp (List.nodup_append.mp hn).2.1).1
  exact eq_of_holdings hheld (h.lease_lt hi) (h.lease_lt hj) hi hj hab

include h in
theorem running_returned {r : Running} (hr : x.loop.running = some r) : r.task ∉ x.returned := by
  intro hm
  obtain ⟨_, _, k, hk, hs⟩ := h.ended _ hm
  obtain ⟨_, k', hk', hs'⟩ := h.tended.running r hr
  cases hk.symm.trans hk'
  cases hs.symm.trans hs'

include h in
theorem lease_on (hr : x.loop.running = some (w.on t k)) : x.lease? t = w.lease?.or k.lease? := by
  have ht := h.running_returned hr
  rw [Work.on_task] at ht
  exact (if_neg ht).trans (State.lease?_at hr (h.at_work hr))

include h in
theorem lease_carryOn (hr : x.loop.running = some (w.on t k)) (hc : Changed p C D E x.loop m s' N cs)
    (n : Next u) : Desk.lease? ⟨m.carryOn t n k, x.returned, q⟩ =
      Function.update x.lease? t (n.lease?.or k.lease?) := by
  have ht := h.running_returned hr
  rw [Work.on_task] at ht
  funext i
  by_cases hi : i = t
  · subst hi
    obtain ⟨y, hy, hs⟩ := h.at_work hr
    obtain ⟨z, hz, hn⟩ := hc.task hy
    rw [Function.update_self]
    exact (if_neg ht).trans (State.carryOn_lease ⟨z, hz, hn.running hs⟩ n k)
  · rw [Function.update_of_ne hi]
    have hl : (m.carryOn t n k).lease? i = x.loop.lease? i := by
      rw [State.carryOn_lease_of_ne (hc.running.trans hr) hi]
      exact hc.lease? i
    exact congrArg (fun o => if i ∈ x.returned then none else o) hl

include h in
theorem held_of_lease (hlen : x.loop.tasks.length ≤ l.tasks.length)
    (hl : Desk.lease? ⟨l, x.returned, q⟩ = x.lease?) : Desk.held ⟨l, x.returned, q⟩ = x.held := by
  rw [Desk.held, hl]
  refine holdings_of_le hlen fun t ht => ?_
  by_contra hne
  obtain ⟨c, hc⟩ := Option.ne_none_iff_exists'.mp hne
  exact Nat.not_lt.mpr ht (h.lease_lt hc)

include h in
theorem held_carryOn (hr : x.loop.running = some (w.on t k)) (hc : Changed p C D E x.loop m s' N cs)
    (hl : n.lease?.or k.lease? = w.lease?.or k.lease?) :
    Desk.held ⟨m.carryOn t n k, x.returned, q⟩ = x.held := by
  refine h.held_of_lease ?_ ?_
  · rw [State.carryOn_length, hc.length]
    exact Nat.le_add_right _ _
  · rw [h.lease_carryOn hr hc, hl, ← h.lease_on hr]
    exact Function.update_eq_self t _

include h in
theorem stowed_passes (hr : x.loop.running = some (w.on t k)) (hp : Performs M p d x.loop m t s w s [] n)
    (hc : Changed p C D E x.loop m s x.loop.nextConnection [])
    (hl : n.lease?.or k.lease? = w.lease?.or k.lease?) (hb : n.brings = w.brings)
    (hd : ∀ i, (Weight.dooms i).next n ≤ (Weight.dooms i).work w)
    (hcall : ∀ i c, w = .call c → (Weight.dooms i).call c = 0) :
    Stowed (Desk.held ⟨m.carryOn t n k, x.returned, q⟩) (m.carryOn t n k) s := by
  have hnext : (m.carryOn t n k).nextConnection = m.nextConnection := by cases n <;> rfl
  rw [h.held_carryOn hr hc hl]
  refine h.stowed.still rfl rfl rfl rfl (hnext.trans hc.next) ?_ (fun i j => ?_)
    (fun i => State.front_eq_zero hr (hcall i)) fun _ => id
  · rw [State.carryOn_brings, State.brings_on hr, hb]
  · by_cases hj : j < x.loop.tasks.length
    · have hw := h.weight_old (W := .dooms i) hr hp hj
      have := hd i
      split at hw <;> omega
    · rcases h.weight_new (W := .dooms i) hr hp (Nat.le_of_not_lt hj) with hz | ⟨_, hlt, _⟩
      · exact hz.le.trans (Nat.zero_le _)
      · exact absurd hlt (Nat.not_lt_zero _)

include h in
theorem stowed_lends {o : Outcome .lease} {k : Stack .borrowed}
    (hr : x.loop.running = some ((Work.back .leased o).on t k)) (hk : k.lease? = none)
    (hp : Performs M p d x.loop m t s (.back .leased o) s [] (.give (o.map some)))
    (hc : Changed p C D E x.loop m s x.loop.nextConnection []) :
    Stowed (Desk.held ⟨m.carryOn t (.give (o.map some)) k, x.returned, q⟩)
      (m.carryOn t (.give (o.map some)) k) s := by
  cases o with
  | error e => exact h.stowed_passes hr hp hc rfl rfl (fun _ => Nat.le_refl _) nofun
  | ok c =>
    have hnone : x.lease? t = none := by
      rw [h.lease_on hr, hk]
      rfl
    have ht : t < x.loop.tasks.length := by
      have := h.running_lt hr
      rwa [Work.on_task] at this
    refine h.stowed.gets (i := c.id) ?_ ?_ (h.arriving t c k hr) ?_ hc.next (fun i j => ?_)
      (fun i => State.front_eq_zero hr nofun) fun _ => id
    · rw [State.brings_on hr]
      rfl
    · rw [State.carryOn_brings]
      rfl
    · have hlen : (m.carryOn t (.give (Except.map some (.ok c) : Outcome .borrowed)) k).tasks.length =
          x.loop.tasks.length := by
        rw [State.carryOn_length, hc.length]
        rfl
      rw [Desk.held, h.lease_carryOn hr hc, hlen, hk]
      exact holdings_gains ht hnone c
    · by_cases hj : j < x.loop.tasks.length
      · have hw := h.weight_old (W := .dooms i) hr hp hj
        split at hw <;> exact hw
      · rcases h.weight_new (W := .dooms i) hr hp (Nat.le_of_not_lt hj) with hz | ⟨_, hlt, _⟩
        · rw [hz, Weight.of_eq_zero (fun _ => h.running_lt) (Nat.le_of_not_lt hj)]
        · exact absurd hlt (Nat.not_lt_zero _)

include h in
theorem stowed_returns {o : Outcome u} (hr : x.loop.running = some (w.on t k))
    (hret : w.Returns M (some a)) (hk : k = .done u) (hrel : Released p a.id x.loop m s s' cs) :
    Stowed (Desk.held ⟨m.carryOn t (.give o) k, x.returned, q⟩) (m.carryOn t (.give o) k) s' := by
  subst hk
  have hc := hrel.changed
  have hlease : x.lease? t = some a := by rw [h.lease_on hr, hret.lease]; rfl
  have ht := h.lease_lt hlease
  obtain ⟨hwb, hgb⟩ := hret.brings o
  have hb : x.loop.brings = [] := (State.brings_on hr).trans hwb
  obtain ⟨hst, hsole, hd⟩ := h.stowed.loses hb (holdings_loses ht hlease)
  have hnone : (Next.give o).lease?.or (Stack.done u).lease? = none := by
    cases hret.ends with
    | inl h => subst h; rfl
    | inr h => cases h with
      | inl h => subst h; rfl
      | inr h => subst h; rfl
  have hheld : Desk.held ⟨m.carryOn t (.give o) (.done u), x.returned, q⟩ =
      holdings (Function.update x.lease? t none) x.loop.tasks.length := by
    rw [Desk.held, h.lease_carryOn hr hc, hnone]
    refine holdings_of_le ?_ fun j hj => ?_
    · rw [State.carryOn_length, hc.length]
      exact Nat.le_add_right _ _
    · rw [Function.update_of_ne (by omega)]
      by_contra hne
      obtain ⟨c, hc⟩ := Option.ne_none_iff_exists'.mp hne
      exact Nat.not_lt.mpr hj (h.lease_lt hc)
  rw [hheld]
  obtain ⟨y, hy, hs⟩ := h.at_work hr
  obtain ⟨z, hz, hn⟩ := hc.task hy
  refine hst.released h.toGrounded hsole (fun _ => hd) hrel hb ?_ hc.next
    (fun i => State.front_eq_zero hr fun c hc => absurd hc (hret.not_call c)) fun j e => ?_
  · rw [State.carryOn_brings]
    exact hgb
  · by_cases he : e = t
    · subst he
      have := State.carryOn_weight_of (W := .dooms j) (.give o) (hc.running.trans hr) hz (hn.running hs)
      have : (Weight.dooms j).next (.give o : Next u) = 0 := rfl
      omega
    · exact (State.carryOn_weight_of_ne (.give o) (hc.running.trans hr) he).le

include h in
theorem stowed_works (hr : x.loop.running = some (w.on t k)) (hw : w.PartOf M (.pool p d) c)
    (hk : k.Bears M (.pool p d) c)
    (hp : Performs M p d x.loop m t s w s' cs n) :
    Stowed (Desk.held ⟨m.carryOn t n k, x.returned, q⟩) (m.carryOn t n k) s' := by
  cases hp with
  | acts hpooled ha hc ho =>
    obtain ⟨hwl, hnl⟩ := ha.lease hpooled
    rw [h.held_carryOn hr hc (by rw [Next.over_lease, hwl, hnl])]
    exact h.stowed.work hr (h.at_work hr) ha hc h.known h.shutting (fun _ _ _ => trivial)
      (fun _ _ => .inl trivial) (fun _ _ => trivial) (Next.over_alike d _)
  | passes hd hc =>
    exact h.stowed_passes hr (.passes hd hc) hc (by rw [hd.lease]) (hd.brings.2.trans hd.brings.1.symm)
      (fun i => (hd.dooms i).1) fun i => (hd.dooms i).2
  | lends o hc ho =>
    cases hw with
    | back _ hf =>
      cases hf with
      | called hf => cases hf; exact h.stowed_lends hr hk.lease_none (.lends o hc ho) hc
  | frees o hret hc ho =>
    obtain ⟨hwb, hgb⟩ := hret.brings o
    refine h.stowed_passes hr (.frees o hret hc ho) hc ?_ (hgb.trans hwb.symm) (fun _ => Nat.zero_le _)
      fun i c hc => absurd hc (hret.not_call c)
    rw [hret.lease]
    rcases hret.ends with rfl | rfl | rfl <;> rfl
  | returns o hret hrel => exact h.stowed_returns hr hret (hk.alone hret.ends) hrel

include h in
theorem arriving_works {k : Stack .borrowed} {w : Work .lease} {n : Next .lease}
    (hr : x.loop.running = some (w.on t (.push .leased k))) (hw : w.PartOf M (.pool p d) (.acquire p))
    (hp : Performs M p d x.loop m t s w s' cs n) (hn : n = .give (.ok a)) : s'.UsedAs true a.id := by
  have hs := h.stowed.sole
  rw [State.brings_on hr] at hs
  have calm : ∀ o, n = .give o → n.brings ≠ [] := by
    intro o ho
    rw [hn]
    exact List.cons_ne_nil _ _
  cases hp with
  | acts hpooled ha _ _ => exact ha.returning hs (hw.of hpooled) .acquire (Next.over_give hn)
  | passes hd _ => exact absurd hd.brings.2 (calm _ hn)
  | frees o hret _ _ => exact absurd (hret.brings o).2 (calm _ rfl)
  | returns o hret _ _ => exact absurd (hret.brings o).2 (calm _ rfl)

include h in
theorem works (hr : x.loop.running = some (w.on t k)) (hw : w.PartOf M (.pool p d) c)
    (hk : k.Bears M (.pool p d) c) (hn : n.Continues M (.pool p d) c)
    (hp : Performs M p d x.loop m t s w s' cs n) (ho : Remains M (.pool p d) x.loop w m) :
    Desk.Lent M p d ⟨m.carryOn t n k, x.returned, q⟩ s' := by
  refine ⟨h.toGrounded.works hr hw hk hn hp ho, h.stowed_works hr hw hk hp, fun t' a k' hr' => ?_,
    fun i hi => ?_⟩
  · cases n with
    | give o =>
      cases hr'
      cases hk with
      | push hf _ => cases hf; exact h.arriving_works hr hw hp rfl
    | call | jump | pause | again => cases hr'
  · obtain ⟨v, o, he⟩ := h.ended i hi
    obtain ⟨_, _, _, hc⟩ := hp.changed
    have ht := h.running_returned hr
    rw [Work.on_task] at ht
    have hne : i ≠ t := by
      rintro rfl
      exact ht hi
    exact ⟨v, o, State.Ended.carryOn (hc.ended he) hne n k⟩

end Desk.Lent

end SqliteAccess.Loop
