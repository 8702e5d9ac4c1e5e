import SqliteAccess.Proofs.Batch.Hearing
import SqliteAccess.Proofs.Batch.Owners
import SqliteAccess.Proofs.Life.Cycles

/-!
No two callers have connections with the same handle, and nobody prepares a connection that a caller has.
So whoever has a connection, and is in the middle of a call, is alone to send statements on its handle.
-/

namespace SqliteAccess.Loop

open Access (Database)
open SqliteAccess.Pool (Handle Lease)

structure Enrolled (s : Pool.State) (l : State) : Prop where
  leased : ∀ i a, l.lease? i = some a → a ∈ s.leases
  arriving : ∀ t a k, l.running = some ⟨t, .lease, .give (.ok a), k⟩ → a ∈ s.leases

variable {careless : Prop} {M p t i j T N N' : Nat} {way : Route} {d : Database} {x y : Desk} {l l' m : State}
  {s s' : Pool.State} {u : Shape} {w : Work u} {k : Stack u} {n : Next u} {c : Call u} {a b : Lease} {h : Handle}
  {cs : List (Call .unit)} {v : Option Nat} {q : Point} {due : Nat → Prop} {held : List Nat}

theorem Pool.State.leaseOf_mem {b : Bool} {id : Nat} (hu : s.UsedAs b id) : s.leaseOf id ∈ s.leases := by
  obtain ⟨c, hc, _⟩ := hu
  obtain ⟨e, he⟩ : ∃ e, s.everFind? id = some e := by
    refine Option.isSome_iff_exists.mp (List.find?_isSome.mpr ⟨c, Pool.State.find?_mem hc, ?_⟩)
    exact decide_eq_true (Pool.State.find?_id hc)
  rw [Pool.State.leaseOf, he]
  exact List.mem_map_of_mem (List.mem_of_find?_eq_some he)

theorem Released.roll {id : Nat} (h : Released p id l m s s' cs) : s'.roll = s.roll := by
  cases h with
  | rests now => exact (s.checkin_spec id now).roll
  | leaves => exact s.roll_update id fun _ => ⟨rfl, rfl⟩

theorem Shift.leases (hs : Shift M p d l s v l' s') : s.leases ⊆ s'.leases := by
  have same : ∀ {q q' : Pool.State}, q'.roll = q.roll → q.leases ⊆ q'.leases := by
    intro q q' he
    rw [Pool.State.leases_eq, Pool.State.leases_eq, he]
    exact List.Subset.refl _
  cases hs with
  | works _ hw _ _ hp =>
    cases hp with
    | acts hpooled ha => exact (ha.turnover (hw.of hpooled)).keeps.2.subset
    | passes | lends | frees => exact List.Subset.refl _
    | returns _ _ hrel => exact same hrel.roll
  | beside hb =>
    cases hb with
    | ends _ hl | lull _ hl =>
      rw [hl.same]
      exact List.Subset.refl _
    | goesOn | enters | spawns => exact List.Subset.refl _
    | gives _ hrel => exact same hrel.roll

theorem Act.enrols {w : Work .lease} {n : Next .lease} {c : Call .lease} (ha : Act p t T N s w s' N' cs n)
    (hs : s.Sole due held w.brings) (hw : w.Of p c)
    (hold : ∀ b, w = .back (.opened p) (.ok b) → b ∈ s.leases) (hn : n = .give (.ok a)) : a ∈ s'.leases := by
  have hused : c.Root p → s'.UsedAs true a.id := fun hr => ha.returning hs hw hr hn
  have hkept := (ha.turnover hw).keeps.2.subset
  cases ha with
  | neverStarted | refused | openSpoilt | misled | leaves | passesOn | frees => cases hn
  | started | opens | asks => cases hn
  | takes =>
    cases hn
    cases hw
    rw [Pool.State.leaseOf_id] at hused
    exact Pool.State.leaseOf_mem (hused .acquire)
  | lines _ _ _ _ hl =>
    subst hn
    cases hl
  | openFailed e =>
    unfold orFailure at hn
    split at hn <;> cases hn
  | openDone b =>
    cases hn
    exact hkept (hold a rfl)
  | served =>
    cases hn
    cases hw with
    | back _ hf =>
      cases hf
      rw [Pool.State.leaseOf_id] at hused
      exact Pool.State.leaseOf_mem (hused .acquire)
  | registers =>
    cases hn
    rw [Pool.State.leases_eq, Pool.State.roll_register]
    simp

namespace Enrolled

variable (he : Enrolled s x.loop) (hl : x.Lent M p d s)

include he hl in
theorem works (hr : x.loop.running = some (w.on t k)) (hw : w.PartOf M (.pool p d) c)
    (hk : k.Bears M (.pool p d) c) (hp : Performs M p d x.loop m t s w s' cs n)
    (hsub : s.leases ⊆ s'.leases) : Enrolled s' (m.carryOn t n k) := by
  obtain ⟨_, _, _, hc⟩ := hp.changed
  have hat := hl.toGrounded.at_work hr
  refine ⟨fun i a hi => ?_, fun t' a k' hr' => ?_⟩
  · by_cases hit : i = t
    · subst hit
      obtain ⟨y, hy, hs⟩ := hat
      obtain ⟨z, hz, hn⟩ := hc.task hy
      rw [State.carryOn_lease ⟨z, hz, hn.running hs⟩] at hi
      have hold := he.leased i a
      rw [State.lease?_at hr ⟨y, hy, hs⟩] at hold
      cases hp with
      | acts hpooled ha =>
        obtain ⟨hwl, hnl⟩ := ha.lease hpooled
        rw [Next.over_lease, hnl] at hi
        rw [hwl] at hold
        exact hsub (hold hi)
      | passes hd =>
        rw [hd.lease] at hi
        exact hsub (hold hi)
      | lends o =>
        cases hw with
        | back _ hf =>
          cases hf with
          | called hf =>
            cases hf
            rw [hk.lease_none, Option.or_none] at hi
            cases o with
            | error => cases hi
            | ok b =>
              cases hi
              exact he.arriving _ _ _ hr
      | frees o hret | returns o hret =>
        rw [hk.alone hret.ends] at hi
        rcases hret.ends with rfl | rfl | rfl <;> cases hi
    · rw [State.carryOn_lease_of_ne (hc.running.trans hr) hit, hc.lease?] at hi
      exact hsub (he.leased i a hi)
  · cases n with
    | give o =>
      cases hr'
      generalize hg : (Next.give (.ok a) : Next .lease) = n at hp
      have calm : n.brings ≠ [] := hg ▸ List.cons_ne_nil _ _
      have hsole := hl.stowed.sole
      rw [State.brings_on hr] at hsole
      cases hp with
      | acts hpooled ha =>
        refine ha.enrols hsole (hw.of hpooled) (fun b hb => ?_) (Next.over_give hg.symm)
        subst hb
        exact he.arriving _ _ _ hr
      | passes hd => exact absurd hd.brings.2 calm
      | frees o hret | returns o hret => exact absurd (hret.brings o).2 calm
    | call | jump | pause | again => cases hr'

include he hl in
theorem shift (hs : Shift M p d x.loop s v l' s') : Enrolled s' l' := by
  have hsub := hs.leases
  cases hs with
  | works hr hw hk _ hp => exact he.works hl hr hw hk hp hsub
  | beside hb =>
    refine ⟨fun i a hi => hsub (he.leased i a ((hb.lease? hl.toGrounded i).symm.trans hi)), fun t a k hr => ?_⟩
    have hnone := Desk.Lent.brings_besides hb
    simp [State.brings, hr, brought] at hnone

end Enrolled

theorem State.Reaches.enrolled (h : l.Reaches M (.pool p d) careless x) :
    ∃ s, x.Lent M p d s ∧ Enrolled s x.loop := by
  obtain ⟨hi, hset, hsteps⟩ := h
  induction hsteps with
  | refl =>
    obtain ⟨s, hs⟩ := hset.lent hi
    exact ⟨s, hs, fun i a ha => (nomatch (hi.lease i).symm.trans ha), fun t a k hr => nomatch hi.1.symm.trans hr⟩
  | tail _ hst ih =>
    obtain ⟨s, hs, he⟩ := ih
    obtain ⟨s', hs'⟩ := hst.lent hs
    rcases hst.shift hs with hloop | ⟨v, s'', hsh⟩
    · have hp := hs'.pool
      rw [hloop] at hp ⊢
      cases hs.pool.symm.trans hp
      exact ⟨s, hs', he⟩
    · cases hs'.pool.symm.trans (hs.toGrounded.shifts hsh).pool
      exact ⟨s', hs', he.shift hs hsh⟩

theorem Accounts.leases_nodup {past : List State} (ha : Accounts past l) (hp : l.pool? p = some s) :
    (s.leases.map (·.handle)).Nodup := by
  refine List.nodup_iff_count_le_one.mpr fun h => ?_
  have hone := ha.once h
  have hcount := l.registered_count h
  have hle : (s.leases.map (·.handle)).count h ≤ (l.pools.flatMap fun s => s.leases.map (·.handle)).count h := by
    obtain ⟨before, after, he⟩ := List.append_of_mem (List.mem_of_getElem? hp)
    rw [he]
    simp only [List.flatMap_append, List.flatMap_cons, List.count_append]
    omega
  omega

theorem Accounts.not_enrolled {past : List State} (ha : Accounts past l) (hp : l.pool? p = some s)
    (hq : l.point? i = some q) (hh : 1 ≤ q.holds h) : h ∉ s.leases.map (·.handle) := by
  intro hin
  have hone := ha.once h
  have hcount := l.registered_count h
  have hand := State.handOf_le ha.atWork h i
  rw [State.handOf, hq] at hand
  have hpos : 0 < (l.pools.flatMap fun s => s.leases.map (·.handle)).count h :=
    List.count_pos_iff.mpr (List.mem_flatMap.mpr ⟨s, List.mem_of_getElem? hp, hin⟩)
  simp only [Option.map_some, Option.getD_some] at hand
  omega

theorem Desk.Steps.course (hs : Desk.Steps M way False x y) : ∃ past, Course State.Offers x.loop past y.loop := by
  induction hs with
  | refl => exact ⟨[], .start⟩
  | tail _ hst ih =>
    obtain ⟨past, hc⟩ := ih
    exact ⟨_, hc.step hst.happens⟩

theorem State.Reaches.accounts (h : l.Reaches M way False x) (hl : l.Lived) : ∃ past, Accounts past x.loop := by
  obtain ⟨past, hc⟩ := Desk.Steps.course h.steps
  exact (hl.trans hc).accounts

theorem Desk.lease?_loop (hi : x.lease? i = some a) : i ∉ x.returned ∧ x.loop.lease? i = some a := by
  rw [Desk.lease?] at hi
  split at hi
  next => cases hi
  next hr => exact ⟨hr, hi⟩

theorem State.Reaches.distinct (h : l.Reaches M way False x) (hl : l.Lived) (hi : x.lease? i = some a)
    (hj : x.lease? j = some b) (he : a.handle = b.handle) : i = j := by
  cases way with
  | single =>
    obtain ⟨c, hc⟩ := h.setUp.shared
    exact (h.guarded hc).shares.one i j a b hi hj
  | pool p d =>
    obtain ⟨s, hs, henr⟩ := h.enrolled
    obtain ⟨past, ha⟩ := h.accounts hl
    have hab : a = b := List.inj_on_of_nodup_map (ha.leases_nodup hs.pool)
      (henr.leased i a (Desk.lease?_loop hi).2) (henr.leased j b (Desk.lease?_loop hj).2) he
    exact hs.alone hi hj (congrArg Lease.id hab)

theorem State.Reaches.unprepared (h : l.Reaches M (.pool p d) False x) (hl : l.Lived) (hi : x.lease? i = some a)
    (hq : x.loop.point? j = some q) : q.holds a.handle = 0 := by
  obtain ⟨s, hs, henr⟩ := h.enrolled
  obtain ⟨past, ha⟩ := h.accounts hl
  by_contra hne
  have hin : a ∈ s.leases := henr.leased i a (Desk.lease?_loop hi).2
  exact ha.not_enrolled hs.pool hq (Nat.pos_of_ne_zero hne) (List.mem_map_of_mem hin)

theorem Desk.lease?_point (hm : x.Managed careless M way) (hi : i ∉ x.returned) (hq : x.loop.point? i = some q) :
    x.lease? i = q.lease? := by
  rw [Desk.lease?, if_neg hi, hm.tended.lease?_eq, hq]
  rfl

theorem State.Reaches.exclusive {z : Sql.Statement} {k : Stack .cursor} (h : l.Reaches M way False x)
    (hl : l.Lived) (ha : x.lease? t = some a) (hq : x.loop.point? t = some q) (hown : ¬ q.Owns M a.handle)
    (hr : x.loop.running = some ⟨i, .cursor, .call (.send a.handle z), k⟩) : i = t := by
  have hm := h.managed
  have hk : k.Bears M way (.send a.handle z) := (hm.tended.running _ hr).1
  have hat := State.point?_at hr (hm.tended.atWork _ hr)
  have hret : i ∉ x.returned := by
    intro hin
    obtain ⟨_, _, he⟩ := hm.returned_ended hin
    cases hat.symm.trans he
  have prepares : ∀ {p : Nat} {d : Database}, way = .pool p d → 1 ≤ k.holds a.handle → False := by
    rintro p d rfl hpos
    have hzero := h.unprepared hl ha hat
    simp only [Running.point, Point.holds] at hzero
    omega
  have hlease := Desk.lease?_point hm hret hat
  have mine : ∀ {c : Lease}, k.lease? = some c → c.handle = a.handle → i = t := by
    intro c hc he
    refine h.distinct hl (hlease.trans ?_) ha he
    exact hc
  generalize hg : a.handle = g at hk prepares hr
  cases hk with
  | done hs => cases hs
  | push hf hk =>
    cases hf with
    | foreignKeysSet | journalSet => exact (prepares rfl (by simp [Stack.holds, Frame.holds])).elim
    | ran =>
      cases hk with
      | done =>
        obtain ⟨o, q', ho, hq', howns⟩ := h.entitled.begins i _ a.handle hat (hg ▸ .sends _ _ _ _ _)
        have hleased : ∃ c, q'.lease? = some c ∧ c.handle = a.handle := by
          cases howns with
          | keeps hk => cases hk with | keeps he => exact ⟨_, rfl, he⟩
          | inside he => exact ⟨_, rfl, he⟩
        obtain ⟨c, hc, he⟩ := hleased
        have hot := h.distinct hl ((Desk.lease?_point hm ho hq').trans hc) ha he
        subst hot
        cases hq.symm.trans hq'
        exact absurd howns hown
      | push hf hk =>
        cases hf with
        | executed | batched =>
          exact mine rfl hg.symm

end SqliteAccess.Loop
