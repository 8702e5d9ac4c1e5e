import SqliteAccess.Proofs.Access.Guarded

/-!
Each step of the tasks of a manager with one connection moves its guard in one of the ways there are.
-/

namespace SqliteAccess.Loop

open Access (Lock Place)
open SqliteAccess.Pool (Lease)

variable {careless : Prop} {M t O : Nat} {c : Lease} {x : Desk} {l m : State} {u : Shape} {w : Work u}
  {k : Stack u} {n : Next u} {d : Call u} {g : Guard} {p : Place}

theorem Guard.Lined.next_waits (h : g.Lined) {i : Nat} (hi : g.lock.letIn.2 = some i) :
    g.place i = some .waiting := by
  have hhead : g.lock.line.head? = some (i, .waiting) := by
    by_contra hne
    rw [Lock.letIn_of_ne] at hi
    · cases hi
    · intro j hj
      obtain ⟨r, _, hlet⟩ := Lock.letIn_of_head hj
      rw [hlet] at hi
      cases hi
      exact hne hj
  rcases h.placed i _ (List.mem_of_mem_head? hhead) with hp | ⟨hp, _⟩
  · exact hp
  · cases hp

theorem Guard.Step.congr {g' g'' : Guard} (h : g.Step careless c g') (he : g' = g'') :
    g.Step careless c g'' := he ▸ h

theorem Guard.Lined.letIn_place (h : g.Lined) (hp : g.place t = none) :
    g.letIn.place =
      Function.update (fun i => if g.lock.letIn.2 = some i then some .granted else g.place i) t none := by
  have ht : g.letIn.place t = none := by
    simp only [Guard.letIn]
    split
    next hi => cases hp.symm.trans (h.next_waits hi)
    next => exact hp
  exact (Function.update_eq_self_iff.mpr ht.symm).symm

theorem Guard.places_alone (g : Guard) (t : Nat) (q : Option Place) :
    Function.update (fun i => if none = some i then some .granted else g.place i) t q =
      Function.update g.place t q := by
  simp only [reduceCtorEq, if_false]

theorem Work.PartOf.unpooled (hw : w.PartOf M .single d) (hk : k.Bears M .single d) : ¬ w.Pooled := by
  intro hp
  cases hw with
  | call =>
    cases hk with
    | done hs => cases hs <;> cases hp
    | push hf _ => cases hf <;> cases hp
  | back o hf =>
    cases hf with
    | start => cases hp
    | called hf => cases hf <;> cases hp
    | paused hf => cases hf <;> cases hp

namespace Desk.Guarded

variable (h : x.Guarded careless M c)

include h in
theorem post?_of_place (hr : x.loop.running = some (w.on t k)) {i : Nat}
    (hi : (x.guard M c).place i = some .waiting) : x.loop.post? i = some .waiting := by
  rw [(h.guard_on hr).1] at hi
  by_cases hit : i = t
  · subst hit
    rw [Function.update_self] at hi
    cases w with
    | call => cases hi
    | back f o => cases f <;> cases o <;> simp [Work.place?] at hi
  · rwa [Function.update_of_ne hit] at hi

include h in
theorem guard_rests (hr : x.loop.running = some (w.on t k)) (hk : k.Bears M .single d)
    (hm : Roused M c x.loop m (x.loop.lockOf M) (x.loop.singleOf M) (x.loop.inUse c.id) none)
    (hw : w.place? = none) (hn : n.place? = none) (hl : n.lease?.or k.lease? = w.lease?.or k.lease?)
    (hb : n.bars k = (w.on t k).bears) (hq : x.loop.Quiet M) :
    Desk.guard M c ⟨m.carryOn t n k, x.returned, x.past ++ [x.loop]⟩ = x.guard M c := by
  obtain ⟨hplace, hlease, hbear⟩ := h.guard_on hr
  rw [h.guard_carryOn hr hk hm n]
  have hp : (x.guard M c).place t = none := by rw [hplace, Function.update_self, hw]
  refine Guard.ext rfl rfl ?_ ?_ ?_ rfl ?_ ?_ ?_ ?_ ?_
  · simp only [reduceCtorEq, if_false, hn, ← hp]
    exact Function.update_eq_self t _
  · rw [hl, ← hlease]
    exact Function.update_eq_self t _
  · rw [hb, hbear, Function.update_idem]
  · rw [hq.asks, List.append_nil]
  · rw [hq.obtains, List.append_nil]
  · rw [hq.quits, List.append_nil]
  · rw [hq.uses, List.append_nil]
  · rw [hq.misses, List.append_nil]

include h in
theorem passes (hr : x.loop.running = some (w.on t k)) (hk : k.Bears M .single d)
    (hd : Deed M x.loop.engine.opened .single w O n) (hw : w.PartOf M .single d) (hs : Still M x.loop m) :
    Moves careless M c x ⟨m.carryOn t n k, x.returned, x.past ++ [x.loop]⟩ := by
  have hm := (Roused.refl h.manager h.connection).still hs
  refine h.carryOn hr hk hm (hd.continues hw) ?_
  rw [h.guard_rests hr hk hm (Work.place_of hd.unlocked) hd.unplaced (by rw [hd.lease]) (hd.bars hw hk)
    (Work.quiet hd.unlocked hr)]
  exact .rests

include h in
theorem lock_moves {k : Stack .unit} (hr : x.loop.running = some ((Work.call (.lock M)).on t k))
    (hk : k.Bears M .single (.lock M)) :
    Moves careless M c x
      ⟨(x.loop.lock M).1.carryOn t (x.loop.lock M).2 k, x.returned, x.past ++ [x.loop]⟩ := by
  obtain ⟨hplace, hlease, hbear⟩ := h.guard_on hr
  obtain ⟨a, ha, _⟩ := h.manager
  have hroused := Roused.refl h.manager h.connection
  have hp : (x.guard M c).place t = none := by rw [hplace, Function.update_self]; rfl
  have hb : (x.guard M c).bears t = false := by
    rw [hbear, Function.update_self]
    cases hk with
    | done hs => cases hs
    | push hf _ => cases hf <;> rfl
  have hcur : x.loop.currentTask = t := by simp [State.currentTask, State.current?, hr, Work.on]
  have hlock : (x.guard M c).lock = a.lock := by simp [Desk.guard, State.lockOf, ha]
  have hof : x.loop.lockOf M = a.lock := hlock
  cases hf : a.lock.isFree with
  | true =>
    have he : x.loop.lock M =
        (x.loop.modifyManager M fun k => { k with lock := k.lock.take }, .give (.ok ())) := by
      simp [State.lock, ha, hf]
    have hm := hroused.modifyLock Lock.take
    rw [he]
    refine h.carryOn hr hk hm (.give _ _) ?_
    rw [h.guard_carryOn hr hk hm]
    refine (Guard.Step.takes hp (hlock ▸ hf)).congr (Guard.ext rfl rfl ?_ ?_ ?_ rfl ?_ ?_ ?_ ?_ ?_)
    · exact ((Guard.places_alone _ _ _).trans (Function.update_eq_self_iff.mpr hp.symm)).symm
    · exact (Function.update_eq_self_iff.mpr hlease.symm).symm
    · simp [Next.bars, hk.locks.1]
    · simp [State.asks, State.whoever, hr, Work.on, Running.asks]
    · simp [State.obtains, State.whoever, hr, Work.on, Running.obtains, hof, hf]
    · simp [State.quits, State.whoever, hr, Work.on, Running.quits]
    · simp [State.uses, State.whoever, hr, Work.on, Running.uses]
    · simp [State.misses, State.whoever, hr, Work.on, Running.misses]
  | false =>
    have he : x.loop.lock M =
        (x.loop.modifyManager M fun k => { k with lock := k.lock.enqueue t },
          .pause (.lock M) (.letIn M)) := by
      simp [State.lock, ha, hf, hcur]
    have hm := hroused.modifyLock fun k => k.enqueue t
    rw [he]
    refine h.carryOn hr hk hm (.pause .letIn) ?_
    rw [h.guard_carryOn hr hk hm]
    refine (Guard.Step.waits hp (hlock ▸ hf)).congr (Guard.ext rfl rfl ?_ ?_ ?_ rfl ?_ ?_ ?_ ?_ ?_)
    · exact (Guard.places_alone _ _ _).symm
    · exact (Function.update_eq_self_iff.mpr hlease.symm).symm
    · exact (Function.update_eq_self_iff.mpr hb.symm).symm
    · simp [State.asks, State.whoever, hr, Work.on, Running.asks]
    · simp [State.obtains, State.whoever, hr, Work.on, Running.obtains, hof, hf]
    · simp [State.quits, State.whoever, hr, Work.on, Running.quits]
    · simp [State.uses, State.whoever, hr, Work.on, Running.uses]
    · simp [State.misses, State.whoever, hr, Work.on, Running.misses]

include h in
theorem letIn_moves {k : Stack .unit} {o : Outcome .unit}
    (hr : x.loop.running = some ((Work.back (.letIn M) o).on t k)) (hk : k.Bears M .single (.lock M)) :
    Moves careless M c x
      ⟨(x.loop.letIn M o).1.carryOn t (x.loop.letIn M o).2 k, x.returned, x.past ++ [x.loop]⟩ := by
  obtain ⟨hplace, hlease, hbear⟩ := h.guard_on hr
  have hroused := (Roused.refl h.manager h.connection).modifyLock fun k => k.leave t
  have hb : (x.guard M c).bears t = false := by
    rw [hbear, Function.update_self]
    cases o <;> rfl
  have hcur : x.loop.currentTask = t := by simp [State.currentTask, State.current?, hr, Work.on]
  cases o with
  | ok y =>
    have hp : (x.guard M c).place t = some .granted := by rw [hplace, Function.update_self]; rfl
    have hm := hroused.modifyLock Lock.take
    have he : x.loop.letIn M (.ok y) =
        ((x.loop.modifyManager M fun k => { k with lock := k.lock.leave t }).modifyManager M
          fun k => { k with lock := k.lock.take }, .give (.ok ())) := by
      simp only [State.letIn, hcur]
    rw [he]
    refine h.carryOn hr hk hm (.give _ _) ?_
    rw [h.guard_carryOn hr hk hm]
    refine (Guard.Step.enters hp).congr (Guard.ext rfl rfl ?_ ?_ ?_ rfl ?_ ?_ ?_ ?_ ?_)
    · exact (Guard.places_alone _ _ _).symm
    · exact (Function.update_eq_self_iff.mpr hlease.symm).symm
    · simp [Next.bars, hk.locks.1]
    · simp [State.asks, State.whoever, hr, Work.on, Running.asks]
    · simp [State.obtains, State.whoever, hr, Work.on, Running.obtains]
    · simp [State.quits, State.whoever, hr, Work.on, Running.quits]
    · simp [State.uses, State.whoever, hr, Work.on, Running.uses]
    · simp [State.misses, State.whoever, hr, Work.on, Running.misses]
  | error e =>
    have hp : (x.guard M c).place t = some .cancelled := by rw [hplace, Function.update_self]; rfl
    have he : x.loop.letIn M (.error e) =
        ((x.loop.modifyManager M fun k => { k with lock := k.lock.leave t }).setLock M
          fun k => if k.locked then (k, none) else k.letIn, .give (.error e)) := by
      simp only [State.letIn, hcur]
    have hleft := h.sound.line.left hp
    have hwait : ∀ i, ((fun k : Lock => if k.locked then (k, none) else k.letIn)
        ((x.loop.lockOf M).leave t)).2 = some i → x.loop.post? i = some .waiting := by
      intro i hi
      dsimp only at hi
      split at hi
      next => cases hi
      next =>
        have hw := hleft.next_waits (i := i) hi
        have hit : i ≠ t := by
          rintro rfl
          simp [Guard.left] at hw
        refine h.post?_of_place hr ?_
        simpa [Guard.left, hit] using hw
    have hm := hroused.setLock (fun k => if k.locked then (k, none) else k.letIn) hwait
    rw [he]
    refine h.carryOn hr hk hm (.give _ _) ?_
    rw [h.guard_carryOn hr hk hm]
    refine (Guard.Step.quits hp).congr ?_
    have hquits : x.loop.quits M = [t] := by
      simp [State.quits, State.whoever, hr, Work.on, Running.quits, h.heeds t e k hr]
    have hasks : x.loop.asks M = [] := by simp [State.asks, State.whoever, hr, Work.on, Running.asks]
    have hobtains : x.loop.obtains M = [] := by
      simp [State.obtains, State.whoever, hr, Work.on, Running.obtains]
    have huses : x.loop.uses M = [] := by simp [State.uses, State.whoever, hr, Work.on, Running.uses]
    have hmisses : x.loop.misses M = [] := by
      simp [State.misses, State.whoever, hr, Work.on, Running.misses]
    have hlocked : ((x.loop.lockOf M).leave t).locked = (x.loop.lockOf M).locked := rfl
    have hlo : (x.guard M c).lock = x.loop.lockOf M := rfl
    have hl : Function.update (x.guard M c).lease t ((Next.give (.error e : Outcome .unit)).lease?.or k.lease?) =
        (x.guard M c).lease := Function.update_eq_self_iff.mpr hlease.symm
    have hbars : Function.update (x.guard M c).bears t ((Next.give (.error e : Outcome .unit)).bars k) =
        (x.guard M c).bears :=
      Function.update_eq_self_iff.mpr ((hk.locks.2 e).trans hb.symm)
    rw [hlo]
    cases hk' : (x.loop.lockOf M).locked with
    | true =>
      simp only [hasks, hobtains, hquits, huses, hmisses, hlocked, hk', hl, hbars, if_true, List.append_nil]
      exact Guard.ext rfl rfl (Guard.places_alone _ _ _).symm rfl rfl rfl rfl rfl rfl rfl rfl
    | false =>
      simp only [hasks, hobtains, hquits, huses, hmisses, hlocked, hk', hl, hbars, List.append_nil,
        Bool.false_eq_true, if_false]
      have hout : Function.update (fun i => if ((x.loop.lockOf M).leave t).letIn.2 = some i then
          some .granted else ((x.guard M c).left t).place i) t none =
          Function.update (fun i => if ((x.loop.lockOf M).leave t).letIn.2 = some i then
            some .granted else (x.guard M c).place i) t none := by
        funext i
        by_cases hi : i = t
        · subst hi
          rw [Function.update_self, Function.update_self]
        · simp only [Guard.left, Function.update_of_ne hi]
      exact Guard.ext rfl rfl ((hleft.letIn_place (Function.update_self ..)).trans hout) rfl rfl rfl rfl rfl
        rfl rfl rfl

include h in
theorem release_waits (hr : x.loop.running = some (w.on t k)) (hk : (x.loop.lockOf M).locked = true) :
    ∀ i, (x.loop.lockOf M).release.2 = some i → x.loop.post? i = some .waiting := fun _ hi =>
  h.post?_of_place hr ((h.sound.line.opened hk).next_waits hi)

include h in
theorem lockedToUse_moves {k : Stack .borrowed} {o : Outcome .unit}
    (hr : x.loop.running = some ((Work.back (.lockedToUse M) o).on t k))
    (hk : k.Bears M .single (.borrow M)) :
    Moves careless M c x ⟨(x.loop.lockedToUse M o).1.carryOn t (x.loop.lockedToUse M o).2 k, x.returned,
      x.past ++ [x.loop]⟩ := by
  obtain ⟨hplace, hlease, hbear⟩ := h.guard_on hr
  have hroused := Roused.refl h.manager h.connection
  have hnone := hk.lease_none
  have hidle := hk.idle rfl
  have hasks : x.loop.asks M = [] := by cases o <;> simp [State.asks, State.whoever, hr, Work.on, Running.asks]
  have hobtains : x.loop.obtains M = [] := by
    cases o <;> simp [State.obtains, State.whoever, hr, Work.on, Running.obtains]
  have hquits : x.loop.quits M = [] := by
    cases o <;> simp [State.quits, State.whoever, hr, Work.on, Running.quits]
  cases o with
  | error e =>
    refine h.carryOn hr hk hroused (.give _ _) ?_
    have hrests := h.guard_rests (n := .give (.error e)) hr hk hroused rfl rfl rfl (hidle _)
      ⟨hasks, hobtains, hquits, by simp [State.uses, State.whoever, hr, Work.on, Running.uses],
        by simp [State.misses, State.whoever, hr, Work.on, Running.misses]⟩
    exact Guard.Step.rests.congr hrests.symm
  | ok y =>
    have hp : (x.guard M c).place t = none := by rw [hplace, Function.update_self]; rfl
    have hb : (x.guard M c).bears t = true := by rw [hbear, Function.update_self]; rfl
    have huses : x.loop.uses M = if (x.loop.singleOf M).isSome then [t] else [] := by
      simp [State.uses, State.whoever, hr, Work.on, Running.uses]
    have hmisses : x.loop.misses M = if (x.loop.singleOf M).isSome then [] else [t] := by
      cases hsome : (x.loop.singleOf M).isSome <;>
        simp [State.misses, State.whoever, hr, Work.on, Running.misses, hsome]
    rcases h.sound.single with hs | hs
    · have hs' : (x.loop.manager? M).bind (·.single) = none := hs
      have he : x.loop.lockedToUse M (.ok y) = (x.loop, .give (.error .missingPart)) := by
        simp only [State.lockedToUse, hs']
      rw [he]
      refine h.carryOn hr hk hroused (.give _ _) ?_
      rw [h.guard_carryOn hr hk hroused]
      refine (Guard.Step.misses hb hs).congr (Guard.ext rfl rfl ?_ ?_ ?_ rfl ?_ ?_ ?_ ?_ ?_)
      · exact ((Guard.places_alone _ _ _).trans (Function.update_eq_self_iff.mpr hp.symm)).symm
      · exact (Function.update_eq_self_iff.mpr hlease.symm).symm
      · simp [Next.bars, hidle]
      · simp [hasks]
      · simp [hobtains]
      · simp [hquits]
      · simp [huses, State.singleOf, hs']
      · simp [hmisses, State.singleOf, hs', Desk.guard]
    · have hs' : (x.loop.manager? M).bind (·.single) = some c.id := hs
      have hm := hroused.setUse true
      obtain ⟨z, hz, hzc⟩ := Option.map_eq_some_iff.mp hm.connection
      have he : x.loop.lockedToUse M (.ok y) =
          (x.loop.setStandaloneUse c.id true, .give (.ok (some c))) := by
        simp only [State.lockedToUse, hs', hz, Option.map_some, hzc]
      rw [he]
      refine h.carryOn hr hk hm (.give _ _) ?_
      rw [h.guard_carryOn hr hk hm]
      refine (Guard.Step.uses hb hs).congr (Guard.ext rfl rfl ?_ ?_ ?_ rfl ?_ ?_ ?_ ?_ ?_)
      · exact ((Guard.places_alone _ _ _).trans (Function.update_eq_self_iff.mpr hp.symm)).symm
      · simp [Next.lease?, borrowed]
      · simp [Next.bars, hidle]
      · simp [hasks]
      · simp [hobtains]
      · simp [hquits]
      · simp [huses, State.singleOf, hs']
      · simp [hmisses, State.singleOf, hs', Desk.guard]

include h in
theorem opens {w : Work .unit} {k : Stack .unit} {o : Outcome .unit} {single : Option Nat}
    (hr : x.loop.running = some (w.on t k)) (hk : k.Bears M .single (.shutDown M))
    (hm : Roused M c x.loop m (x.loop.lockOf M).release.1 single (x.loop.inUse c.id)
      (x.loop.lockOf M).release.2)
    (hb : (x.guard M c).bears t = true) (hp : (x.guard M c).place t = none)
    (hs : single = x.loop.singleOf M ∨ single = none)
    (hq : x.loop.Quiet M) :
    Moves careless M c x ⟨m.carryOn t (.give o) k, x.returned, x.past ++ [x.loop]⟩ := by
  obtain ⟨hlocked, _, hl, _⟩ := h.sound.held.bears hb
  have hnone : k.lease? = none := by
    cases hk with
    | done => rfl
    | push hf hk => cases hf with | withinLeft => cases hk with
      | done => rfl
      | push hf _ => cases hf
  refine h.carryOn hr hk hm (.give _ _) ?_
  rw [h.guard_carryOn hr hk hm]
  refine (Guard.Step.opens hb hs).congr (Guard.ext rfl rfl ?_ ?_ ?_ rfl ?_ ?_ ?_ ?_ ?_)
  · exact (h.sound.line.opened hlocked).letIn_place hp
  · rw [hnone]
    exact (Function.update_eq_self_iff.mpr (hl t).symm).symm
  · rw [Next.bars, hk.idle rfl]
    rfl
  · simp only [hq.asks, List.append_nil]; rfl
  · simp only [hq.obtains, List.append_nil]; rfl
  · simp only [hq.quits, List.append_nil]; rfl
  · simp only [hq.uses, List.append_nil]; rfl
  · simp only [hq.misses, List.append_nil]; rfl

include h in
theorem lockedToClose_moves {k : Stack .unit} {o : Outcome .unit}
    (hr : x.loop.running = some ((Work.back (.lockedToClose M) o).on t k))
    (hk : k.Bears M .single (.shutDown M)) :
    Moves careless M c x ⟨(x.loop.lockedToClose M o).1.carryOn t (x.loop.lockedToClose M o).2 k,
      x.returned, x.past ++ [x.loop]⟩ := by
  obtain ⟨hplace, _, hbear⟩ := h.guard_on hr
  have hroused := Roused.refl h.manager h.connection
  have hq : x.loop.Quiet M := by
    constructor <;> cases o <;>
      simp [State.asks, State.obtains, State.quits, State.uses, State.misses, State.whoever, hr, Work.on,
        Running.asks, Running.obtains, Running.quits, Running.uses, Running.misses]
  cases o with
  | error e =>
    refine h.carryOn hr hk hroused (.give _ _) (Guard.Step.rests.congr ?_)
    exact (h.guard_rests (n := .give (.error e)) hr hk hroused rfl rfl rfl (hk.idle rfl _) hq).symm
  | ok y =>
    have hp : (x.guard M c).place t = none := by rw [hplace, Function.update_self]; rfl
    have hb : (x.guard M c).bears t = true := by rw [hbear, Function.update_self]; rfl
    obtain ⟨hlocked, _⟩ := h.sound.held.bears hb
    unfold State.lockedToClose
    dsimp only
    split
    next id _ _ _ =>
      refine h.carryOn hr hk hroused (.call (.singleClosed _)) (Guard.Step.rests.congr ?_)
      exact (h.guard_rests hr hk hroused rfl rfl rfl rfl hq).symm
    next =>
      exact h.opens hr hk (hroused.setLock Lock.release (h.release_waits hr hlocked)) hb hp (.inl rfl) hq

include h in
theorem singleClosed_moves {k : Stack .unit} {o : Outcome .unit}
    (hr : x.loop.running = some ((Work.back (.singleClosed M) o).on t k))
    (hk : k.Bears M .single (.shutDown M)) :
    Moves careless M c x ⟨(x.loop.singleClosed M o).1.carryOn t (x.loop.singleClosed M o).2 k,
      x.returned, x.past ++ [x.loop]⟩ := by
  obtain ⟨hplace, _, hbear⟩ := h.guard_on hr
  have hq : x.loop.Quiet M := by
    constructor <;> cases o <;>
      simp [State.asks, State.obtains, State.quits, State.uses, State.misses, State.whoever, hr, Work.on,
        Running.asks, Running.obtains, Running.quits, Running.uses, Running.misses]
  have hp : (x.guard M c).place t = none := by
    rw [hplace, Function.update_self]
    cases o <;> rfl
  have hb : (x.guard M c).bears t = true := by
    rw [hbear, Function.update_self]
    cases o <;> rfl
  obtain ⟨hlocked, _⟩ := h.sound.held.bears hb
  have hm := (Roused.refl h.manager h.connection).setLock Lock.release (h.release_waits hr hlocked)
  cases o with
  | error e => exact h.opens hr hk hm hb hp (.inl rfl) hq
  | ok y => exact h.opens hr hk hm.disable hb hp (.inr rfl) hq

include h in
theorem giveBack_roused (hl : (x.guard M c).lease t = some c)
    (hw : ∀ i, (x.loop.lockOf M).release.2 = some i → x.loop.post? i = some .waiting) :
    Roused M c x.loop (x.loop.giveBack M (some c)).1 (x.loop.lockOf M).release.1 (x.loop.singleOf M)
        false (x.loop.lockOf M).release.2 ∧ (x.loop.giveBack M (some c)).2 = .ok () := by
  obtain ⟨hlocked, _, _, _, huse, hs, _⟩ := h.sound.held.has hl
  obtain ⟨a, ha, hpool⟩ := h.manager
  have hlock : a.lock.locked = true := by
    have hl := hlocked
    simp only [Desk.guard, State.lockOf, ha] at hl
    exact hl
  have hsingle : a.single = some c.id := by
    have hs' := hs
    simp only [Desk.guard, State.singleOf, ha] at hs'
    exact hs'
  have huse' : ((x.loop.standalone? c.id).map (·.inUse)).getD false = true := huse
  have he : x.loop.giveBack M (some c) =
      ((x.loop.setStandaloneUse c.id false).unlock M, .ok ()) := by
    simp [State.giveBack, ha, hpool, State.releaseSingle, huse', hsingle, hlock]
  rw [he]
  exact ⟨((Roused.refl h.manager h.connection).setUse false).setLock Lock.release hw, rfl⟩

include h in
theorem returns_moves {lease : Option Lease} {y : State × Next u} (hr : x.loop.running = some (w.on t k))
    (hk : k.Bears M .single d) (hg : GivesBack M x.loop w lease y) :
    Moves careless M c x ⟨y.1.carryOn t y.2 k, x.returned, x.past ++ [x.loop]⟩ := by
  obtain ⟨m, n⟩ := y
  obtain ⟨hret, ⟨o, rfl⟩, hs, _⟩ := hg
  obtain ⟨hplace, hlease, hbear⟩ := h.guard_on hr
  have hx : ¬ w.Exchanges := by cases hret <;> exact id
  have hu : u ≠ .borrowed := by
    rintro rfl
    rcases hret.ends with hu | hu | hu <;> cases hu
  have hn : (Next.give o).lease? = none := borrowed_of_ne hu o
  obtain rfl := hk.alone hret.ends
  have hbars : (Next.give o).bars (.done u) = false := by
    cases o <;> rfl
  have hwb : (w.on t (.done u)).bears = false := by
    refine Work.bears_of hx fun z => ?_
    cases z with
    | call => rfl
    | give o => cases o <;> rfl
  have hq : x.loop.Quiet M := Work.quiet hx hr
  cases lease with
  | none =>
    have hm := (Roused.refl h.manager h.connection).still hs
    refine h.carryOn hr hk hm (.give _ _) (Guard.Step.rests.congr ?_)
    exact (h.guard_rests hr hk hm (Work.place_of hx) rfl (by rw [hn, hret.lease]) (by rw [hbars, hwb]) hq).symm
  | some c' =>
    have hl : (x.guard M c).lease t = some c' := by
      rw [hlease, hret.lease]
      rfl
    obtain ⟨hlocked, hb, rfl, _⟩ := h.sound.held.has hl
    have hp : (x.guard M c').place t = none := by
      rw [hplace, Function.update_self, Work.place_of hx]
    have hm := (h.giveBack_roused hl (h.release_waits hr hlocked)).1.still hs
    refine h.carryOn hr hk hm (.give _ _) ?_
    rw [h.guard_carryOn hr hk hm]
    refine (Guard.Step.returns hl).congr (Guard.ext rfl rfl ?_ ?_ ?_ rfl ?_ ?_ ?_ ?_ ?_)
    · exact (h.sound.line.opened hlocked).letIn_place hp
    · simp only [hn]
      rfl
    · exact (Function.update_eq_self_iff.mpr (hbars.trans (hb t).symm)).symm
    · simp only [hq.asks, List.append_nil]; rfl
    · simp only [hq.obtains, List.append_nil]; rfl
    · simp only [hq.quits, List.append_nil]; rfl
    · simp only [hq.uses, List.append_nil]; rfl
    · simp only [hq.misses, List.append_nil]; rfl

include h in
theorem work_moves (hr : x.loop.running = some (w.on t k)) (hw : w.PartOf M .single d)
    (hk : k.Bears M .single d) :
    Moves careless M c x ⟨(w.perform x.loop).1.carryOn t (w.perform x.loop).2 k, x.returned,
      x.past ++ [x.loop]⟩ := by
  by_cases hx : w.Exchanges
  · cases hw with
    | call =>
      cases hk with
      | done hs => cases hs <;> cases hx
      | push hf hk =>
        cases hf with
        | lockedToUse => exact h.lock_moves hr (.push .lockedToUse hk)
        | lockedToClose => exact h.lock_moves hr (.push .lockedToClose hk)
        | _ => cases hx
    | back o hf =>
      cases hf with
      | start => cases hx
      | paused hf =>
        cases hf with
        | letIn => exact h.letIn_moves hr hk
        | _ => cases hx
      | called hf =>
        cases hf with
        | lockedToUse => exact h.lockedToUse_moves hr hk
        | lockedToClose => exact h.lockedToClose_moves hr hk
        | singleClosed => exact h.singleClosed_moves hr hk
        | _ => cases hx
  · rcases Work.perform_does hw hk h.manager (hw.unpooled hk) hx with ⟨hd, hs⟩ | ⟨lease, hg⟩
    · exact h.passes hr hk hd hw hs
    · exact h.returns_moves hr hk hg

end Desk.Guarded

end SqliteAccess.Loop
