import SqliteAccess.Proofs.Life.Prepared

/-!
The engine is asked to close a handle once at most, as long as clients leave that to those who opened it. Only a single
connection whose close has failed, or has been cancelled, may be closed again.
-/

theorem SqliteAccess.Pool.State.find?_live {s : Pool.State} {id : Nat} {c : Pool.Connection} (h : s.find? id = some c) :
    c ∈ s.live := by
  have hc := List.find?_some h
  exact List.mem_filter.mpr ⟨find?_mem h, (Bool.and_eq_true_iff.mp hc).1⟩

namespace SqliteAccess.Loop

open SqliteAccess.Pool (Handle Lease)

def Frame.HangsUp : {s t : Shape} → Frame s t → Prop
  | _, _, .start (.hangUp _) => True
  | _, _, _ => False

def Stack.HangsUp : {s : Shape} → Stack s → Prop
  | _, .done _ => False
  | _, .push f k => f.HangsUp ∨ HangsUp k

def Point.HangsUp : Point → Prop
  | .waits k | .works _ k => k.HangsUp
  | .ended _ => False

def Work.HangsUp : {u : Shape} → Work u → Prop
  | _, .back f _ => f.HangsUp
  | _, _ => False

def Next.HangsUp {u : Shape} : Next u → Prop
  | .call _ f | .pause _ f | .again f => f.HangsUp
  | _ => False

def Next.Asks (h : Handle) : {u : Shape} → Next u → Prop
  | _, .call (.hangUp h') _ | _, .jump (.hangUp h') => h' = h
  | _, _ => False

structure Careful {u : Shape} (l : State) (w : Work u) (x : State × Next u) : Prop where
  closes : (∀ h, ¬ w.Closes h) → x.1.engine.closes = l.engine.closes
  later : ¬ x.2.HangsUp
  next : ∀ h, x.2.Asks h → (∃ s ∈ l.pools, ∃ c ∈ s.live, c.handle = h) ∨ x.2.Severs x.1

variable {l l' m : State} {h g : Handle} {u : Shape} {w : Work u} {n : Next u} {k : Stack u} {t i p : Nat}
  {past : List State} {q : Point}

theorem Work.Closes.asks (hw : w.Closes g) : ¬ (w.perform l).2.Asks h := by
  cases w with
  | call c =>
    cases c with
    | hangUp h' => rcases l.hangUp_snd h' with ⟨_, he⟩ | ⟨_, he⟩ <;> simp only [Work.perform, begin, he] <;> exact id
    | _ => cases hw
  | back => cases hw

theorem Next.Plain.careful (hn : n.Plain) (he : m.engine.closes = l.engine.closes) : Careful l w (m, n) := by
  have hf : ∀ {s t : Shape} {f : Frame s t}, f.Plain → ¬ f.HangsUp := by
    intro s t f hf hs
    cases f with
    | start => exact hf
    | _ => exact hs
  have hc : ∀ {s : Shape} {c : Call s} {h : Handle}, c.Plain → ¬ (Next.jump c).Asks h := by
    intro s c h hc ha
    cases c with
    | hangUp => exact hc
    | _ => exact ha
  refine ⟨fun _ => he, ?_, fun h ha => ?_⟩
  · cases n with
    | call => exact hf hn.2
    | pause | again => exact hf hn
    | give | jump => exact fun hs => hs
  · cases n with
    | call c f => exact (hc hn.1 (by cases c <;> exact ha)).elim
    | jump c => exact (hc hn ha).elim
    | give | pause | again => exact ha.elim

namespace State

theorem destroy_careful (l : State) (p id : Nat) (hl : l.Sourced) :
    Careful l (.call (.destroy p id)) (l.destroy p id) := by
  have same : Careful l (.call (.destroy p id)) (l, .give (.ok ())) := ⟨fun _ => rfl, fun hs => hs, nofun⟩
  unfold State.destroy
  split
  · exact same
  next s hs =>
    split
    · exact same
    next s' h' hr =>
      obtain ⟨c, hc, rfl, rfl⟩ := Pool.State.remove?_find hr
      obtain ⟨d, hd⟩ := (hl s (List.mem_of_getElem? hs)).1
      have hclose : State.closeHandle (s.without id) c.handle = .hangUp c.handle := by
        rw [State.closeHandle, show (s.without id).source = s.source from rfl, hd]
      rw [hclose]
      refine ⟨fun _ => rfl, fun hs => hs, fun h ha => .inl ⟨s, List.mem_of_getElem? hs, c, ?_, ha⟩⟩
      exact Pool.State.find?_live hc

theorem shutSingle_careful {w : Work .unit} (l : State) (M : Nat) : Careful l w (l.shutSingle M) := by
  unfold State.shutSingle
  split
  · exact ⟨fun _ => rfl, fun hs => hs, nofun⟩
  · split <;> exact ⟨fun _ => rfl, fun hs => hs, nofun⟩

theorem endDial_careful {w : Work .handle} {e : Engine.State} (fault : Option Fault)
    (he : e.closes = l.engine.closes) : Careful l w (({ l with engine := e } : State).endDial fault) := by
  cases fault <;> exact ⟨fun _ => he, fun hs => hs, nofun⟩

end State

theorem Work.careful (w : Work u) (hl : l.Sourced) (hw : ¬ w.HangsUp) : Careful l w (w.perform l) := by
  have unlock : ∀ M, (l.unlock M).engine.closes = l.engine.closes := fun M =>
    ((Tame.refl l).setLock M Access.Lock.release).toUnmoved.closes
  have report : ∀ {v : Shape} {w : Work v} {n : Next v} (r : Log.Record), n.Plain → Careful l w (l.report r, n) :=
    fun r hn => hn.careful (congrArg Engine.State.closes (State.report_engine l r))
  have same : ∀ {v : Shape} {w : Work v} {n : Next v}, n.Plain → Careful l w (l, n) := fun hn => hn.careful rfl
  by_cases hs : w.Singular
  · cases w with
    | call c =>
      cases c with
      | askOpen =>
        simp only [Work.perform, begin, State.askOpen]
        split <;> exact ⟨fun _ => rfl, fun hs => hs, fun _ => False.elim⟩
      | dial d =>
        have he : (l.engine.record (.open d.location.filename d.timeout)).nextOpening.2.closes =
            l.engine.closes := by
          simp
        simp only [Work.perform, begin, State.dial]
        split
        · exact ⟨fun _ => he, fun hs => hs, fun _ => False.elim⟩
        · exact State.endDial_careful _ he
      | hangUp h =>
        refine ⟨fun hno => (hno h rfl).elim, ?_, fun g ha => (Work.Closes.asks (w := .call (.hangUp h)) rfl ha).elim⟩
        rcases l.hangUp_snd h with ⟨_, he⟩ | ⟨_, he⟩ <;> simp only [Work.perform, begin, he] <;> exact id
      | openSlot p =>
        simp only [Work.perform, begin, State.openSlot]
        split
        · exact same rfl
        · split <;> exact ⟨fun _ => rfl, fun hs => hs, fun _ => False.elim⟩
      | destroy p id => exact l.destroy_careful p id hl
      | setUp M location reach =>
        simp only [Work.perform, begin, State.setUp]
        split
        · exact report _ rfl
        · exact same rfl
        · split
          · exact same rfl
          · split
            · exact ⟨fun _ => rfl, fun hs => hs, fun _ => False.elim⟩
            · refine ⟨fun _ => ?_, fun hs => hs, fun _ => False.elim⟩
              rw [State.usePool, State.report_engine]
              rfl
      | shutDown M =>
        simp only [Work.perform, begin, State.shutDown]
        split
        · exact ⟨fun _ => rfl, fun hs => hs, fun _ => False.elim⟩
        · exact l.shutSingle_careful M
      | bootstrap url =>
        simp only [Work.perform, begin, State.bootstrap]
        split <;> exact ⟨fun _ => rfl, fun hs => hs, fun _ => False.elim⟩
      | _ => cases hs
    | back f o =>
      cases f with
      | start c =>
        cases o with
        | error => exact same (arrived_error _)
        | ok =>
          refine ⟨fun _ => rfl, fun hs => hs, fun h ha => ?_⟩
          cases c with
          | hangUp => exact (hw trivial).elim
          | _ => cases ha
      | askedOpen n => cases o <;> exact ⟨fun _ => rfl, fun hs => hs, fun _ => False.elim⟩
      | dialled fault =>
        cases o with
        | error => exact same rfl
        | ok => exact State.endDial_careful (e := l.engine) fault rfl
      | connected d pooled => cases o <;> exact ⟨fun _ => rfl, fun hs => hs, fun _ => False.elim⟩
      | foreignKeysSet d h pooled =>
        cases o with
        | error => exact same rfl
        | ok =>
          cases pooled with
          | true => exact ⟨fun _ => rfl, fun hs => hs, fun _ => False.elim⟩
          | false =>
            exact ⟨fun _ => congrArg Engine.State.closes (State.report_engine l _), fun hs => hs, fun _ => False.elim⟩
      | journalSet d h =>
        cases o with
        | error => exact same rfl
        | ok =>
          exact ⟨fun _ => congrArg Engine.State.closes (State.report_engine l _), fun hs => hs, fun _ => False.elim⟩
      | registering p =>
        cases o with
        | error => exact ⟨fun _ => rfl, fun hs => hs, fun _ => False.elim⟩
        | ok h =>
          simp only [Work.perform, resume, State.registering]
          split
          · exact ⟨fun _ => rfl, fun hs => hs, fun _ => False.elim⟩
          · exact ⟨fun _ => congrArg Engine.State.closes (State.report_engine _ _), fun hs => hs, fun _ => False.elim⟩
      | singleOpened M d =>
        cases o with
        | error => exact same rfl
        | ok h =>
          exact ⟨fun _ => congrArg Engine.State.closes (State.report_engine _ _), fun hs => hs, fun _ => False.elim⟩
      | poolShut M =>
        cases o with
        | error => exact same rfl
        | ok => exact l.shutSingle_careful M
      | lockedToClose M =>
        cases o with
        | error => exact same rfl
        | ok =>
          simp only [Work.perform, resume, State.lockedToClose]
          split
          next hk => exact ⟨fun _ => rfl, fun hs => hs, fun h _ => .inr ⟨_, _, hk, rfl, by simp, rfl⟩⟩
          next => exact ⟨fun _ => unlock M, fun hs => hs, fun _ => False.elim⟩
      | singleClosed M => cases o <;> exact ⟨fun _ => unlock M, fun hs => hs, fun _ => False.elim⟩
      | _ => cases hs
  · exact (w.mild hs l).plain.careful (w.mild hs l).tame.toUnmoved.closes

theorem Next.hangsUp_point (hn : ¬ n.HangsUp) (hk : ¬ k.HangsUp) : ¬ (n.point k).HangsUp := by
  cases n with
  | give | jump => exact hk
  | call | pause | again => exact fun hs => hs.elim hn hk

theorem Begun.not_hangsUp (hb : Begun State.Serves l q) : ¬ q.HangsUp := by
  cases hb with
  | calls => exact fun hs => hs
  | @makes s c hc =>
    refine fun hs => hs.elim (fun hf => ?_) fun hs => hs
    cases c with
    | hangUp => exact hc
    | _ => exact hf
  | forPool hc => cases hc <;> exact fun hs => hs.elim (fun hf => hf) fun hs => hs

def Delayed (past : List State) : Prop := ∃ x ∈ past, x.engine.closings ≠ []

def State.Repeats (l : State) (past : List State) (h : Handle) : Prop := h ∈ l.alone.map (·.handle) ∧ Delayed past

structure State.ClosesOnce (past : List State) (l : State) : Prop where
  later : ∀ i q, l.point? i = some q → ¬ q.HangsUp
  once : ∀ h, l.engine.closes.count h ≤ 1 ∨ l.Repeats past h
  next : ∀ t h k, l.running = some ⟨t, .unit, .call (.hangUp h), k⟩ → h ∉ l.engine.closes ∨ l.Repeats past h
  parting : ∀ M, ∀ c ∈ l.alone, l.singleOf M = some c.id → c.handle ∈ l.engine.closes →
    (∃ t k, l.running = some ⟨t, .unit, .give (.ok ()), .push (.singleClosed M) k⟩) ∨ Delayed past

theorem State.leases_count (l : State) (h : Handle) : (l.pools.flatMap fun s => s.leases.map (·.handle)).count h =
    (l.pools.flatMap fun s => s.live.map (·.handle)).count h + l.departed.count h := by
  rw [State.departed]
  induction l.pools with
  | nil => rfl
  | cons s ss ih =>
    have hs : (s.leases.map (·.handle)).count h =
        (s.live.map (·.handle)).count h + (s.departed.map (·.handle)).count h := by
      have hp := (s.leases_perm.map (·.handle)).count_eq h
      simpa [List.count_append, Function.comp_def, Pool.Connection.lease] using hp
    simp only [List.flatMap_cons, List.count_append, ih, hs]
    omega

theorem Accounts.live_open (ha : Accounts past l) {s : Pool.State} {c : Pool.Connection} (hs : s ∈ l.pools)
    (hc : c ∈ s.live) : c.handle ∉ l.engine.closes := by
  intro hin
  have hone := ha.once c.handle
  have hcount := l.registered_count c.handle
  have hsplit := l.leases_count c.handle
  have hlive : 1 ≤ (l.pools.flatMap fun s => s.live.map (·.handle)).count c.handle :=
    List.count_pos_iff.mpr (List.mem_flatMap.mpr ⟨s, hs, List.mem_map_of_mem hc⟩)
  rcases ha.closes _ hin with (hd | hr) | halone
  · have := List.count_pos_iff.mpr hd
    omega
  · obtain ⟨i, _, hi⟩ := hr.handOf
    have := State.handOf_le ha.atWork c.handle i
    omega
  · have := List.count_pos_iff.mpr halone
    omega

namespace State.ClosesOnce

variable (hl : l.ClosesOnce past)

include hl in
theorem not_hangsUp (ha : l.AtWork) (hr : l.running = some (w.on t k)) : ¬ w.HangsUp := by
  have hp := hl.later _ _ (State.point?_at hr (ha _ hr))
  cases w with
  | call => exact fun hs => hs
  | back => exact fun hs => hp (.inl hs)

include hl in
theorem careful (ha : Accounts past l) (hr : l.running = some (w.on t k)) : Careful l w (w.perform l) :=
  w.careful ha.sourced (hl.not_hangsUp ha.atWork hr)

end State.ClosesOnce

theorem Next.asks_of_point {k' : Stack .unit} (hn : n.point k = .works (.call (.hangUp h)) k') : n.Asks h := by
  cases n with
  | call c f | jump c =>
    simp only [Next.point, Point.works.injEq] at hn
    obtain ⟨rfl, hc, _⟩ := hn
    cases hc
    rfl
  | _ => cases hn

theorem Delayed.snoc (h : Delayed past) (m : State) : Delayed (past ++ [m]) := by
  obtain ⟨x, hx, hc⟩ := h
  exact ⟨x, List.mem_append_left _ hx, hc⟩

theorem Delayed.now (past : List State) (hc : l.engine.closings ≠ []) : Delayed (past ++ [l]) :=
  ⟨l, List.mem_append_right _ (List.mem_singleton_self l), hc⟩

theorem Accounts.repeats (ha : Accounts past l) (hs : l.Happens State.Offers l') (h : l.Repeats past g) :
    l'.Repeats (past ++ [l]) g :=
  ⟨List.map_subset _ (ha.lasts hs).1 h.1, h.2.snoc l⟩

namespace State.ClosesOnce

variable (hl : l.ClosesOnce past)

include hl in
theorem taken (ha : Accounts past l) (hs : l.Happens State.Offers l') {M : Nat} {c : Lease} (hc : c ∈ l'.alone)
    (hM : l'.singleOf M = some c.id) (hcl : c.handle ∈ l'.engine.closes) :
    (∃ t k, l'.running = some ⟨t, .unit, .give (.ok ()), .push (.singleClosed M) k⟩) ∨ Delayed (past ++ [l]) := by
  rcases ha.opens_new hs hc hM with ⟨hin, hold⟩ | hno
  · by_cases hwas : c.handle ∈ l.engine.closes
    · rcases hl.parting M c hin hold hwas with ⟨t, k, hr⟩ | hd
      · have he := hs.works (w := .back (.singleClosed M) (.ok ())) hr
        have hv := (l.singleClosed_severed M).unmoved
          (State.carryOn_unmoved _ t ((Work.back (.singleClosed M) (.ok ())).perform l).2 k)
        cases (he ▸ hv.single).symm.trans hM
      · exact .inr (hd.snoc l)
    · obtain ⟨t, k, hr, hsev⟩ := ha.asks hs hin hold hwas hcl
      by_cases hprompt : l.engine.closings = []
      · generalize hp : Point.works (.call (.hangUp c.handle)) k = p at hsev
        cases hsev with
        | asks =>
          simp only [Point.works.injEq, heq_eq_eq, true_and] at hp
          obtain ⟨-, rfl⟩ := hp
          have he := hs.works (w := .call (.hangUp c.handle)) hr
          simp only [Work.perform, begin, l.hangUp_prompt c.handle hprompt] at he
          exact .inl ⟨t, _, by rw [he]; rfl⟩
      · exact .inr (.now past hprompt)
  · exact absurd hcl hno

include hl in
theorem goesOn {k' : Stack .unit} (ha : Accounts past l) (ha' : Accounts (past ++ [l]) l')
    (hr : l.running = some (w.on t k)) (hl' : l' = (w.perform l).1.carryOn t (w.perform l).2 k)
    (hn : (w.perform l).2.point k = .works (.call (.hangUp h)) k')
    (hapt : (Point.works (.call (.hangUp h)) k').Apt l') : h ∉ l'.engine.closes := by
  have hcare := hl.careful ha hr
  have hask := Next.asks_of_point hn
  have hcloses : l'.engine.closes = l.engine.closes := by
    rw [hl', (State.carryOn_unmoved _ t _ k).closes]
    exact hcare.closes fun g hg => hg.asks hask
  rcases hcare.next h hask with ⟨s, hs, c, hc, rfl⟩ | hsev
  · exact hcloses ▸ ha.live_open hs hc
  · exfalso
    generalize (w.perform l).2 = n at hn hsev hl'
    generalize (w.perform l).1 = m at hsev hl'
    subst hl'
    cases n with
    | call c f =>
      rw [← hn] at hapt
      obtain ⟨M, hsev⟩ := hsev.point ha'.singled hapt.2.2
      rw [hn] at hsev
      obtain ⟨c, hc, rfl, _⟩ := (State.Severs.hangUp hsev).1
      exact ha'.apart (hn ▸ hapt).1 (List.mem_map_of_mem hc)
    | _ => cases hsev

include hl in
theorem asks {k : Stack .unit} (ha : Accounts past l) (ha' : Accounts (past ++ [l]) l') (hs : l.Happens State.Serves l')
    (hr : l'.running = some ⟨t, .unit, .call (.hangUp h), k⟩) :
    h ∉ l'.engine.closes ∨ l'.Repeats (past ++ [l]) h := by
  have hoff := hs.mono fun _ => State.Serves.offers
  have hat : l'.point? t = some (.works (.call (.hangUp h)) k) := State.point?_at hr (ha'.atWork _ hr)
  rcases ha'.apt t _ hat with hapt | ⟨M, hsev⟩
  · refine .inl ?_
    generalize hq' : Point.works (.call (.hangUp h)) k = q' at hat
    rcases hs.came ha.atWork hat with ⟨q, hq, hgets⟩ | ⟨_, hb⟩
    · have hq : l.point? t = some q := hq
      cases hgets with
      | stays hi =>
        subst hq'
        obtain ⟨r, hr, ht⟩ := State.point?_works hq
        exact absurd ht (hi r hr)
      | ends | goesOn => cases hq'
      | works hrun hl' => exact hl.goesOn ha ha' hrun hl' hq'.symm hapt
    · cases hb with
      | @calls s c hc =>
        simp only [Point.works.injEq] at hq'
        obtain ⟨rfl, he, _⟩ := hq'
        cases he
        exact False.elim hc
      | makes | forPool => cases hq'
  · obtain ⟨⟨c, hc, rfl, hM⟩, _⟩ := hsev.hangUp
    by_cases hcl : c.handle ∈ l'.engine.closes
    · rcases hl.taken ha hoff hc hM hcl with ⟨_, _, hr'⟩ | hd
      · cases hr.symm.trans hr'
      · exact .inr ⟨List.mem_map_of_mem hc, hd⟩
    · exact .inl hcl

include hl in
theorem happens (ha : Accounts past l) (hs : l.Happens State.Serves l') : l'.ClosesOnce (past ++ [l]) := by
  have hoff := hs.mono fun _ => State.Serves.offers
  have ha' := ha.happens hoff
  refine ⟨fun i q' hq' => ?_, fun g => ?_, fun t h k hr => hl.asks ha ha' hs hr, fun M c => hl.taken ha hoff⟩
  · rcases hs.came ha.atWork hq' with ⟨q, hat, hg⟩ | ⟨_, hb⟩
    · have hold := hl.later i q hat
      cases hg with
      | stays => exact hold
      | @works u w k hr =>
        refine Next.hangsUp_point (hl.careful ha hr).later ?_
        cases w with
        | call => exact hold
        | back => exact fun hs => hold (.inr hs)
      | ends => exact fun hs => hs
      | goesOn => exact hold
    · exact hb.not_hangsUp
  · have same : l'.engine.closes = l.engine.closes → l'.engine.closes.count g ≤ 1 ∨ l'.Repeats (past ++ [l]) g :=
      fun he => (hl.once g).imp (fun h => he ▸ h) (ha.repeats hoff)
    rcases hs.unmoved with ⟨t, u, w, k, hr, hl'⟩ | hu
    · have hcloses : l'.engine.closes = (w.perform l).1.engine.closes := by
        rw [hl', (State.carryOn_unmoved _ t _ k).closes]
      by_cases hw : ∃ h, w.Closes h
      · obtain ⟨h, hw⟩ := hw
        cases w with
        | call c =>
          cases c with
          | hangUp h' =>
            have happend : l'.engine.closes = l.engine.closes ++ [h'] := by
              rw [hcloses]
              simp [Work.perform, begin, Engine.State.closes, Engine.Request.closes?]
            rw [happend, List.count_append]
            by_cases hg : h' = g
            · subst hg
              refine (hl.next t h' k hr).imp (fun hno => ?_) (ha.repeats hoff)
              rw [List.count_eq_zero_of_not_mem hno]
              simp
            · rw [List.count_singleton, if_neg (by simpa using hg), Nat.add_zero]
              exact (hl.once g).imp id (ha.repeats hoff)
          | _ => cases hw
        | back => cases hw
      · exact same (hcloses.trans ((hl.careful ha hr).closes (not_exists.mp hw)))
    · exact same hu.closes

include hl in
theorem nodup (hc : ∀ x ∈ past, x.engine.closings = []) : l.engine.closes.Nodup :=
  List.nodup_iff_count_le_one.mpr fun h => (hl.once h).resolve_right fun hr =>
    hr.2.elim fun x hx => hx.2 (hc x hx.1)

end State.ClosesOnce

theorem Accounts.closed_once (ha : Accounts past l) (hl : l.ClosesOnce past) {c : Lease} (hc : l.Has p c) :
    l.engine.closes.count c.handle ≤ 1 := by
  obtain ⟨s, hs, hc⟩ := hc
  have hpool : c.handle ∈ l.pools.flatMap fun s => s.leases.map (·.handle) :=
    List.mem_flatMap.mpr ⟨s, List.mem_of_getElem? hs, List.mem_map_of_mem hc⟩
  exact (hl.once c.handle).resolve_right fun hr => ha.pooled_not_alone hpool hr.1

theorem Course.closesOnce (hc : Course State.Serves l past m) (hl : l.Blank) : m.ClosesOnce past := by
  have hstart : l.ClosesOnce [] := by
    have hcloses : l.engine.closes = [] := by
      rw [Engine.State.closes, hl.requests]
      rfl
    have hidle : ∀ r, l.running ≠ some r := fun r hr => by cases hl.running.symm.trans hr
    refine ⟨fun i q hq => ?_, fun h => .inl ?_, fun t h k hr => (hidle _ hr).elim, fun M c _ _ hc => ?_⟩
    · have hnone : l.point? i = none :=
        State.point?_of_le (fun r hr => (hidle r hr).elim) (by simp [hl.tasks])
      cases hnone.symm.trans hq
    · rw [hcloses]
      exact Nat.zero_le 1
    · rw [hcloses] at hc
      cases hc
  exact (hc.induct (P := fun past m => Primed past m ∧ m.ClosesOnce past) ⟨hl.primed, hstart⟩
    fun _ _ _ _ ih hs => ⟨ih.1.happens hs, ih.2.happens ih.1.accounts hs⟩).2

end SqliteAccess.Loop
