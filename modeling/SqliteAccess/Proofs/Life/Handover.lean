import SqliteAccess.Proofs.Life.Crossing
import SqliteAccess.Proofs.Life.Preparing

/-!
A step hands on handles and connections only as they are prepared: what it passes to the step that waits for it
is what that one wants, and a connection is made of a handle that has been prepared for it.
-/

namespace SqliteAccess.Loop

open SqliteAccess.Pool (Handle Lease)

variable {H : Handle → List Mark} {l m : State} {h : Handle} {c : Lease} {u : Shape} {w : Work u} {k : Stack u}
  {p M : Nat}

def Work.Registers : {u : Shape} → Work u → Prop
  | _, .back (.registering _) (.ok _) => True
  | _, _ => False

namespace Restocks

theorem acquire (l : State) (p : Nat) : Restocks l (l.acquire p).1 := by
  unfold State.acquire
  split
  · exact .refl l
  next s _ =>
    split
    · exact .refl l
    · have hs : Restocks l (l.startPool p s) := .of_stock (l.stock_startPool p s)
      dsimp only
      split
      next s' id ht =>
        obtain ⟨x, hx, hid⟩ := Option.bind_eq_some_iff.mp ht
        have hl : s'.leases = x.leases := by
          rw [Pool.State.leases_eq, Pool.State.leases_eq, (Pool.State.Abides.takeIdle hid).roll]
        exact hs.trans (.setPool hx hl fun h => (h.takeIdle hid).1)
      next =>
        split
        · exact hs.trans (.of_stock (State.stock_modifyPool _ p fun _ => rfl))
        · exact hs.trans (.of_stock (State.stock_standInLine _ p s))

theorem inLine (hl : l.Stocked) (p : Nat) (o : Outcome .unit) : Restocks l (l.inLine p o).1 := by
  have ht : Restocks l (l.modifyPool p fun s => s.takeUp l.currentTask) :=
    .modifyPool (fun _ => rfl) fun s h => h.takeUp _
  have hline := ht.trans (.of_stock (State.stock_modifyPool _ p (f := fun s => s.leaveLine l.currentTask) fun _ => rfl))
  unfold State.inLine
  dsimp only
  split
  · exact ht
  · exact ht
  · split
    next id hid =>
      obtain ⟨s, hs, hid⟩ := Option.bind_eq_some_iff.mp hid
      obtain ⟨c, hc, he⟩ := (hl.pool hs).handedTo hid
      exact hline.trans (.checkin ⟨c, (hline.has p c).mpr ⟨s, hs, hc⟩, he⟩)
    · exact hline

theorem openedBackground {o : Outcome .lease} (ho : ∀ c, o = .ok c → l.Has p c) :
    Restocks l (l.openedBackground p o).1 := by
  have he : Restocks l (l.modifyPool p Pool.State.endBackground) :=
    .of_stock (l.stock_modifyPool p fun _ => rfl)
  unfold State.openedBackground
  dsimp only
  split
  · split
    · exact he.trans (.of_stock (by simp))
    · exact he
  next c =>
    split
    · split
      · exact he
      · exact he.trans (.checkin ⟨c, (he.has p c).mpr (ho c rfl), rfl⟩)
    · exact he

theorem opened (l : State) (p : Nat) (o : Outcome .lease) : Restocks l (l.opened p o).1 := by
  cases o with
  | error e => exact .of_stock (l.stock_growThen p _)
  | ok c =>
    have hm := l.stock_ensureMinimum p
    unfold State.opened
    dsimp only
    generalize l.ensureMinimum p = x at hm ⊢
    obtain ⟨m, e | _⟩ := x
    · exact .of_stock hm
    · exact (Restocks.of_stock hm).trans (.modifyPool (fun s => s.leases_checkout c.id) fun s hs =>
        hs.update c.id fun _ => rfl)

theorem destroy (l : State) (p id : Nat) : Restocks l (l.destroy p id).1 := by
  unfold State.destroy
  split
  · exact .refl l
  next s hs =>
    split
    · exact .refl l
    next s' h hr =>
      obtain ⟨_, _, _, rfl⟩ := Pool.State.remove?_find hr
      exact .setPool hs (s.leases_without id) fun h => h.without id

theorem closePool (l : State) (p : Nat) : Restocks l (l.closePool p).1 := by
  have hc : Restocks l (l.modifyPool p fun s => { s with closed := true }) :=
    .modifyPool (fun _ => rfl) fun _ hs => ⟨hs.idle, hs.handed⟩
  exact hc.trans (.of_stock (l.closePool_routine p).stock)

theorem setUp (l : State) (M : Nat) (location : Option Config.Location) (reach : Access.Reach) :
    Restocks l (l.setUp M location reach).1 := by
  unfold State.setUp
  split
  · exact .of_stock (l.stock_report _)
  · exact .refl l
  · split
    · exact .refl l
    · dsimp only
      split
      · exact .of_stock rfl
      · refine Restocks.trans ?_ (Restocks.usePool _ M _ _)
        exact .of_stock rfl

theorem batchFrom (l : State) (M : Nat) (lease : Option Lease) (mode : Access.Mode) (done : List Access.Answer)
    (restores : Bool) (ss : List Sql.Statement) : Restocks l (l.batchFrom M lease mode done restores ss).1 := by
  cases ss with
  | nil => exact .endCall (u := .answers) l M lease restores (.ok done)
  | cons s rest =>
    simp only [State.batchFrom]
    split
    · exact .endCall (u := .answers) l M lease restores (.error .missingPart)
    · exact .refl l

theorem leaveBlock (l : State) (M : Nat) (lease : Option Lease) (fail : Bool) :
    Restocks l (l.leaveBlock M lease fail).1 := .endBlock l M lease _

end Restocks

theorem Work.restocks (hw : ¬ w.Registers) (hl : l.Stocked) (hp : w.Primed H l k) : Restocks l (w.perform l).1 := by
  by_cases hd : w.Delicate
  · cases w with
    | call c =>
      cases c with
      | openBackground | connect => exact .refl l
      | askOpen =>
        simp only [Work.perform, begin, State.askOpen]
        split <;> exact .of_stock rfl
      | dial d =>
        simp only [Work.perform, begin, State.dial]
        split
        · exact .of_stock rfl
        · unfold State.endDial
          split <;> exact .of_stock rfl
      | send h s =>
        simp only [Work.perform, begin, State.send]
        split <;> exact .of_stock rfl
      | run d h s mode => exact .of_stock (l.stock_report _)
      | openSlot p =>
        simp only [Work.perform, begin, State.openSlot]
        split
        · exact .refl l
        · split <;> exact .refl l
      | acquire p => exact .acquire l p
      | destroy p id => exact .destroy l p id
      | closePool p => exact .closePool l p
      | setUp M location reach => exact .setUp l M location reach
      | borrow M =>
        simp only [Work.perform, begin, State.borrow]
        split <;> exact .refl l
      | _ => cases hd
    | back f o =>
      cases f with
      | start c => cases o <;> exact .refl l
      | askedOpen | leased => exact .refl l
      | dialled fault =>
        cases o with
        | error => exact .refl l
        | ok => cases fault <;> exact .of_stock rfl
      | connected d pooled => cases o <;> exact .refl l
      | foreignKeysSet d h pooled =>
        cases o with
        | error => exact .refl l
        | ok =>
          cases pooled with
          | true => exact .refl l
          | false => exact .of_stock (l.stock_report _)
      | journalSet d h =>
        cases o with
        | error => exact .refl l
        | ok => exact .of_stock (l.stock_report _)
      | opened p => exact .opened l p o
      | registering p =>
        cases o with
        | error => exact .of_stock (l.stock_modifyPool p fun _ => rfl)
        | ok => exact absurd trivial hw
      | inLine p => exact .inLine hl p o
      | openedBackground p =>
        refine .openedBackground fun c hc => ?_
        subst hc
        exact hp.1
      | lockedToUse M =>
        cases o with
        | error => exact .refl l
        | ok =>
          simp only [Work.perform, resume, State.lockedToUse]
          split
          · exact .refl l
          · exact .of_stock rfl
      | executing M s mode restores =>
        cases o with
        | error => exact .of_stock (l.stock_leaveScope restores)
        | ok lease =>
          simp only [Work.perform, resume, State.executing]
          split
          · exact .endCall l M lease restores _
          · exact .refl l
      | executed M lease restores => exact .endCall l M lease restores _
      | batching M ss mode restores =>
        cases o with
        | error => exact .of_stock (l.stock_leaveScope restores)
        | ok lease => exact .batchFrom l M lease mode [] restores ss
      | batched M lease rest mode done restores =>
        cases o with
        | error => exact .endCall l M lease restores _
        | ok a => exact .batchFrom l M lease mode _ restores rest
      | blockEntered M hold fail =>
        cases o with
        | error => exact .refl l
        | ok lease =>
          cases hold with
          | true => exact .of_stock rfl
          | false => exact .leaveBlock l M lease fail
      | blockHeld M lease fail =>
        cases o with
        | error => exact .endBlock l M lease _
        | ok => exact .leaveBlock l M lease fail
      | _ => cases hd
  · exact .of_stock (Work.routine hd l).stock

theorem State.register_joins {s : Pool.State} (hs : l.pool? p = some s) (n : Nat) (h : Handle) (now : Float) :
    (∀ q c, (l.modifyPool p fun s => s.freeSlot.register n h now).Has q c ↔ l.Has q c ∨ q = p ∧ c = ⟨n, h⟩) ∧
      (l.Stocked → (l.modifyPool p fun s => s.freeSlot.register n h now).Stocked) := by
  obtain ⟨hlt, _⟩ := List.getElem?_eq_some_iff.mp hs
  have hleases : (s.freeSlot.register n h now).leases = s.leases ++ [⟨n, h⟩] := by
    simp [Pool.State.leases, Pool.State.register, Pool.State.freeSlot, Pool.Connection.lease]
  refine ⟨fun q c => ?_, fun hl x hx => ?_⟩
  · by_cases hq : q = p
    · subst hq
      have hm : (l.modifyPool q fun s => s.freeSlot.register n h now).pool? q =
          some (s.freeSlot.register n h now) := by
        rw [State.pool?, State.modifyPool, List.getElem?_modify_eq, ← State.pool?, hs]
        rfl
      rw [State.Has, State.Has, hm, hs]
      simp [hleases]
    · simp [State.Has, State.pool?, State.modifyPool, Ne.symm hq, hq]
  · obtain ⟨i, hi, rfl⟩ := List.getElem_of_mem hx
    simp only [State.modifyPool, List.getElem_modify]
    split
    · exact ((hl _ (List.getElem_mem _)).register n h now).1
    · exact hl _ (List.getElem_mem _)

theorem State.registering_eq (hp : p < l.pools.length) (h : Handle) : ∃ r, l.registering p (.ok h) =
    (({ l with nextConnection := l.nextConnection + 1 }.modifyPool p fun s =>
      s.freeSlot.register l.nextConnection h l.clock).report r, .give (.ok ⟨l.nextConnection, h⟩)) := by
  simp only [State.registering, State.modifyPool, List.modify_modify_eq]
  split
  next hnone => simp [State.pool?, hp] at hnone
  next => exact ⟨_, rfl⟩

theorem State.registering_has (hp : p < l.pools.length) (h : Handle) (q : Nat) (c : Lease) :
    (l.registering p (.ok h)).1.Has q c ↔ l.Has q c ∨ q = p ∧ c = ⟨l.nextConnection, h⟩ := by
  obtain ⟨r, hm⟩ := State.registering_eq hp h
  rw [hm]
  exact ((Restocks.of_stock (State.stock_report _ r)).has q c).trans
    ((State.register_joins (List.getElem?_eq_getElem hp) l.nextConnection h l.clock).1 q c)

theorem State.registering_gains (hp : p < l.pools.length) (hh : H h = preparation true) :
    Gains H l (l.registering p (.ok h)).1 ∧ (l.registering p (.ok h)).1.Has p ⟨l.nextConnection, h⟩ ∧
      (l.registering p (.ok h)).2 = .give (.ok ⟨l.nextConnection, h⟩) := by
  have hhas := State.registering_has hp h
  obtain ⟨_, hstock⟩ := State.register_joins (List.getElem?_eq_getElem hp) l.nextConnection h l.clock
  obtain ⟨r, hm⟩ := State.registering_eq hp h
  have hr := Restocks.of_stock (State.stock_report ({ l with nextConnection := l.nextConnection + 1 }.modifyPool p
    fun s => s.freeSlot.register l.nextConnection h l.clock) r)
  have ha : ((({ l with nextConnection := l.nextConnection + 1 }.modifyPool p fun s =>
      s.freeSlot.register l.nextConnection h l.clock)).report r).alone = l.alone :=
    ((Tame.refl _).report r).toUnmoved.faithful.alone
  rw [hm] at hhas ⊢
  refine ⟨⟨⟨fun q c hc => (hhas q c).mpr (.inl hc), fun c hc => ha ▸ hc⟩, fun c hc => ?_, fun c hc => .inl (ha ▸ hc),
    fun hl => hr.stocked (hstock hl)⟩, (hhas p _).mpr (.inr ⟨rfl, rfl⟩), rfl⟩
  obtain ⟨q, hq⟩ := State.mem_pooled.mp hc
  rcases (hhas q c).mp hq with hq | ⟨_, rfl⟩
  · exact .inl hq.pooled
  · exact .inr hh

theorem Work.gains (hl : l.Stocked) (ha : w.Apt l ∨ w.Hangs) (hp : w.Primed H l k) : Gains H l (w.perform l).1 := by
  by_cases hr : w.Registers
  · cases w with
    | call => cases hr
    | back f o =>
      cases f with
      | registering p =>
        cases o with
        | error => cases hr
        | ok h => exact (State.registering_gains (ha.resolve_right id) hp.1).1
      | _ => cases hr
  · have hs := w.restocks hr hl hp
    by_cases hb : w.Binds
    · cases w with
      | call => cases hb
      | back f o =>
        cases f with
        | singleOpened M d =>
          cases o with
          | error => cases hb
          | ok h =>
            have halone := (State.singleOpened_joined (ha.resolve_right id) d h).alone
            refine ⟨⟨fun p c => (hs.has p c).mpr, ?_⟩, fun c hc => ?_, fun c hc => ?_, hs.stocked⟩
            · exact (Work.back (.singleOpened M d) (.ok h)).alone_subset l
            · obtain ⟨q, hq⟩ := State.mem_pooled.mp hc
              exact .inl ((hs.has q c).mp hq).pooled
            · rcases List.mem_append.mp (halone ▸ hc) with hc | hc
              · exact .inl hc
              · rw [List.mem_singleton.mp hc]
                exact .inr hp.1
        | singleClosed M =>
          refine hs.gains ?_
          have hu := ((Tame.refl l).setLock M Access.Lock.release).toUnmoved.faithful.alone
          cases o <;> exact hu
        | start c => cases u <;> cases o <;> cases hb
        | _ => cases hb
    · exact hs.gains (w.faithful hb l).alone

theorem Stack.gets_bland {o : Outcome u} (ha : arrived o = []) (hl : leasesOf o = []) : k.Gets H l o := by
  cases o with
  | error e => cases u <;> trivial
  | ok x =>
    cases u with
    | handle | lease => cases ha <;> cases hl
    | borrowed =>
      cases x with
      | none => exact nofun
      | some c => cases hl
    | _ => trivial

theorem Next.Bland.primed {n : Next u} (hn : n.Bland) : n.Primed H l k := by
  have call : ∀ {v : Shape} {c : Call v} {k : Stack v}, c.Safe → c.Primed l k := by
    intro v c k hc
    cases c <;> trivial
  have frame : ∀ {v : Shape} {f : Frame v u} {H : Handle → List Mark}, f.Safe → f.Primed H l k := by
    intro v f H hf
    cases f <;> trivial
  cases n with
  | give o => exact Stack.gets_bland hn.1 hn.2
  | call c f => exact ⟨call hn.1, frame hn.2⟩
  | jump c =>
    refine ⟨call hn, fun h hm => absurd ?_ hm⟩
    cases c <;> first | rfl | cases hn
  | pause | again => exact frame hn

theorem Stack.Open.takes {k : Stack .lease} (hk : k.Open) (hc : c ∈ l.pooled) : k.Takes l c := by
  cases k with
  | done => exact hc
  | push f k =>
    cases f with
    | opened | openedBackground => cases hk
    | _ => exact hc

theorem Stack.Fills.takes {k : Stack .lease} (hk : k.Fills p) (hc : l.Has p c) : k.Takes l c := by
  cases k with
  | done => cases hk
  | push f k =>
    cases f with
    | opened | openedBackground => exact hk ▸ hc
    | _ => cases hk

theorem Stack.Wants.receives {k : Stack .handle} {pooled : Bool} (hk : k.Wants pooled)
    (hh : H h = preparation pooled) : k.Receives H h := by
  cases k with
  | done => cases hk
  | push f k =>
    cases f with
    | registering | singleOpened => cases hk; exact hh
    | _ => cases hk

theorem Stack.Dials.receives {k : Stack .handle} (hk : k.Dials) (hh : H h = []) : k.Receives H h := by
  cases k with
  | done => cases hk
  | push f k =>
    cases f with
    | connected => exact hh
    | _ => cases hk

theorem State.leaseOf_mem {s : Pool.State} {id : Nat} (hs : l.pool? p = some s) (hid : ∃ c ∈ s.leases, c.id = id) :
    l.leaseOf p id ∈ s.leases := by
  obtain ⟨c, hc, rfl⟩ := hid
  obtain ⟨x, hx, rfl⟩ := List.mem_map.mp hc
  have hfind : ∃ y, s.everFind? x.id = some y := by
    cases hf : s.everFind? x.id with
    | some y => exact ⟨y, rfl⟩
    | none => exact absurd (List.find?_eq_none.mp hf x hx) (by simp)
  obtain ⟨y, hy⟩ := hfind
  have he : l.leaseOf p x.lease.id = y.lease := by
    simp only [State.leaseOf, hs, Option.bind_some]
    change ((s.everFind? x.id).map _).getD _ = _
    rw [hy]
    rfl
  rw [he]
  exact List.mem_map_of_mem (List.mem_of_find?_eq_some hy)

theorem State.endDial_primed {k : Stack .handle} {e : Engine.State} (fault : Option Fault) (hk : k.Dials)
    (hfresh : ∀ i, e.opened < i → H (.numbered i) = []) :
    (({ l with engine := e } : State).endDial fault).2.Primed H m k := by
  cases fault with
  | some => exact (Next.bland_error _).primed
  | none => exact hk.receives (hfresh _ (Nat.lt_succ_self _))

theorem State.acquire_primed {k : Stack .lease} (hl : l.Stocked) (hk : k.Open) (p : Nat) :
    (l.acquire p).2.Primed H (l.acquire p).1 k := by
  have hm := (Restocks.acquire l p).stocked hl
  revert hm
  unfold State.acquire
  split
  · exact fun _ => (Next.bland_error _).primed
  next s _ =>
    split
    · exact fun _ => (Next.bland_error _).primed
    · dsimp only
      split
      next s' id ht =>
        intro hm
        obtain ⟨x, hx, hid⟩ := Option.bind_eq_some_iff.mp ht
        obtain ⟨hlt, _⟩ := List.getElem?_eq_some_iff.mp hx
        have hs : ((l.startPool p s).modifyPool p fun _ => s').pool? p = some s' := by
          simp [State.pool?, State.modifyPool, hlt]
        have hstart : (l.startPool p s).Stocked := (Restocks.of_stock (l.stock_startPool p s)).stocked hl
        obtain ⟨_, hleases, hin⟩ := (hstart.pool hx).takeIdle hid
        exact hk.takes (State.Has.pooled ⟨s', hs, State.leaseOf_mem hs (hleases ▸ hin)⟩)
      next =>
        intro _
        split
        · exact ⟨rfl, hk⟩
        · unfold State.standInLine
          dsimp only
          generalize State.grow _ p = x
          obtain ⟨m, e | _⟩ := x
          · exact (Next.bland_error _).primed
          · dsimp only
            split
            · exact (Next.bland_error _).primed
            · exact hk
            · split <;> exact hk

theorem State.inLine_primed {k : Stack .lease} (hl : l.Stocked) (hk : k.Open) (p : Nat) (o : Outcome .unit) :
    (l.inLine p o).2.Primed H (l.inLine p o).1 k := by
  unfold State.inLine
  dsimp only
  split
  next id hid =>
    obtain ⟨s, hs, hid⟩ := Option.bind_eq_some_iff.mp hid
    have hm : (l.modifyPool p fun s => s.takeUp l.currentTask).pool? p = some (s.takeUp l.currentTask) := by
      rw [State.pool?, State.modifyPool, List.getElem?_modify_eq, ← State.pool?, hs]
      rfl
    exact hk.takes (State.Has.pooled ⟨_, hm, State.leaseOf_mem hm ((hl.pool hs).handedTo hid)⟩)
  · exact (Next.bland_error _).primed
  · split <;> exact (Next.bland_error _).primed

theorem State.batchFrom_primed {k : Stack .answers} {lease : Option Lease} (hc : ∀ c ∈ lease, l.Connects c)
    (mode : Access.Mode) (done : List Access.Answer) (restores : Bool) (ss : List Sql.Statement) :
    (l.batchFrom M lease mode done restores ss).2.Primed H (l.batchFrom M lease mode done restores ss).1 k := by
  cases ss with
  | nil => trivial
  | cons s rest =>
    simp only [State.batchFrom]
    split
    · trivial
    next d c ht =>
      have hin := hc c (State.target?_some ht)
      exact ⟨State.mem_registered.mpr ⟨c, hin, rfl⟩, hc⟩

theorem Work.hands (hl : l.Stocked) (hsrc : l.Sourced) (ha : w.Apt l ∨ w.Hangs)
    (hfresh : ∀ i, l.engine.opened < i → H (.numbered i) = []) (hp : w.Primed H l k) :
    (w.perform l).2.Primed (w.mark H) (w.perform l).1 k := by
  have hg := (w.gains hl ha hp).toRemembers
  by_cases hd : w.Delicate
  · cases w with
    | call c =>
      have hm : ∀ g, (Work.call c).marks g = [] → (Work.call c).mark H g = H g := fun g hg => by
        rw [Work.mark, hg, List.append_nil]
      cases c with
      | askOpen => exact hp.elim
      | send h s =>
        simp only [Work.perform, begin, State.send]
        split
        · trivial
        · trivial
      | openBackground p => exact ⟨rfl, trivial⟩
      | connect d pooled => exact ⟨trivial, hp⟩
      | dial d =>
        have ho := (l.engine.record (.open d.location.filename d.timeout)).nextOpening_spec.2.1
        simp only [Work.perform, begin, State.dial]
        split
        · exact hp
        · exact State.endDial_primed _ hp fun i hi => (hm _ rfl).trans (hfresh i (ho ▸ hi))
      | run d h s mode => exact ⟨hg.registered hp, trivial⟩
      | openSlot p =>
        simp only [Work.perform, begin, State.openSlot]
        split
        · exact (Next.bland_error _).primed
        next s hs =>
          obtain ⟨d, hd⟩ := (hsrc s (List.mem_of_getElem? hs)).1
          rw [hd]
          exact ⟨rfl, hp⟩
      | acquire p => exact State.acquire_primed hl hp p
      | destroy p id =>
        simp only [Work.perform, begin, State.destroy]
        split
        · trivial
        · split
          · trivial
          next s' h _ =>
            unfold State.closeHandle
            cases s'.source <;> exact ⟨trivial, trivial⟩
      | closePool p => exact (l.closePool_routine p).bland.primed
      | setUp M location reach =>
        simp only [Work.perform, begin, State.setUp]
        split
        · trivial
        · exact (Next.bland_error _).primed
        · split
          · exact (Next.bland_error _).primed
          · split
            · exact ⟨rfl, trivial⟩
            · trivial
      | borrow M =>
        simp only [Work.perform, begin, State.borrow]
        split
        · exact ⟨trivial, trivial⟩
        · exact ⟨trivial, trivial⟩
        · exact fun _ h => by cases h
      | _ => cases hd
    | back f o =>
      cases f with
      | start c =>
        cases o with
        | error => exact (Next.bland_error _).primed
        | ok => exact ⟨hp.2.1, fun h _ => hp.2.2 ▸ rfl⟩
      | askedOpen => exact hp.2.elim
      | leased =>
        cases o with
        | error => exact (Next.bland_error _).primed
        | ok c =>
          intro x hx
          cases hx
          exact .inl hp.1
      | dialled fault =>
        cases o with
        | error => exact (Next.bland_error _).primed
        | ok =>
          exact State.endDial_primed (e := l.engine) fault hp.2 fun i hi => (List.append_nil _).trans (hfresh i hi)
      | connected d pooled =>
        cases o with
        | error => exact (Next.bland_error _).primed
        | ok h =>
          have hh : H h = [] := hp.1
          refine ⟨rfl, hp.2, ?_⟩
          simp [Work.mark, Work.marks, hh, foreignKeys]
      | foreignKeysSet d h pooled =>
        cases o with
        | error => exact (Next.bland_error _).primed
        | ok =>
          obtain ⟨hw, hh⟩ := hp.2
          cases pooled with
          | true =>
            refine ⟨rfl, hw, ?_⟩
            simp [Work.mark, Work.marks, hh, journal]
          | false =>
            refine hw.receives ?_
            simp [Work.mark, Work.marks, hh, preparation]
      | journalSet d h =>
        cases o with
        | error => exact (Next.bland_error _).primed
        | ok =>
          obtain ⟨hw, hh⟩ := hp.2
          refine hw.receives ?_
          simp [Work.mark, Work.marks, hh, preparation]
      | opened p =>
        cases o with
        | error e => exact (State.growThen_bland l p (Next.bland_error e)).primed
        | ok c =>
          have hc := hg.pooled (State.Has.pooled hp.1)
          revert hc
          simp only [Work.perform, resume, State.opened]
          generalize l.ensureMinimum p = x
          obtain ⟨m, e | _⟩ := x
          · exact fun _ => (Next.bland_error _).primed
          · exact fun hc => hp.2.takes hc
      | registering p =>
        cases o with
        | error => exact (Next.bland_error _).primed
        | ok h =>
          obtain ⟨_, hhas, hnext⟩ := State.registering_gains (ha.resolve_right id) hp.1
          simp only [Work.perform, resume, hnext]
          exact hp.2.takes hhas
      | inLine p => exact State.inLine_primed hl hp.2 p o
      | openedBackground p =>
        simp only [Work.perform, resume, State.openedBackground]
        split
        · split
          · exact (State.growThen_bland _ p ⟨rfl, rfl⟩).primed
          · exact (Next.bland_error _).primed
        · split
          · split
            · exact ⟨trivial, fun h hm => absurd rfl hm⟩
            · trivial
          · trivial
      | lockedToUse M =>
        cases o with
        | error => exact (Next.bland_error _).primed
        | ok =>
          simp only [Work.perform, resume, State.lockedToUse]
          split
          · exact (Next.bland_error _).primed
          next id _ =>
            intro c hc
            obtain ⟨z, hz, rfl⟩ := Option.map_eq_some_iff.mp hc
            exact .inr (List.mem_map_of_mem (List.mem_of_find?_eq_some hz))
      | executing M s mode restores =>
        cases o with
        | error => exact (Next.bland_error _).primed
        | ok lease =>
          have hc : ∀ c ∈ lease, l.Connects c := hp.1
          simp only [Work.perform, resume, State.executing]
          split
          · trivial
          next d c ht =>
            exact ⟨State.mem_registered.mpr ⟨c, hc c (State.target?_some ht), rfl⟩, hc⟩
      | executed => trivial
      | batching M ss mode restores =>
        cases o with
        | error => exact (Next.bland_error _).primed
        | ok lease => exact State.batchFrom_primed hp.1 mode [] restores ss
      | batched M lease rest mode done restores =>
        cases o with
        | error => trivial
        | ok a => exact State.batchFrom_primed hp.2 mode _ restores rest
      | blockEntered M hold fail =>
        cases o with
        | error => exact (Next.bland_error _).primed
        | ok lease =>
          cases hold with
          | true => exact hp.1
          | false => trivial
      | blockHeld M lease fail => cases o <;> trivial
      | _ => cases hd
  · exact (Work.routine hd l).bland.primed

end SqliteAccess.Loop
