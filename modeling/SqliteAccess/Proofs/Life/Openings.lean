import SqliteAccess.Proofs.Life.Course

/-!
What becomes of the handles that the engine opens. Each is at any time in the hands of one connect, with
the client whose connect has come back with it, or the handle of one connection; and no connect lets go
of one, but for those that fail after the engine has opened it.
-/

namespace SqliteAccess.Loop

open SqliteAccess.Pool (Handle)

def Frame.holds (h : Handle) : {s t : Shape} → Frame s t → Nat
  | _, _, .foreignKeysSet _ h' _ | _, _, .journalSet _ h' => if h' = h then 1 else 0
  | _, _, _ => 0

def Stack.holds (h : Handle) : {s : Shape} → Stack s → Nat
  | _, .done _ => 0
  | _, .push f k => f.holds h + holds h k

def Control.holds (h : Handle) {s : Shape} : Control s → Nat
  | .call _ => 0
  | .give o => (arrived o).count h

def Point.holds (h : Handle) : Point → Nat
  | .waits k => k.holds h
  | .works x k => x.holds h + k.holds h
  | .ended o => (arrived o).count h

def Work.holds (h : Handle) {u : Shape} : Work u → Nat
  | .call _ => 0
  | .back f o => (arrived o).count h + f.holds h

def Next.holds (h : Handle) {u : Shape} : Next u → Nat
  | .give o => (arrived o).count h
  | .call _ f | .pause _ f | .again f => f.holds h
  | .jump _ => 0

def Work.spills? : {u : Shape} → Work u → Option Handle
  | _, .back (.foreignKeysSet _ h _) (.error _) | _, .back (.journalSet _ h) (.error _) => some h
  | _, _ => none

namespace State

def handOf (l : State) (h : Handle) (i : Nat) : Nat := ((l.point? i).map (Point.holds h)).getD 0

def hands (l : State) (h : Handle) : Nat := ∑ i ∈ Finset.range l.tasks.length, l.handOf h i

def registered (l : State) : List Handle :=
  l.pools.flatMap (fun s => s.leases.map (·.handle)) ++ l.standalone.map (·.lease.handle)

def given (l : State) : Handle → Nat
  | .numbered n => if 1 ≤ n ∧ n ≤ l.engine.opened then 1 else 0
  | .stray => 0

def spills? (l : State) : Option Handle :=
  match l.running with
  | some ⟨_, _, .give (.error _), .push (.foreignKeysSet _ h _) _⟩
  | some ⟨_, _, .give (.error _), .push (.journalSet _ h) _⟩ => some h
  | _ => none

end State

/-- The handles that connects have let go of. -/
def spilt (past : List State) : List Handle := past.filterMap State.spills?

namespace State

def Returned (l : State) (h : Handle) : Prop := ∃ i, l.point? i = some (.ended (u := .handle) (.ok h))

def departed (l : State) : List Handle := l.pools.flatMap fun s => s.departed.map (·.handle)

def MayClose (l : State) (h : Handle) : Prop := h ∈ l.departed ∨ l.Returned h

/-- Clients call what they like, but close only what they have opened. -/
def Offers : {s : Shape} → State → Call s → Prop
  | _, _, .askOpen => False
  | _, l, .hangUp h => l.Returned h
  | _, _, _ => True

end State

def Call.Apt (l : State) : {s : Shape} → Call s → Prop
  | _, .askOpen => False
  | _, .hangUp h => l.MayClose h
  | _, _ => True

def Frame.Apt (l : State) : {s t : Shape} → Frame s t → Prop
  | _, _, .start c => c.Apt l
  | _, _, .askedOpen _ | _, _, .singleClosed _ => False
  | _, _, .registering p => p < l.pools.length
  | _, _, .singleOpened M _ => M < l.managers.length
  | _, _, _ => True

def Frame.Pends (l : State) : {s t : Shape} → Frame s t → Prop
  | _, _, .singleClosed _ => True
  | _, _, f => f.Apt l

def Stack.Apt (l : State) : {s : Shape} → Stack s → Prop
  | _, .done _ => True
  | _, .push f k => f.Pends l ∧ Apt l k

def Control.Apt (l : State) {s : Shape} : Control s → Prop
  | .call c => c.Apt l
  | .give _ => True

def Point.Apt (l : State) : Point → Prop
  | .waits k => k.Apt l
  | .works x k => x.Apt l ∧ k.Apt l
  | .ended _ => True

def Work.Apt (l : State) {u : Shape} : Work u → Prop
  | .call c => c.Apt l
  | .back f _ => f.Pends l

def Next.Apt (l : State) {u : Shape} : Next u → Prop
  | .give _ => True
  | .call c f => c.Apt l ∧ f.Apt l
  | .jump c => c.Apt l
  | .pause _ f | .again f => f.Apt l

def Work.Hangs : {u : Shape} → Work u → Prop
  | _, .call (.hangUp _) => True
  | _, _ => False

structure Widens (l m : State) : Prop where
  pools : l.pools.length ≤ m.pools.length
  managers : l.managers.length ≤ m.managers.length
  closes : ∀ h, l.MayClose h → m.MayClose h

variable {l m : State} {h : Handle} {u : Shape} {w : Work u} {n : Next u} {k : Stack u}

theorem Work.holds_point (w : Work u) (t : Nat) (k : Stack u) (h : Handle) :
    (w.on t k).point.holds h = w.holds h + k.holds h := by
  cases w <;> simp [Work.on, Running.point, Point.holds, Control.holds, Work.holds, Stack.holds, Nat.add_assoc]

theorem Next.holds_point (n : Next u) (k : Stack u) (h : Handle) :
    (n.point k).holds h = n.holds h + k.holds h := by
  cases n <;> simp [Next.point, Point.holds, Control.holds, Next.holds, Stack.holds]

theorem Work.apt_point (t : Nat) (k : Stack u) : (w.on t k).point.Apt l ↔ w.Apt l ∧ k.Apt l := by
  cases w <;> simp [Work.on, Running.point, Point.Apt, Control.Apt, Work.Apt, Stack.Apt]

theorem Frame.Apt.pends {s t : Shape} {f : Frame s t} (h : f.Apt l) : f.Pends l := by
  cases f <;> first | exact h | trivial

theorem Next.Apt.point (hn : n.Apt l) (hk : k.Apt l) : (n.point k).Apt l := by
  cases n with
  | give => exact ⟨trivial, hk⟩
  | call c f => exact ⟨hn.1, hn.2.pends, hk⟩
  | jump c => exact ⟨hn, hk⟩
  | pause _ f | again f => exact ⟨hn.pends, hk⟩

theorem Work.spills?_on (w : Work u) (t : Nat) (k : Stack u) (hr : l.running = some (w.on t k)) :
    l.spills? = w.spills? := by
  unfold State.spills?
  rw [hr]
  cases w with
  | call c => rfl
  | back f o => cases f <;> cases o <;> rfl

namespace Widens

variable (hw : Widens l m)

include hw in
theorem call {s : Shape} {c : Call s} (hc : c.Apt l) : c.Apt m := by
  cases c with
  | hangUp h => exact hw.closes h hc
  | _ => exact hc

include hw in
theorem frame {s t : Shape} {f : Frame s t} (hf : f.Apt l) : f.Apt m := by
  cases f with
  | start c => exact hw.call hf
  | registering p => exact Nat.lt_of_lt_of_le hf hw.pools
  | singleOpened M => exact Nat.lt_of_lt_of_le hf hw.managers
  | _ => exact hf

include hw in
theorem pends {s t : Shape} {f : Frame s t} (hf : f.Pends l) : f.Pends m := by
  cases f with
  | singleClosed => trivial
  | start c => exact hw.frame (f := .start c) hf
  | registering p => exact hw.frame (f := .registering p) hf
  | singleOpened M d => exact hw.frame (f := .singleOpened M d) hf
  | _ => exact hf

include hw in
theorem stack {s : Shape} {k : Stack s} (hk : k.Apt l) : k.Apt m := by
  induction k with
  | done => trivial
  | push f k ih => exact ⟨hw.pends hk.1, ih hk.2⟩

include hw in
theorem next {n : Next u} (hn : n.Apt l) : n.Apt m := by
  cases n with
  | give => trivial
  | call => exact ⟨hw.call hn.1, hw.frame hn.2⟩
  | jump => exact hw.call hn
  | pause | again => exact hw.frame hn

include hw in
theorem point {p : Point} (hp : p.Apt l) : p.Apt m := by
  cases p with
  | waits k => exact hw.stack hp
  | works x k =>
    cases x with
    | call c => exact ⟨hw.call hp.1, hw.stack hp.2⟩
    | give o => exact ⟨trivial, hw.stack hp.2⟩
  | ended => trivial

end Widens

theorem Next.Plain.apt (hn : n.Plain) : n.Apt m := by
  have hc : ∀ {s : Shape} {c : Call s}, c.Plain → c.Apt m := by
    intro s c hc
    cases c <;> trivial
  have hf : ∀ {s t : Shape} {f : Frame s t}, f.Plain → f.Apt m := by
    intro s t f hf
    cases f <;> trivial
  cases n with
  | give => trivial
  | call => exact ⟨hc hn.1, hf hn.2⟩
  | jump => exact hc hn
  | pause | again => exact hf hn

theorem Next.Plain.holds (hn : n.Plain) : n.holds h = 0 := by
  have hf : ∀ {s t : Shape} {f : Frame s t}, f.Plain → f.holds h = 0 := by
    intro s t f hf
    cases f <;> first | rfl | cases hf
  cases n with
  | give o => rw [Next.holds, show arrived o = [] from hn]; rfl
  | call => exact hf hn.2
  | jump => rfl
  | pause | again => exact hf hn

theorem Work.holds_of_not_singular (hw : ¬ w.Singular) : w.holds h = 0 := by
  cases w with
  | call => rfl
  | back f o => cases f <;> first | rfl | exact absurd trivial hw

theorem Work.spills?_of_not_singular (hw : ¬ w.Singular) : w.spills? = none := by
  cases w with
  | call => rfl
  | back f o => cases f <;> first | rfl | exact absurd trivial hw

theorem State.given_congr (ho : m.engine.opened = l.engine.opened) : m.given h = l.given h := by
  cases h <;> simp [State.given, ho]

namespace Unmoved

variable (hs : Unmoved l m)

include hs in
theorem registered : m.registered = l.registered := by
  have hp : m.pools.map Pool.State.leases = l.pools.map Pool.State.leases := by
    refine List.ext_getElem (by simp [hs.pools.length_eq]) fun i hi hi' => ?_
    have hr := (hs.pools.get (by simpa using hi') (by simpa using hi)).roll
    simp only [List.get_eq_getElem] at hr
    rw [List.getElem_map, List.getElem_map, Pool.State.leases_eq, Pool.State.leases_eq, hr]
  have hf : ∀ l : State, l.registered =
      (l.pools.map Pool.State.leases).flatMap (·.map (·.handle)) ++
        (l.standalone.map (·.lease)).map (·.handle) := by
    intro l
    simp [State.registered, List.flatMap_map]
  rw [hf, hf, hp, hs.standalone]

include hs in
theorem given (h : Handle) : m.given h = l.given h := State.given_congr (congrArg Prod.snd hs.outer)

end Unmoved

def Conserves (h : Handle) (l : State) (w : Work u) (x : State × Next u) : Prop :=
  x.2.holds h + x.1.registered.count h + w.spills?.toList.count h + l.given h =
    w.holds h + l.registered.count h + x.1.given h

theorem Conserves.unmoved (hs : Unmoved l m) (hn : n.holds h = w.holds h) (hw : w.spills? = none) :
    Conserves h l w (m, n) := by
  simp [Conserves, hs.registered, hs.given, hn, hw]

theorem Conserves.of (hg : m.given h = l.given h)
    (hc : n.holds h + m.registered.count h + w.spills?.toList.count h = w.holds h + l.registered.count h) :
    Conserves h l w (m, n) := by
  dsimp only [Conserves]
  omega

theorem Conserves.aside (hr : m.registered = l.registered) (hg : m.given h = l.given h)
    (hn : n.holds h = w.holds h) (hw : w.spills? = none) : Conserves h l w (m, n) := by
  simp [Conserves, hr, hg, hn, hw]

theorem State.registered_report (l : State) (r : Log.Record) : (l.report r).registered = l.registered :=
  ((Tame.refl l).report r).toUnmoved.registered

theorem State.given_report (l : State) (r : Log.Record) : (l.report r).given h = l.given h :=
  ((Tame.refl l).report r).toUnmoved.given h

theorem State.registered_modifyPool {p : Nat} {f : Pool.State → Pool.State}
    (hf : ∀ s, l.pool? p = some s → (f s).leases = s.leases) :
    (l.modifyPool p f).registered = l.registered := by
  by_cases hp : p < l.pools.length
  · obtain ⟨before, s, after, hl, hlen, hm⟩ := List.exists_of_modify f hp
    have hs : l.pool? p = some s := by
      rw [State.pool?, hl, ← hlen]
      simp
    simp only [State.registered, State.modifyPool, hm]
    simp [hl, hf s hs]
  · rw [State.modifyPool, List.modify_eq_self (Nat.le_of_not_lt hp)]

theorem State.modifyPool_split (l : State) {p : Nat} {s : Pool.State} (hs : l.pool? p = some s)
    (f : Pool.State → Pool.State) :
    ∃ before after, l.pools = before ++ s :: after ∧ (l.modifyPool p f).pools = before ++ f s :: after := by
  obtain ⟨hp, hs⟩ := List.getElem?_eq_some_iff.mp hs
  obtain ⟨before, s', after, hl, hlen, hm⟩ := List.exists_of_modify f hp
  have he : s' = s := by
    rw [← hs]
    simp [hl, ← hlen]
  exact ⟨before, after, he ▸ hl, he ▸ hm⟩

theorem State.registered_joins {p id : Nat} {s : Pool.State} {f : Pool.State → Pool.State}
    (hs : l.pool? p = some s) (hf : (f s).leases = s.leases ++ [⟨id, h⟩]) :
    (l.modifyPool p f).registered.Perm (h :: l.registered) := by
  obtain ⟨before, after, hl, hm⟩ := l.modifyPool_split hs f
  simp only [State.registered, hm]
  simp only [hl, hf, List.flatMap_append, List.flatMap_cons, List.map_append, List.map_cons, List.map_nil,
    List.append_assoc, List.cons_append, List.nil_append]
  rw [← List.append_assoc, ← List.append_assoc (before.flatMap _)]
  exact List.perm_middle

theorem State.given_next (l : State) (h : Handle) {e : Engine.State} (he : e.opened = l.engine.opened) :
    ({ l with engine := e.giveHandle.2 } : State).given h =
      l.given h + [Handle.numbered (l.engine.opened + 1)].count h := by
  cases h with
  | stray => simp [State.given]
  | numbered n =>
    simp only [State.given, Engine.State.giveHandle, he, List.count_singleton, beq_iff_eq,
      Handle.numbered.injEq]
    split_ifs <;> omega

theorem State.endDial_conserves {w : Work .handle} (fault : Option Fault) {e : Engine.State}
    (he : e.opened = l.engine.opened) (hw : w.holds h = 0) (hs : w.spills? = none) :
    Conserves h l w (({ l with engine := e } : State).endDial fault) := by
  cases fault with
  | some f =>
    exact .aside rfl (State.given_congr he) (by rw [hw]; rfl) hs
  | none =>
    have hg := l.given_next h he
    have hn : (Next.give (.ok (.numbered (l.engine.opened + 1))) : Next .handle).holds h =
        [Handle.numbered (l.engine.opened + 1)].count h := rfl
    simp only [State.endDial, Conserves, hw, hs, Option.toList_none, List.count_nil]
    simp only [Engine.State.giveHandle, he] at hg ⊢
    rw [hg, hn]
    simp only [State.registered]
    omega

theorem State.shutSingle_conserves {w : Work .unit} (M : Nat) (hw : w.holds h = 0) (hs : w.spills? = none) :
    Conserves h l w (l.shutSingle M) := by
  unfold State.shutSingle
  split
  · exact .aside rfl rfl hw.symm hs
  · split
    · exact .aside rfl rfl hw.symm hs
    · exact .aside rfl rfl hw.symm hs

theorem State.setUp_conserves (M : Nat) (location : Option Config.Location) (reach : Access.Reach) :
    Conserves h l (.call (.setUp M location reach)) (l.setUp M location reach) := by
  unfold State.setUp
  split
  · exact .unmoved ((Tame.refl l).report _).toUnmoved rfl rfl
  · exact .aside rfl rfl rfl rfl
  · split
    · exact .aside rfl rfl rfl rfl
    · dsimp only
      split
      · exact .aside rfl rfl rfl rfl
      · refine .aside ?_ ?_ rfl rfl
        · rw [State.usePool, State.registered_report]
          simp [State.registered, State.modifyManager, Pool.State.leases]
        · rw [State.usePool, State.given_report]
          rfl

theorem State.destroy_conserves (p id : Nat) :
    Conserves h l (.call (.destroy p id)) (l.destroy p id) := by
  unfold State.destroy
  split
  · exact .aside rfl rfl rfl rfl
  next s hs =>
    split
    · exact .aside rfl rfl rfl rfl
    next s' h' hr =>
      obtain ⟨c, _, _, rfl⟩ := Pool.State.remove?_find hr
      refine .aside (State.registered_modifyPool fun s' hs' => ?_) rfl rfl rfl
      cases hs.symm.trans hs'
      exact Pool.State.leases_without s id

theorem State.registering_conserves {p : Nat} (hp : p < l.pools.length) (o : Outcome .handle) :
    Conserves h l (.back (.registering p) o) (l.registering p o) := by
  cases o with
  | error e => exact .aside (State.registered_modifyPool fun _ _ => rfl) rfl rfl rfl
  | ok h' =>
    have hs : l.pool? p = some l.pools[p] := List.getElem?_eq_getElem hp
    have hleases : (((fun s : Pool.State => s.register l.nextConnection h' l.clock) ∘ Pool.State.freeSlot)
        l.pools[p]).leases = l.pools[p].leases ++ [⟨l.nextConnection, h'⟩] := by
      simp [Pool.State.leases, Pool.State.register, Pool.State.freeSlot, Pool.Connection.lease]
    have hcount := (State.registered_joins hs hleases).count_eq h
    simp only [State.registered, State.modifyPool] at hcount
    simp only [State.registering]
    split
    next hnone => simp [State.pool?, State.modifyPool, hp] at hnone
    next =>
      refine .of ((State.given_report _ _).trans (State.given_congr rfl)) ?_
      rw [State.registered_report]
      simp only [State.registered, State.modifyPool, List.modify_modify_eq, hcount, List.count_cons, Next.holds,
        Work.holds, Work.spills?, Frame.holds, arrived, List.count_nil, Option.toList_none]
      omega

theorem State.singleOpened_conserves (M : Nat) (d : Access.Database) (o : Outcome .handle) :
    Conserves h l (.back (.singleOpened M d) o) (l.singleOpened M d o) := by
  cases o with
  | error e => exact .aside rfl rfl rfl rfl
  | ok h' =>
    refine .of ((State.given_report _ _).trans (State.given_congr rfl)) ?_
    rw [State.registered_report]
    simp only [State.registered, State.modifyManager, List.map_append, List.map_cons, List.map_nil, List.count_append,
      Pool.Connection.lease, Next.holds, Work.holds, Work.spills?, Frame.holds,
      arrived, List.count_nil, Option.toList_none]
    omega

theorem Work.conserves (w : Work u) (ha : w.Apt l ∨ w.Hangs) :
    Conserves h l w (w.perform l) := by
  by_cases hw : w.Singular
  · cases w with
    | call c =>
      cases c with
      | askOpen => exact (ha.resolve_right id).elim
      | dial d =>
        have ho := (l.engine.record (.open d.location.filename d.timeout)).nextOpening_spec.2.1
        simp only [Work.perform, begin, State.dial]
        split
        · exact .aside rfl (State.given_congr ho) rfl rfl
        · exact State.endDial_conserves _ ho rfl rfl
      | hangUp h' =>
        obtain ⟨e, ⟨_, ho, _⟩, ⟨_, he⟩ | ⟨o, he⟩⟩ := l.hangUp_cases h' <;> simp only [Work.perform, begin, he]
        · exact .aside rfl (State.given_congr ho) rfl rfl
        · exact .aside rfl (State.given_congr ho) rfl rfl
      | openSlot p =>
        simp only [Work.perform, begin, State.openSlot]
        split
        · exact .aside rfl rfl rfl rfl
        · split <;> exact .aside rfl rfl rfl rfl
      | destroy p id => exact State.destroy_conserves p id
      | setUp M location reach => exact State.setUp_conserves M location reach
      | shutDown M =>
        simp only [Work.perform, begin, State.shutDown]
        split
        · exact .aside rfl rfl rfl rfl
        · exact State.shutSingle_conserves M rfl rfl
      | bootstrap url =>
        simp only [Work.perform, begin, State.bootstrap]
        split <;> exact .aside rfl rfl rfl rfl
      | _ => cases hw
    | back f o =>
      cases f with
      | start c =>
        cases o with
        | error e => exact .aside rfl rfl (by rw [Next.holds, arrived_error]; rfl) rfl
        | ok => exact .aside rfl rfl rfl rfl
      | askedOpen => exact (ha.resolve_right id).elim
      | dialled fault =>
        cases o with
        | error => exact .aside rfl rfl rfl rfl
        | ok => exact State.endDial_conserves (e := l.engine) fault rfl rfl rfl
      | connected d wal =>
        cases o with
        | error => exact .aside rfl rfl rfl rfl
        | ok h' =>
          refine .aside rfl rfl ?_ rfl
          simp [Next.holds, Work.holds, Frame.holds, arrived, List.count_singleton]
      | foreignKeysSet d h' wal =>
        cases o with
        | error e =>
          simp [Work.perform, resume, State.foreignKeysSet, Conserves, Next.holds, Work.holds, Frame.holds,
            arrived, Work.spills?, List.count_singleton]
          omega
        | ok c =>
          cases wal with
          | true =>
            refine .aside rfl rfl ?_ rfl
            simp [Next.holds, Work.holds, Frame.holds, arrived]
          | false =>
            refine .unmoved ((Tame.refl l).report (State.databaseRecord ..)).toUnmoved ?_ rfl
            simp [Next.holds, Work.holds, Frame.holds, arrived, List.count_singleton]
      | journalSet d h' =>
        cases o with
        | error e =>
          simp [Work.perform, resume, State.journalSet, Conserves, Next.holds, Work.holds, Frame.holds,
            arrived, Work.spills?, List.count_singleton]
          omega
        | ok c =>
          refine .unmoved ((Tame.refl l).report (State.databaseRecord ..)).toUnmoved ?_ rfl
          simp [Next.holds, Work.holds, Frame.holds, arrived, List.count_singleton]
      | registering p => exact State.registering_conserves (ha.resolve_right id) o
      | singleOpened M d => exact State.singleOpened_conserves M d o
      | poolShut M =>
        cases o with
        | error => exact .aside rfl rfl rfl rfl
        | ok => exact State.shutSingle_conserves M rfl rfl
      | lockedToClose M =>
        cases o with
        | error => exact .aside rfl rfl rfl rfl
        | ok =>
          simp only [Work.perform, resume, State.lockedToClose]
          split
          · exact .aside rfl rfl rfl rfl
          · exact .unmoved ((Tame.refl l).setLock M Access.Lock.release).toUnmoved rfl rfl
      | singleClosed M =>
        have hu := ((Tame.refl l).setLock M Access.Lock.release).toUnmoved
        cases o with
        | error e => exact .unmoved hu rfl rfl
        | ok => exact .aside hu.registered (hu.given h) rfl rfl
      | _ => cases hw
  · have hm := Work.mild hw l
    exact .unmoved hm.tame.toUnmoved (hm.plain.holds.trans (Work.holds_of_not_singular hw).symm)
      (Work.spills?_of_not_singular hw)

end SqliteAccess.Loop
