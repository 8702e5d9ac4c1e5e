import SqliteAccess.Proofs.Access.ManagerSteps

/-!
Every step of a manager or of its database that concerns neither the pool nor the lock is one of the
deeds, or gives a connection back.
-/

namespace SqliteAccess.Loop

open Pool (Handle Lease)
open Access (Database Answer)
open Sql (Statement)

def Work.Pooled : {u : Shape} → Work u → Prop
  | _, .call (.acquire _) | _, .call (.openSlot _) | _, .call (.openBackground _)
  | _, .call (.destroy _ _) | _, .call (.evict _) | _, .call (.reap _) | _, .call (.closePool _) => True
  | _, .back (.opened _) _ | _, .back (.registering _) _ | _, .back (.inLine _) _
  | _, .back (.openedBackground _) _ | _, .back (.destroyed _ _) _ | _, .back (.evicting _ _ _) _
  | _, .back (.rested _ _) _ | _, .back (.swept _ _) _ | _, .back (.reaperEnded _) _
  | _, .back (.draining _ _) _ | _, .back (.backgroundEnded _) _ => True
  | _, _ => False

def Work.Exchanges : {u : Shape} → Work u → Prop
  | _, .call (.lock _) => True
  | _, .back .leased _ | _, .back (.letIn _) _ | _, .back (.lockedToUse _) _
  | _, .back (.lockedToClose _) _ | _, .back (.singleClosed _) _ => True
  | _, _ => False

def Work.Disables : Route → {u : Shape} → Work u → Prop
  | .single, _, .call (.shutDown _) | .pool _ _, _, .back (.poolShut _) (.ok _) => True
  | _, _, _ => False

def Lasts (M : Nat) (way : Route) (l : State) {u : Shape} (w : Work u) (m : State) : Prop :=
  m.manager? M = l.manager? M ∨
    w.Disables way ∧ m.manager? M = (l.manager? M).map fun k => { k with database := none }

structure Does (M : Nat) (way : Route) (l : State) {u : Shape} (w : Work u) (x : State × Next u) :
    Prop where
  deed : Deed M l.engine.opened way w x.1.engine.opened x.2
  still : Still M l x.1
  lasts : Lasts M way l w x.1

structure GivesBack (M : Nat) (l : State) {u : Shape} (w : Work u) (lease : Option Lease)
    (x : State × Next u) : Prop where
  returns : w.Returns M lease
  next : ∃ o, x.2 = .give o
  still : Still M (l.giveBack M lease).1 x.1
  opened : x.1.engine.opened = (l.giveBack M lease).1.engine.opened
  managers : x.1.managers = (l.giveBack M lease).1.managers

namespace State

variable {M : Nat} {way : Route} {l m : State}

@[simp] theorem report_engine (l : State) (r : Log.Record) : (l.report r).engine = l.engine := by
  unfold report
  split <;> rfl

@[simp] theorem setContext_engine (l : State) (c : Option Log.CorrelationId) :
    (l.setContext c).engine = l.engine := by
  unfold setContext
  split <;> rfl

@[simp] theorem leaveScope_engine (l : State) (restores : Bool) :
    (l.leaveScope restores).engine = l.engine := by
  unfold leaveScope
  split
  · exact setContext_engine _ _
  · rfl

@[simp] theorem report_managers (l : State) (r : Log.Record) : (l.report r).managers = l.managers := by
  unfold report
  split <;> rfl

@[simp] theorem setContext_managers (l : State) (c : Option Log.CorrelationId) :
    (l.setContext c).managers = l.managers := by
  unfold setContext
  split <;> rfl

@[simp] theorem leaveScope_managers (l : State) (restores : Bool) :
    (l.leaveScope restores).managers = l.managers := by
  unfold leaveScope
  split
  · exact setContext_managers _ _
  · rfl

theorem lasts_of_eq {u : Shape} {w : Work u} (hm : m.managers = l.managers) : Lasts M way l w m := by
  refine .inl ?_
  rw [manager?, hm]
  rfl

theorem does {u : Shape} {w : Work u} {n : Next u} (hd : Deed M l.engine.opened way w l.engine.opened n)
    (hs : Still M l m) (he : m.engine.opened = l.engine.opened) (hm : m.managers = l.managers) :
    Does M way l w (m, n) :=
  ⟨by rw [he]; exact hd, hs, lasts_of_eq hm⟩

theorem disable_still (l : State) (M : Nat) :
    Still M l (l.modifyManager M fun k => { k with database := none }) :=
  ⟨List.forall₂_same.mpr fun _ _ => ⟨rfl, rfl, rfl⟩, rfl, rfl, rfl, rfl, _, rfl,
    fun _ => ⟨rfl, rfl, rfl⟩⟩

theorem disable_lasts {u : Shape} {w : Work u} (hw : w.Disables way) :
    Lasts M way l w (l.modifyManager M fun k => { k with database := none }) :=
  .inr ⟨hw, by simp [manager?, modifyManager]⟩

theorem endDial_does {p : Nat} {d : Database} {w : Work .handle} (fault : Option Fault)
    (hs : Still M l m) (he : m.engine.opened = l.engine.opened) (hm : m.managers = l.managers)
    (hok : Deed M l.engine.opened (.pool p d) w (l.engine.opened + 1)
      (.give (.ok (.numbered (l.engine.opened + 1)))))
    (herr : ∀ e, Deed M l.engine.opened (.pool p d) w l.engine.opened (.give (.error e))) :
    Does M (.pool p d) l w (m.endDial fault) := by
  cases fault with
  | some f => exact does (herr _) hs he hm
  | none =>
    refine ⟨?_, hs.trans (.of rfl rfl rfl rfl rfl rfl), lasts_of_eq hm⟩
    simp only [endDial, Engine.State.giveHandle, he]
    exact hok

theorem dial_does {p : Nat} {d : Database} : Does M (.pool p d) l (.call (.dial d)) (l.dial d) := by
  have ho := (l.engine.record (.open d.location.filename d.timeout)).nextOpening_spec.2.1
  unfold dial
  dsimp only
  split
  · exact does (.dialWaits p d _) (.of rfl rfl rfl rfl rfl rfl) ho rfl
  · exact endDial_does _ (.of rfl rfl rfl rfl rfl rfl) ho rfl (.dials p d) (.dialFails p d)

theorem dialled_does {p : Nat} {d : Database} (fault : Option Fault) (o : Outcome .unit) :
    Does M (.pool p d) l (.back (.dialled fault) o) (l.dialled fault o) := by
  cases o with
  | error e => exact does (.dialledFails p d fault _ e) (.refl l) rfl rfl
  | ok x => exact endDial_does fault (.refl l) rfl rfl (.dialEnds p d fault) (.dialledFails p d fault _)

theorem connected_does {p : Nat} {d : Database} (o : Outcome .handle) :
    Does M (.pool p d) l (.back (.connected d true) o) (l.connected d true o) := by
  cases o with
  | error e => exact does (.connectFails p d e _) (.refl l) rfl rfl
  | ok h => exact does (.setsForeignKeys p d h) (.refl l) rfl rfl

theorem foreignKeysSet_does {p : Nat} {d : Database} (h : Handle) (o : Outcome .cursor) :
    Does M (.pool p d) l (.back (.foreignKeysSet d h true) o) (l.foreignKeysSet d h true o) := by
  cases o with
  | error e => exact does (.foreignKeysFail p d h e) (.refl l) rfl rfl
  | ok c => exact does (.setsJournal p d h c) (.refl l) rfl rfl

theorem journalSet_does {p : Nat} {d : Database} (h : Handle) (o : Outcome .cursor) :
    Does M (.pool p d) l (.back (.journalSet d h) o) (l.journalSet d h o) := by
  cases o with
  | error e => exact does (.journalFails p d h e) (.refl l) rfl rfl
  | ok c => exact does (.connectEnds p d h c) ((Still.refl l).report _) (by simp) (by simp)

theorem run_does (d : Database) (h : Handle) (s : Statement) (k : Access.Mode) :
    Does M way l (.call (.run d h s k)) (l.run d h s k) :=
  does (.runs way d h s k l.clock) ((Still.refl l).report _) (by simp) (by simp)

theorem ran_does (d : Database) (sql : String) (k : Access.Mode) (start : Float) (o : Outcome .cursor) :
    Does M way l (.back (.ran d sql k start) o) (l.ran d sql k start o) := by
  cases o with
  | error e => exact does (.ran way d sql k start _ _) ((Still.refl l).report _) (by simp) (by simp)
  | ok c => exact does (.ran way d sql k start _ _) ((Still.refl l).report _) (by simp) (by simp)

theorem hangUp_does (h : Handle) : Does M way l (.call (.hangUp h)) (l.hangUp h) := by
  obtain ⟨e, ⟨_, ho, _⟩, ⟨fault, he⟩ | ⟨o, he⟩⟩ := l.hangUp_cases h
  · rw [he]
    exact does (.hangUpWaits way h fault) (.of rfl rfl rfl rfl rfl rfl) ho rfl
  · rw [he]
    exact does (.hangsUp way h o) (.of rfl rfl rfl rfl rfl rfl) ho rfl

theorem askedClose_does (fault : Option Fault) (o : Outcome .unit) :
    Does M way l (.back (.askedClose fault) o) (l.askedClose fault o) := by
  cases o with
  | error e => exact does (.hungUp way fault _ _) (.refl l) rfl rfl
  | ok _ => exact does (.hungUp way fault _ _) (.refl l) rfl rfl

theorem send_does (h : Handle) (s : Statement) :
    Does M way l (.call (.send h s)) (l.send h s) := by
  unfold send
  dsimp only
  split
  · exact does (.sendWaits way h s _) (.of rfl rfl rfl rfl rfl rfl) rfl rfl
  · exact does (.sendEnds way h s _) (.of rfl rfl rfl rfl rfl rfl) rfl rfl

theorem sent_does (r : Engine.Rule) (o : Outcome .unit) :
    Does M way l (.back (.sent r) o) (l.sent r o) := by
  cases o with
  | error e => exact does (.sentEnds way r _ _) (.refl l) rfl rfl
  | ok x => exact does (.sentEnds way r _ _) (.of rfl rfl rfl rfl rfl rfl) rfl rfl

theorem execute_does (s : Statement) (mode : Value) :
    Does M way l (.call (.execute M s mode)) (l.execute M s mode) := by
  unfold execute
  split
  · exact does (.executeEnds way s mode _) (.refl l) rfl rfl
  · split
    · split
      · exact does (.executeEnds way s mode _) (.refl l) rfl rfl
      · exact does (.executes way s _ mode _) (Still.refl l).enterScope (by simp) (by simp)
    · exact does (.executeEnds way s mode _) ((Still.refl l).report _) (by simp) (by simp)

theorem executeAll_does (ss : List Statement) (mode : Value) :
    Does M way l (.call (.executeAll M ss mode)) (l.executeAll M ss mode) := by
  unfold executeAll
  split
  · exact does (.batchEnds way ss mode _) (.refl l) rfl rfl
  · split
    · split
      · exact does (.batchEnds way ss mode _) (.refl l) rfl rfl
      · exact does (.batches way ss _ mode _) (Still.refl l).enterScope (by simp) (by simp)
    · exact does (.batchEnds way ss mode _) ((Still.refl l).report _) (by simp) (by simp)

theorem borrow_does (h : l.Takes M way) : Does M way l (.call (.borrow M)) (l.borrow M) := by
  cases way with
  | pool p d =>
    obtain ⟨⟨k, hk, hp, _⟩, _⟩ := h
    obtain ⟨database, pool, single, lock⟩ := k
    cases hp
    simp only [borrow, hk]
    exact does (.borrowsPooled p d) (.refl l) rfl rfl
  | single =>
    obtain ⟨k, hk, hp⟩ := h
    obtain ⟨database, pool, single, lock⟩ := k
    cases hp
    simp only [borrow, hk]
    cases single with
    | none => exact does .borrowsNone (.refl l) rfl rfl
    | some id => exact does .borrowsSingle (.refl l) rfl rfl

theorem shutDown_does (h : l.Takes M way) : Does M way l (.call (.shutDown M)) (l.shutDown M) := by
  cases way with
  | pool p d =>
    obtain ⟨⟨k, hk, hp, _⟩, _⟩ := h
    simp only [shutDown, hk, Option.bind_some, hp]
    exact does (.shutsPool p d) (.refl l) rfl rfl
  | single =>
    obtain ⟨k, hk, hp⟩ := h
    simp only [shutDown, hk, Option.bind_some, hp, shutSingle]
    split
    · exact does .shutsSingle (.refl l) rfl rfl
    · exact ⟨.shutsNothing _, disable_still l M, disable_lasts trivial⟩

theorem poolShut_does {p : Nat} {d : Database} (h : l.Takes M (.pool p d)) (o : Outcome .unit) :
    Does M (.pool p d) l (.back (.poolShut M) o) (l.poolShut M o) := by
  obtain ⟨⟨k, hk, _, hs⟩, _⟩ := h
  cases o with
  | error e => exact does (.poolShut p d _ _) (.refl l) rfl rfl
  | ok x =>
    simp only [poolShut, shutSingle, hk, hs, Option.isSome_none, Bool.false_and]
    exact ⟨.poolShut p d _ _, disable_still l M, disable_lasts trivial⟩

theorem withinLeft_does (fail : Bool) (o : Outcome .unit) :
    Does M way l (.back (.withinLeft fail) o) (l.withinLeft fail o) := by
  cases o with
  | error e => exact does (.left way fail _ _) (.refl l) rfl rfl
  | ok x => exact does (.left way fail _ _) (.refl l) rfl rfl

theorem endBlock_eq {s : Shape} (l : State) (M : Nat) (lease : Option Lease) (o : Outcome s) :
    ∃ o', l.endBlock M lease o = ((l.giveBack M lease).1, o') := by
  unfold endBlock
  rcases l.giveBack M lease with ⟨m, e | x⟩
  · exact ⟨_, rfl⟩
  · exact ⟨_, rfl⟩

theorem endBlock_gives {s : Shape} {w : Work s} {lease : Option Lease} (o : Outcome s)
    (hw : w.Returns M lease) :
    GivesBack M l w lease ((l.endBlock M lease o).1, .give (l.endBlock M lease o).2) := by
  obtain ⟨o', h⟩ := l.endBlock_eq M lease o
  rw [h]
  exact ⟨hw, ⟨o', rfl⟩, .refl _, rfl, rfl⟩

theorem endCall_gives {s : Shape} {w : Work s} {lease : Option Lease} (restores : Bool) (o : Outcome s)
    (hw : w.Returns M lease) : GivesBack M l w lease (l.endCall M lease restores o) := by
  obtain ⟨o', h⟩ := l.endBlock_eq M lease o
  rw [endCall, h]
  exact ⟨hw, ⟨o', rfl⟩, (Still.refl _).leaveScope restores, by simp, by simp⟩

theorem target?_some {lease : Option Lease} {x : Database × Lease} (h : l.target? M lease = some x) :
    lease = some x.2 := by
  obtain ⟨d, c⟩ := x
  simp only [target?, Option.bind_eq_bind, Option.bind_eq_some_iff] at h
  obtain ⟨k, _, d', _, c', hc, he⟩ := h
  cases he
  exact hc

theorem executing_does (s : Statement) (k : Access.Mode) (restores : Bool) (o : Outcome .borrowed) :
    Does M way l (.back (.executing M s k restores) o) (l.executing M s k restores o) ∨
      ∃ lease, GivesBack M l (.back (.executing M s k restores) o) lease
        (l.executing M s k restores o) := by
  cases o with
  | error e => exact .inl (does (.executingFails way s k restores e) ((Still.refl l).leaveScope _) (by simp) (by simp))
  | ok lease =>
    simp only [executing]
    cases ht : l.target? M lease with
    | none => exact .inr ⟨lease, endCall_gives restores _ (.executing s k restores lease)⟩
    | some x =>
      obtain rfl := target?_some ht
      exact .inl (does (.executingRuns way x.2 x.1 s k restores) (.refl l) rfl rfl)

theorem batching_does (ss : List Statement) (k : Access.Mode) (restores : Bool) (o : Outcome .borrowed) :
    Does M way l (.back (.batching M ss k restores) o) (l.batching M ss k restores o) ∨
      ∃ lease, GivesBack M l (.back (.batching M ss k restores) o) lease
        (l.batching M ss k restores o) := by
  cases o with
  | error e => exact .inl (does (.batchingFails way ss k restores e) ((Still.refl l).leaveScope _) (by simp) (by simp))
  | ok lease =>
    cases ss with
    | nil => exact .inr ⟨lease, endCall_gives restores _ (.batching [] k restores lease)⟩
    | cons s rest =>
      simp only [batching, batchFrom]
      cases ht : l.target? M lease with
      | none => exact .inr ⟨lease, endCall_gives restores _ (.batching (s :: rest) k restores lease)⟩
      | some x =>
        obtain rfl := target?_some ht
        exact .inl (does (.batchingRuns way x.2 x.1 s rest k restores) (.refl l) rfl rfl)

theorem batched_does (lease : Option Lease) (rest : List Statement) (k : Access.Mode)
    (done : List Answer) (restores : Bool) (o : Outcome .answer) :
    Does M way l (.back (.batched M lease rest k done restores) o)
        (l.batched M lease rest k done restores o) ∨
      GivesBack M l (.back (.batched M lease rest k done restores) o) lease
        (l.batched M lease rest k done restores o) := by
  cases o with
  | error e => exact .inr (endCall_gives restores _ (.batched lease rest k done restores _))
  | ok a =>
    cases rest with
    | nil => exact .inr (endCall_gives restores _ (.batched lease [] k done restores _))
    | cons s rest =>
      simp only [batched, batchFrom]
      cases ht : l.target? M lease with
      | none => exact .inr (endCall_gives restores _ (.batched lease (s :: rest) k done restores _))
      | some x =>
        obtain rfl := target?_some ht
        exact .inl (does (.batchedRuns way x.2 x.1 s rest k done a restores) (.refl l) rfl rfl)

theorem blockEntered_does (hold fail : Bool) (o : Outcome .borrowed) :
    Does M way l (.back (.blockEntered M hold fail) o) (l.blockEntered M hold fail o) ∨
      ∃ lease, GivesBack M l (.back (.blockEntered M hold fail) o) lease
        (l.blockEntered M hold fail o) := by
  cases o with
  | error e => exact .inl (does (.blockFails way hold fail e) (.refl l) rfl rfl)
  | ok lease =>
    simp only [blockEntered]
    split
    · exact .inl (does (.blockHolds way lease hold fail) (.of rfl rfl rfl rfl rfl rfl) rfl rfl)
    · exact .inr ⟨lease, endBlock_gives _ (.blockEntered hold fail lease)⟩

theorem blockHeld_gives (lease : Option Lease) (fail : Bool) (o : Outcome .unit) :
    GivesBack M l (.back (.blockHeld M lease fail) o) lease (l.blockHeld M lease fail o) := by
  cases o with
  | error e => exact endBlock_gives _ (.blockHeld lease fail _)
  | ok x => exact endBlock_gives _ (.blockHeld lease fail _)

end State

variable {M : Nat} {way : Route} {l : State}

theorem Work.perform_does {u : Shape} {w : Work u} {d : Call u} {k : Stack u}
    (hw : w.PartOf M way d) (hk : k.Bears M way d) (h : l.Takes M way) (hp : ¬ w.Pooled) (hx : ¬ w.Exchanges) :
    Does M way l w (w.perform l) ∨ ∃ lease, GivesBack M l w lease (w.perform l) := by
  cases hw with
  | call c =>
    cases hk with
    | done hs =>
      cases hs with
      | execute _ s mode => exact .inl (State.execute_does s mode)
      | executeAll _ ss mode => exact .inl (State.executeAll_does ss mode)
      | block _ hold fail => exact .inl (State.does (.blocks way hold fail) (.refl l) rfl rfl)
      | borrow => exact .inl (State.borrow_does h)
      | shutDown => exact .inl (State.shutDown_does h)
      | within _ fail => exact .inl (State.does (.leaves way fail) (.refl l) rfl rfl)
      | run _ d h s m => exact .inl (State.run_does d h s m)
      | evict | reap | openBackground | destroy => exact absurd trivial hp
    | push hf _ =>
      cases hf with
      | opened | openedBackground | evicting | swept | draining | leased | poolShut =>
        exact absurd trivial hp
      | lockedToUse | lockedToClose => exact absurd trivial hx
      | registering p d => exact .inl (State.does (.connects p d) (.refl l) rfl rfl)
      | destroyed _ _ _ c => exact .inl (State.hangUp_does c)
      | singleClosed c => exact .inl (State.hangUp_does c)
      | connected p d => exact .inl State.dial_does
      | foreignKeysSet p d c => exact .inl (State.send_does c _)
      | journalSet p d c => exact .inl (State.send_does c _)
      | ran _ d h s m start => exact .inl (State.send_does h s)
      | executing | batching | blockEntered => exact .inl (State.borrow_does h)
      | executed _ c d s _ m => exact .inl (State.run_does d c.handle s m)
      | batched _ c d s _ _ m => exact .inl (State.run_does d c.handle s m)
      | withinLeft => exact .inl (State.shutDown_does h)
  | back o hf =>
    cases hf with
    | start hs =>
      cases o with
      | ok x => exact .inl (State.does (.starts way d) (.refl l) rfl rfl)
      | error e => exact .inl (State.does (.neverStarts way d e) (.refl l) rfl rfl)
    | called hf =>
      cases hf with
      | opened | registering | openedBackground | destroyed | evicting | swept | draining =>
        exact absurd trivial hp
      | leased | lockedToUse | lockedToClose | singleClosed => exact absurd trivial hx
      | connected p d => exact .inl (State.connected_does o)
      | foreignKeysSet p d c => exact .inl (State.foreignKeysSet_does c o)
      | journalSet p d c => exact .inl (State.journalSet_does c o)
      | ran _ d h s m start => exact .inl (State.ran_does d s.sql m start o)
      | executing _ s m _ restores => exact State.executing_does s m restores o
      | executed _ c _ _ _ _ _ restores =>
        exact .inr ⟨_, State.endCall_gives restores _ (.executed (some c) restores o)⟩
      | batching _ ss m _ restores => exact State.batching_does ss m restores o
      | batched _ c _ _ rest _ m _ done restores =>
        exact (State.batched_does (some c) rest m done restores o).imp_right fun hg => ⟨_, hg⟩
      | blockEntered _ hold fail => exact State.blockEntered_does hold fail o
      | poolShut p d => exact .inl (State.poolShut_does h o)
      | withinLeft _ fail => exact .inl (State.withinLeft_does fail o)
    | paused hf =>
      cases hf with
      | turn | givenUp | sleep | task | tasks => exact absurd trivial hp
      | letIn => exact absurd trivial hx
      | dialled p d fault => exact .inl (State.dialled_does fault o)
      | sent _ r h s => exact .inl (State.sent_does r o)
      | asked _ fault => exact .inl (State.askedClose_does fault o)
      | blockHeld _ lease hold fail => exact .inr ⟨lease, State.blockHeld_gives lease fail o⟩

end SqliteAccess.Loop
