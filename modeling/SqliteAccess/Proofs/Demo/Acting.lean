import SqliteAccess.Proofs.Demo.Terms

/-!
Every step of the demonstration keeps to the terms of the call that it is a step of.
-/

namespace SqliteAccess.Loop

open Access (Database Mode)
open SqliteAccess.Pool (Handle Lease)
open Sql (Statement)

variable {l m : State} {φ ψ : Phase} {d : Database} {x y : Stock} {u v : Shape} {Q : Terms u} {Q' : Terms v}
  {first : Prop} {id : Nat} {since now : Float}

namespace Stock

theorem growth (d : Database) (x : Stock) : (x.pool d).growth = .ok 0 := by cases x <;> rfl

theorem shortfall (d : Database) (hx : x.handles = 1 ∨ x.Busy) : (x.pool d).shortfall = .ok 0 := by
  rcases hx with hx | hx
  · cases x <;> first | rfl | cases hx
  · cases hx <;> rfl

theorem takeIdle? (d : Database) :
    ((rests id since).pool d).takeIdle? = some ((lent id since).pool d, id) := by
  simp [Pool.State.takeIdle?, Pool.State.checkout, Pool.State.update, pool, idle, connections, pending, started,
    shut, reaper]

theorem register (d : Database) :
    (opened.pool d).freeSlot.register id onlyHandle now = (made id now).pool d := rfl

theorem checkout (d : Database) : ((made id since).pool d).checkout id = (lent id since).pool d := by
  simp [Pool.State.checkout, Pool.State.update, pool, idle, connections, pending, started, shut, reaper]

theorem checkRelease (d : Database) : ((lent id since).pool d).checkRelease id = .ok () := by
  simp [Pool.State.checkRelease, Pool.State.find?, pool, connections]

theorem checkin (d : Database) :
    ((lent id since).pool d).checkin id now = ((rests id now).pool d, none) := by
  simp [Pool.State.checkin, Pool.nextWaiter, Pool.State.rest, Pool.State.update, pool, idle, connections, pending,
    started, shut, reaper]

theorem remove? (d : Database) :
    ((leaving id since).pool d).remove? id = some ((parted id since).pool d, onlyHandle) := by
  simp [Pool.State.remove?, Pool.State.find?, Pool.State.update, pool, idle, connections, pending, started, shut,
    reaper]

end Stock

namespace State.Stands

theorem growThen (h : l.Stands (.up d x)) (o : Outcome u) : l.growThen 0 o = (l, .give o) := by
  simp [State.growThen, State.grow, h.pool, Stock.growth, State.spawnOpens]

theorem ensureMinimum (h : l.Stands (.up d x)) (hx : x.handles = 1 ∨ x.Busy) : l.ensureMinimum 0 = (l, .ok ()) := by
  simp [State.ensureMinimum, h.pool, Stock.shortfall d hx, State.spawnOpens]

end State.Stands

theorem State.openSlot_honours (h : l.Plays (.up d .asked)) :
    (l.openSlot 0).2.Honours (.fills d) (l.openSlot 0).1 := by
  simp only [State.openSlot, h.pool, Stock.pool]
  exact ⟨_, _, h, .connect d, .registering d⟩

theorem State.registering_honours {o : Outcome .handle} (h : l.Plays φ) (ho : Terms.dials d o φ) :
    (l.registering 0 o).2.Honours (.fills d) (l.registering 0 o).1 := by
  cases o with
  | error e =>
    cases ho
    exact ⟨_, h.setPool (y := .lost) rfl rfl rfl rfl, rfl⟩
  | ok g =>
    obtain ⟨rfl, rfl⟩ := ho
    have hp : (State.modifyPool { l.modifyPool 0 Pool.State.freeSlot with nextConnection := l.nextConnection + 1 } 0
        fun s => s.register l.nextConnection onlyHandle l.clock).Plays (.up d (.made l.nextConnection l.clock)) := by
      refine ⟨⟨h.managers, ?_, h.opened, h.closes, h.spares⟩, h.current, h.tasks⟩
      simp [State.modifyPool, h.pools, Phase.pools, Stock.register]
    have hq := hp.pool
    unfold State.registering
    dsimp only [State.modifyPool] at hq ⊢
    rw [hq]
    dsimp only
    exact ⟨_, hp.report _, _, _, rfl, rfl⟩

theorem State.opened_honours {o : Outcome .lease} (hf : first) (h : l.Plays φ) (ho : Terms.fills d o φ) :
    (l.opened 0 o).2.Honours (.leases d first) (l.opened 0 o).1 := by
  cases o with
  | error e =>
    cases ho
    rw [State.opened, h.growThen]
    exact ⟨_, h, hf, rfl⟩
  | ok c =>
    obtain ⟨id, since, rfl, rfl⟩ := ho
    rw [State.opened, h.ensureMinimum (.inl rfl)]
    exact ⟨_, h.setPool (y := .lent id since) (Stock.checkout d) rfl rfl rfl, id, since, rfl, rfl⟩

def State.sweepTask (l : State) : Task :=
  { status := .ready none (.push (.start (.reap 0)) (.done .unit)), context := l.context }

theorem State.startPool_plays (h : l.Plays (.up d .untouched)) :
    ((l.startPool 0 (Stock.untouched.pool d)).modifyPool 0 Pool.State.reserve).Plays (.up d .asked) := by
  obtain ⟨k, ts, ht, hk, hts⟩ := h.tasks
  cases hts
  have hlen : l.tasks.length = 1 := by rw [ht]; rfl
  refine ⟨⟨h.managers, ?_, h.opened, h.closes, h.spares⟩, h.current, k, [l.sweepTask], ?_, hk, l.sweepTask, rfl,
    ⟨rfl, rfl⟩, .ready rfl .starts⟩
  · simp only [State.startPool, Stock.pool, Stock.started, State.spawn, State.enqueue, State.modifyPool, h.pools,
      Phase.pools, hlen]
    rfl
  · simp only [State.startPool, Stock.pool, Stock.started, State.spawn, State.enqueue, State.modifyPool, ht]
    rfl

theorem State.acquire_honours (h : l.Plays (.up d x)) (hx : x.Ready first) :
    (l.acquire 0).2.Honours (.leases d first) (l.acquire 0).1 := by
  cases hx with
  | untouched hf =>
    have hs := State.startPool_plays h
    have hq : (l.startPool 0 (Stock.untouched.pool d)).pool? 0 =
        some { Stock.untouched.pool d with started := true, reaper := some l.tasks.length } := by
      simp [State.startPool, Stock.pool, Stock.started, State.spawn, State.enqueue, State.modifyPool, State.pool?,
        h.pools, Phase.pools]
    have ha : l.acquire 0 = ((l.startPool 0 (Stock.untouched.pool d)).modifyPool 0 Pool.State.reserve,
        .call (.openSlot 0) (.opened 0)) := by
      simp only [State.acquire, h.pool, hq]
      rfl
    rw [ha]
    exact ⟨_, _, hs, .openSlot d, .opened d hf⟩
  | rests id since =>
    have hl := h.setPool (y := .lent id since) (f := fun _ => (Stock.lent id since).pool d) rfl rfl rfl rfl
    have ha : l.acquire 0 = (l.modifyPool 0 fun _ => (Stock.lent id since).pool d, .give (.ok (onlyLease id))) := by
      have hs : l.startPool 0 ((Stock.rests id since).pool d) = l := rfl
      have ht : (l.pool? 0).bind Pool.State.takeIdle? = some ((Stock.lent id since).pool d, id) := by
        rw [h.pool]
        exact Stock.takeIdle? d
      have hlease : (l.modifyPool 0 fun _ => (Stock.lent id since).pool d).leaseOf 0 id = onlyLease id := by
        rw [State.leaseOf, hl.pool]
        simp [Stock.pool, Pool.State.everFind?, Stock.connections, Pool.Connection.lease, onlyLease]
      simp only [State.acquire, h.pool, hs]
      rw [h.pool] at ht
      simp only [ht, hlease]
      rfl
    rw [ha]
    exact ⟨_, hl, id, since, rfl, rfl⟩

theorem State.borrow_honours (h : l.Plays (.up d x)) (hx : x.Ready first) :
    (l.borrow 0).2.Honours (.borrows d first) (l.borrow 0).1 := by
  simp only [State.borrow, h.manager]
  exact ⟨_, _, h, .acquire d hx, .leased d first⟩

theorem State.leased_honours {o : Outcome .lease} (h : l.Plays φ) (ho : Terms.leases d first o φ) :
    (l.leased o).2.Honours (.borrows d first) (l.leased o).1 := by
  cases o with
  | error => exact ⟨_, h, ho⟩
  | ok => exact ⟨_, h, ho⟩

theorem State.endCall_honours (h : l.Plays (.up d (.lent id since))) (restores : Bool) (o : Outcome u) :
    (l.endCall 0 (some (onlyLease id)) restores o).2.Honours (.settles d first)
      (l.endCall 0 (some (onlyLease id)) restores o).1 := by
  have hr := h.setPool (y := .rests id l.clock) (f := fun _ => (Stock.rests id l.clock).pool d) rfl rfl rfl rfl
  have he : l.endCall 0 (some (onlyLease id)) restores o =
      ((l.modifyPool 0 fun _ => (Stock.rests id l.clock).pool d).leaveScope restores, .give o) := by
    have hc : l.checkin 0 id = l.modifyPool 0 fun _ => (Stock.rests id l.clock).pool d := by
      simp only [State.checkin, h.pool, Stock.checkin]
    have hrel : l.release 0 id = (l.checkin 0 id, .ok ()) := by
      simp only [State.release, h.pool, Stock.checkRelease]
      rfl
    simp only [State.endCall, State.endBlock, State.giveBack, h.manager, Option.bind_some, onlyLease, hrel, hc]
  rw [he]
  exact ⟨_, hr.leaveScope restores, Terms.settles_of_rests d first o id l.clock⟩

theorem State.target?_of_lent (h : l.Plays (.up d x)) (c : Lease) : l.target? 0 (some c) = some (d, c) := by
  simp [State.target?, h.manager]

theorem State.execute_honours (h : l.Plays (.up d x)) (hx : x.Ready first) (s : Statement) {mode : Value}
    (hm : ∃ k, Mode.ofValue mode = .ok k) :
    (l.execute 0 s mode).2.Honours (.settles d first) (l.execute 0 s mode).1 := by
  obtain ⟨k, hm⟩ := hm
  simp only [State.execute, h.manager, Access.Manager.enabled, Option.isSome_some, if_true, hm]
  exact ⟨_, _, h.enterScope, .borrow d hx, .executing d first s k _⟩

theorem State.executing_honours {o : Outcome .borrowed} (h : l.Plays φ) (ho : Terms.borrows d first o φ)
    (s : Statement) (k : Mode) (restores : Bool) :
    (l.executing 0 s k restores o).2.Honours (.settles d first) (l.executing 0 s k restores o).1 := by
  match o with
  | .error e => exact ⟨_, h.leaveScope restores, .inr ho⟩
  | .ok none => exact ho.elim
  | .ok (some c) =>
    obtain ⟨id, since, rfl, rfl⟩ := ho
    simp only [State.executing, State.target?_of_lent h]
    exact ⟨_, _, h, .run d id since d _ s k, .executed d first id since restores⟩

theorem State.executeAll_honours (h : l.Plays (.up d x)) (hx : x.Ready first) (ss : List Statement) {mode : Value}
    (hm : ∃ k, Mode.ofValue mode = .ok k) :
    (l.executeAll 0 ss mode).2.Honours (.settles d first) (l.executeAll 0 ss mode).1 := by
  obtain ⟨k, hm⟩ := hm
  simp only [State.executeAll, h.manager, Access.Manager.enabled, Option.isSome_some, if_true, hm]
  exact ⟨_, _, h.enterScope, .borrow d hx, .batching d first ss k _⟩

theorem State.batchFrom_honours (h : l.Plays (.up d (.lent id since))) (k : Mode) (done : List Access.Answer)
    (restores : Bool) (ss : List Statement) :
    (l.batchFrom 0 (some (onlyLease id)) k done restores ss).2.Honours (.settles d first)
      (l.batchFrom 0 (some (onlyLease id)) k done restores ss).1 := by
  cases ss with
  | nil => exact State.endCall_honours h restores _
  | cons s rest =>
    simp only [State.batchFrom, State.target?_of_lent h]
    exact ⟨_, _, h, .run d id since d _ s k, .batched d first id since rest k done restores⟩

theorem State.batching_honours {o : Outcome .borrowed} (h : l.Plays φ) (ho : Terms.borrows d first o φ)
    (ss : List Statement) (k : Mode) (restores : Bool) :
    (l.batching 0 ss k restores o).2.Honours (.settles d first) (l.batching 0 ss k restores o).1 := by
  match o with
  | .error e => exact ⟨_, h.leaveScope restores, .inr ho⟩
  | .ok none => exact ho.elim
  | .ok (some c) =>
    obtain ⟨id, since, rfl, rfl⟩ := ho
    exact State.batchFrom_honours h k [] restores ss

theorem State.build_honours (h : l.Plays (.up d (.rests id since))) (w : Sql.Writer) (b : Schema.Blueprint)
    (changes : List Schema.Revision) :
    (l.build 0 w b changes).2.Honours (.settles d first) (l.build 0 w b changes).1 := by
  unfold State.build
  split
  · exact ⟨_, h, Terms.settles_of_rests d first _ id since⟩
  · dsimp only
    split
    · exact ⟨_, h.reportAll _, Terms.settles_of_rests d first _ id since⟩
    · dsimp only
      exact ⟨_, _, (h.reportAll _).report _, .executeAll d _ _ (.rests id since) ⟨.read, rfl⟩, .built d first _⟩

theorem State.usePool_plays (h : l.Plays .bare) (d : Database) :
    ((l.modifyManager 0 fun k => { k with database := some d }).usePool 0 d Demo.settings).Plays
      (.up d .untouched) := by
  unfold State.usePool
  dsimp only
  refine State.Plays.report ?_ _
  refine ⟨⟨?_, ?_, h.opened, h.closes, h.spares⟩, h.current, h.tasks⟩
  · simp [State.modifyManager, h.managers, h.pools, Phase.managers, Phase.pools]
  · simp [State.modifyManager, h.pools, Phase.pools]
    rfl

theorem State.setUp_honours (h : l.Plays .bare) (location : Config.Location) :
    (l.setUp 0 (some location) (.pooled Demo.settings)).2.Honours
      (fun o ψ => o = .ok 0 ∧ ψ = .up { location } .untouched)
      (l.setUp 0 (some location) (.pooled Demo.settings)).1 := by
  have hm : l.manager? 0 = some {} := by simp [State.manager?, h.managers, Phase.managers]
  simp only [State.setUp, hm]
  exact ⟨_, State.usePool_plays h { location }, rfl, rfl⟩

theorem State.destroy_honours (h : l.Plays (.up d (.leaving id since))) :
    (l.destroy 0 id).2.Honours (.succeeds (.up d (.closed id since))) (l.destroy 0 id).1 := by
  simp only [State.destroy, h.pool, Stock.remove?]
  exact ⟨_, _, h.setPool (y := .parted id since) rfl rfl rfl rfl, .hangUp d id since, .destroyed d id since⟩

theorem State.hangUp_honours (h : l.Plays (.up d (.parted id since))) :
    (l.hangUp onlyHandle).2.Honours (.succeeds (.up d (.closed id since))) (l.hangUp onlyHandle).1 := by
  have hc : l.engine.closes = [] := h.closes
  have hclosed : (l.engine.record (.close onlyHandle)).closes = [onlyHandle] :=
    (l.engine.closes_record_close onlyHandle).trans (by rw [hc]; rfl)
  obtain ⟨hr, ho, _⟩ := (l.engine.record (.close onlyHandle)).nextClosing_spec
  obtain ⟨hfault, hspares⟩ :=
    Lenient.nextClosing (e := l.engine.record (.close onlyHandle)) ⟨h.spares.rules, h.spares.closings⟩
  have he : ∀ held,
      ({ l with engine := { (l.engine.record (.close onlyHandle)).nextClosing.2 with held } } : State).Plays
        (.up d (.closed id since)) := by
    refine fun _ => ⟨⟨h.managers, h.pools, ho.trans h.opened, ?_, hspares.rules, hspares.closings⟩, h.current, h.tasks⟩
    exact (congrArg (List.filterMap Engine.Request.closes?) hr).trans hclosed
  unfold State.hangUp
  dsimp only
  rw [hfault]
  split
  · exact ⟨_, _, he _, .held d (.closed id since), .askedClose d id since⟩
  · exact ⟨_, he _, ⟨(), rfl⟩, rfl⟩

theorem State.drainFrom_honours (h : l.Plays (.up d (.closed id since))) :
    (l.drainFrom 0 []).2.Honours (.succeeds (.up d (.closed id since))) (l.drainFrom 0 []).1 := by
  have hd : l.drainFrom 0 [] = l.endClose 0 := by
    simp only [State.drainFrom, h.pool]
    rfl
  rw [hd, State.endClose]
  dsimp only
  exact ⟨_, h.report _, ⟨(), rfl⟩, rfl⟩

theorem State.clearLine_honours (h : l.Plays (.up d (.swept id since))) :
    (l.clearLine 0).2.Honours (.succeeds (.up d (.closed id since))) (l.clearLine 0).1 := by
  have hp := h.setPool (y := .leaving id since) (f := fun _ => (Stock.leaving id since).pool d) rfl rfl rfl rfl
  simp only [State.clearLine, h.pool]
  exact ⟨_, _, hp, .destroy d id since, .draining d id since⟩

theorem State.cancel_sweep {a b : Task} (ht : l.tasks = [a, b]) (hb : b.Sweeps) :
    ∃ b', (l.cancel 1).tasks = [a, b'] ∧ b'.followers = b.followers ∧
      (∃ signal st, b'.status = .ready signal st ∧ SweepStack st ∧
        (b'.cancelRequested = true ∨ signal = some .cancelled)) ∧
      (l.cancel 1).managers = l.managers ∧ (l.cancel 1).pools = l.pools ∧ (l.cancel 1).engine = l.engine ∧
      (l.cancel 1).running = l.running := by
  have hone : l.tasks[1]? = some b := by rw [ht]; rfl
  have hlen : l.tasks.length = 2 := by rw [ht]; rfl
  cases hb with
  | @ready st hs hst =>
    have hc : l.cancel 1 = l.requestCancel 1 := by
      rw [State.cancel, hlen, State.cancelWithin, hone]
      dsimp only
      rw [hs]
    rw [hc]
    exact ⟨{ b with cancelRequested := true }, by simp [State.requestCancel, State.modifyTask, ht], rfl,
      ⟨none, st, hs, hst, .inl rfl⟩, rfl, rfl, rfl, rfl⟩
  | @asleep n st hs hst =>
    have hw : (l.dropTimer n).tasks[1]? = some b := hone
    have hc : l.cancel 1 = (l.dropTimer n).wake 1 (some .cancelled) := by
      rw [State.cancel, hlen, State.cancelWithin, hone]
      dsimp only
      rw [hs]
      dsimp only [State.abandonWait]
      rw [State.wakeInLine, hw]
      obtain ⟨status, context, cancelRequested, followers⟩ := b
      cases hs
      rfl
    rw [hc, State.wake_of_paused hw hs]
    exact ⟨{ b with status := .ready (some .cancelled) st },
      by simp [State.enqueue, State.modifyTask, State.dropTimer, ht], rfl, ⟨_, st, rfl, hst, .inr rfl⟩,
      rfl, rfl, rfl, rfl⟩

theorem State.closePool_honours (h : l.Plays (.up d (.rests id since))) :
    (l.closePool 0).2.Honours (.succeeds (.up d (.closed id since))) (l.closePool 0).1 := by
  obtain ⟨a, ts, ht, ha, b, rfl, hb, hs⟩ := h.tasks
  have hp : (l.modifyPool 0 fun s => { s with closed := true }).Stands (.up d (.closing id since)) := by
    refine ⟨h.managers, ?_, h.opened, h.closes, h.spares⟩
    simp only [State.modifyPool, h.pools, Phase.pools]
    rfl
  obtain ⟨b', htasks, hf, ⟨signal, st, hb', hst, hcan⟩, hm, hpools, he, hr⟩ :=
    State.cancel_sweep (l := l.modifyPool 0 fun s => { s with closed := true }) ht hs
  have hcur : (State.cancel (l.modifyPool 0 fun s => { s with closed := true }) 1).current? = some 0 := by
    rw [State.current?, hr]
    exact h.current
  have hfin : (State.cancel (l.modifyPool 0 fun s => { s with closed := true }) 1).isFinished 1 = false := by
    obtain ⟨status, context, cancelRequested, followers⟩ := b'
    cases hb'
    simp [State.isFinished, htasks]
  have hc : l.closePool 0 = ((State.cancel (l.modifyPool 0 fun s => { s with closed := true }) 1).modifyTask 1
      fun k => { k with followers := k.followers ++ [.resume 0] }, .pause (.task 1) (.reaperEnded 0)) := by
    simp only [State.closePool, h.pool, Stock.pool, Stock.shut, Stock.reaper, hfin, State.currentTask, hcur]
    rfl
  rw [hc]
  refine ⟨.up d (.closing id since), _, ⟨?_, hcur, a, _, ?_, ha, { b' with followers := b'.followers ++ [.resume 0] },
    rfl, ⟨signal, st, hb', hst, hcan⟩, ?_⟩, .task d id since, .reaperEnded d id since⟩
  · exact hp.of hm hpools (by rw [State.modifyTask, he]) (by rw [State.modifyTask, he]) (he ▸ hp.spares)
  · simp [State.modifyTask, htasks]
  · rw [hf, hb.followers]
    rfl

theorem State.shutDown_honours (h : l.Plays (.up d (.rests id since))) :
    (l.shutDown 0).2.Honours (.succeeds (.down d id since)) (l.shutDown 0).1 := by
  simp only [State.shutDown, h.manager, Option.bind_some]
  exact ⟨_, _, h, .closePool d id since, .poolShut d id since⟩

theorem State.poolShut_honours (h : l.Plays (.up d (.closed id since))) :
    (l.poolShut 0 (.ok ())).2.Honours (.succeeds (.down d id since)) (l.poolShut 0 (.ok ())).1 := by
  have he : l.poolShut 0 (.ok ()) =
      (l.modifyManager 0 fun k => { k with database := none }, .give (.ok ())) := by
    simp only [State.poolShut, State.shutSingle, h.manager]
    rfl
  rw [he]
  refine ⟨.down d id since, ⟨⟨?_, h.pools, h.opened, h.closes, h.spares⟩, h.current, h.tasks⟩, ⟨(), rfl⟩, rfl⟩
  simp [State.modifyManager, h.managers, Phase.managers]

theorem State.bootstrap_honours (h : l.Plays .blank) (url : String) :
    (l.bootstrap url).2.Honours .boots (l.bootstrap url).1 := by
  have hlen : l.managers.length = 0 := by rw [h.managers]; rfl
  unfold State.bootstrap
  dsimp only
  split
  · exact ⟨_, h, .blank⟩
  next location _ =>
    rw [hlen]
    refine ⟨.bare, _, ⟨⟨?_, h.pools, h.opened, h.closes, h.spares⟩, h.current, h.tasks⟩, .setUp location,
      .started { location }⟩
    simp [h.managers, Phase.managers]

theorem State.seed_honours (h : l.Plays (.up d (.rests id since))) :
    (l.seed 0).2.Honours (.settles d False) (l.seed 0).1 := by
  unfold State.seed
  split
  · exact ⟨_, h, .inl ⟨id, since, rfl⟩⟩
  next s _ => exact ⟨_, _, h, .execute d s _ (.rests id since) ⟨.insert, rfl⟩, .writersWritten d⟩

theorem Terms.settles.map {o : Outcome v} (ho : settles d first o φ) (f : v.Content → u.Content) :
    settles d first (o.map f : Outcome u) φ := by
  cases o with
  | error => exact ho
  | ok => exact ho

theorem Terms.settles.forsaken {e : Failure} (ho : settles d first (.error e : Outcome u) φ) : φ.Forsaken := by
  rcases ho with ⟨id, since, rfl⟩ | ⟨_, rfl⟩
  · exact .rests d id since
  · exact .lost d

theorem State.started_honours (h : l.Plays (.up d .untouched)) :
    (l.started 0 (.ok 0)).2.Honours .boots (l.started 0 (.ok 0)).1 :=
  ⟨_, .settles d True, h, .hasTable d _ (.untouched trivial), .tableKnown d True⟩

theorem State.tableKnown_honours {o : Outcome .flag} (h : l.Plays φ) (ho : Terms.settles d first o φ) :
    (l.tableKnown 0 o).2.Honours .boots (l.tableKnown 0 o).1 := by
  cases o with
  | error e => exact ⟨_, h, ho.forsaken⟩
  | ok found =>
    obtain ⟨id, since, rfl⟩ := ho
    cases found with
    | true => exact ⟨_, h, rfl, d, id, since, rfl⟩
    | false => exact ⟨_, .settles d False, h, .build d id since _ _ _, .writersMade d False⟩

theorem State.writersMade_honours {o : Outcome .statements} (h : l.Plays φ) (ho : Terms.settles d first o φ) :
    (l.writersMade 0 o).2.Honours .boots (l.writersMade 0 o).1 := by
  cases o with
  | error e => exact ⟨_, h, ho.forsaken⟩
  | ok =>
    obtain ⟨id, since, rfl⟩ := ho
    exact ⟨_, .settles d False, h, .build d id since _ _ _, .booksMade d False⟩

theorem State.booksMade_honours {o : Outcome .statements} (h : l.Plays φ) (ho : Terms.settles d first o φ) :
    (l.booksMade 0 o).2.Honours .boots (l.booksMade 0 o).1 := by
  cases o with
  | error e => exact ⟨_, h, ho.forsaken⟩
  | ok =>
    obtain ⟨id, since, rfl⟩ := ho
    exact ⟨_, h, rfl, d, id, since, rfl⟩

theorem State.writersWritten_honours {o : Outcome .reply} (h : l.Plays φ) (ho : Terms.settles d False o φ) :
    (l.writersWritten 0 o).2.Honours (.settles d False) (l.writersWritten 0 o).1 := by
  cases o with
  | error e => exact ⟨_, h, ho⟩
  | ok writers =>
    obtain ⟨id, since, rfl⟩ := ho
    exact ⟨_, _, h, .execute d _ _ (.rests id since) ⟨.read, rfl⟩, .writersRead d writers⟩

theorem State.writersRead_honours {o : Outcome .reply} (h : l.Plays φ) (ho : Terms.settles d False o φ)
    (writers : Option Access.Answer) :
    (l.writersRead 0 writers o).2.Honours (.settles d False) (l.writersRead 0 writers o).1 := by
  cases o with
  | error e => exact ⟨_, h, ho⟩
  | ok a =>
    obtain ⟨id, since, rfl⟩ := ho
    have fails : ∀ e, Next.Honours (.settles d False) l (.give (.error e) : Next .tally) := fun e =>
      ⟨_, h, .inl ⟨id, since, rfl⟩⟩
    unfold State.writersRead
    split
    next he => cases he
    next rs _ =>
      split
      · exact fails _
      next s _ => exact ⟨_, _, h, .execute d s _ (.rests id since) ⟨.insert, rfl⟩, .booksWritten d writers⟩
    next => exact fails _

theorem State.booksWritten_honours {o : Outcome .reply} (h : l.Plays φ) (ho : Terms.settles d False o φ)
    (writers : Option Access.Answer) :
    (l.booksWritten writers o).2.Honours (.settles d False) (l.booksWritten writers o).1 := by
  cases o with
  | error e => exact ⟨_, h, ho⟩
  | ok a =>
    obtain ⟨id, since, rfl⟩ := ho
    unfold State.booksWritten
    dsimp only
    split
    · exact ⟨_, h, id, since, rfl⟩
    · exact ⟨_, h, .inl ⟨id, since, rfl⟩⟩
    · exact ⟨_, h, .inl ⟨id, since, rfl⟩⟩

theorem Call.Promises.begins {c : Call u} (h : c.Promises φ Q) (hl : l.Plays φ) :
    (begin l c).2.Honours Q (begin l c).1 := by
  cases h with
  | dial d => exact State.dial_honours hl d
  | pragma d hs => exact State.pragma_honours hl hs
  | send d id since g s => exact State.send_honours hl (.lent id since) g s
  | run d id since b g s k =>
    dsimp only [begin, State.run]
    exact ⟨_, _, hl.report _, .send d id since g s, .ran _ b s.sql k _⟩
  | connect d => exact ⟨_, _, hl, .dial d, .connected d⟩
  | openSlot d => exact State.openSlot_honours hl
  | acquire d hx => exact State.acquire_honours hl hx
  | borrow d hx => exact State.borrow_honours hl hx
  | execute d s mode hx hm => exact State.execute_honours hl hx s hm
  | executeAll d ss mode hx hm => exact State.executeAll_honours hl hx ss hm
  | hasTable d table hx => exact ⟨_, _, hl, .execute d _ _ hx ⟨.read, rfl⟩, .sought d _⟩
  | build d id since w b changes => exact State.build_honours hl w b changes
  | setUp location => exact State.setUp_honours hl location
  | bootstrap url => exact State.bootstrap_honours hl url
  | reset d id since => exact ⟨_, _, hl, .executeAll d _ _ (.rests id since) ⟨.read, rfl⟩, .emptied d _⟩
  | seed d id since => exact State.seed_honours hl
  | fetch d id since => exact ⟨_, hl, .execute d _ _ (.rests id since) ⟨.read, rfl⟩⟩
  | hangUp d id since => exact State.hangUp_honours hl
  | destroy d id since => exact State.destroy_honours hl
  | closePool d id since => exact State.closePool_honours hl
  | shutDown d id since => exact State.shutDown_honours hl

theorem Frame.Relays.resumes {f : Frame v u} {o : Outcome v} (h : f.Relays Q' Q) (hl : l.Plays φ) (ho : Q' o φ) :
    (resume l f o).2.Honours Q (resume l f o).1 := by
  cases h with
  | dialled d fault =>
    obtain ⟨⟨_, rfl⟩, rfl⟩ := ho
    exact State.endDial_honours hl fault
  | sent φ r =>
    obtain ⟨⟨_, rfl⟩, rfl⟩ := ho
    exact ⟨_, hl.quiet rfl rfl rfl rfl rfl, rfl⟩
  | @pragmaSent φ r hr =>
    obtain ⟨⟨_, rfl⟩, rfl⟩ := ho
    exact ⟨_, hl.quiet rfl rfl rfl rfl rfl, ⟨r.cursor, by rw [hr]; rfl⟩, rfl⟩
  | ran φ b sql k start =>
    cases ho
    cases o <;> exact ⟨_, hl.report _, rfl⟩
  | connected d =>
    cases o with
    | error => exact ⟨_, hl, ho⟩
    | ok =>
      obtain ⟨rfl, rfl⟩ := ho
      exact ⟨_, _, hl, .pragma d List.mem_cons_self, .foreignKeysSet d⟩
  | foreignKeysSet d =>
    obtain ⟨⟨_, rfl⟩, rfl⟩ := ho
    exact ⟨_, _, hl, .pragma d (List.mem_cons_of_mem _ List.mem_cons_self), .journalSet d⟩
  | journalSet d =>
    obtain ⟨⟨_, rfl⟩, rfl⟩ := ho
    dsimp only [resume, State.journalSet, State.endConnect]
    exact ⟨_, hl.report _, rfl, rfl⟩
  | registering d => exact State.registering_honours hl ho
  | opened d hf => exact State.opened_honours hf hl ho
  | leased d first => exact State.leased_honours hl ho
  | executing d first s k restores => exact State.executing_honours hl ho s k restores
  | executed d first id since restores =>
    cases ho
    exact State.endCall_honours hl restores _
  | batching d first ss k restores => exact State.batching_honours hl ho ss k restores
  | batched d first id since rest k done restores =>
    cases ho
    cases o with
    | error e => exact State.endCall_honours hl restores _
    | ok a => exact State.batchFrom_honours hl k _ restores rest
  | sought d first => exact ⟨_, hl, ho.map _⟩
  | built d first ss => exact ⟨_, hl, ho.map _⟩
  | emptied d first => exact ⟨_, hl, ho.map _⟩
  | started d =>
    obtain ⟨rfl, rfl⟩ := ho
    exact State.started_honours hl
  | tableKnown d first => exact State.tableKnown_honours hl ho
  | writersMade d first => exact State.writersMade_honours hl ho
  | booksMade d first => exact State.booksMade_honours hl ho
  | writersWritten d => exact State.writersWritten_honours hl ho
  | writersRead d writers => exact State.writersRead_honours hl ho writers
  | booksWritten d writers => exact State.booksWritten_honours hl ho writers
  | destroyed d id since =>
    obtain ⟨⟨_, rfl⟩, rfl⟩ := ho
    simp only [resume, State.destroyed, (hl.report _).growThen]
    exact ⟨_, hl.report _, ⟨(), rfl⟩, rfl⟩
  | draining d id since =>
    obtain ⟨⟨_, rfl⟩, rfl⟩ := ho
    exact State.drainFrom_honours hl
  | reaperEnded d id since =>
    obtain ⟨rfl, rfl⟩ := ho
    exact State.clearLine_honours hl
  | askedClose d id since =>
    obtain ⟨⟨_, rfl⟩, rfl⟩ := ho
    exact ⟨_, hl, ⟨(), rfl⟩, rfl⟩
  | poolShut d id since =>
    obtain ⟨⟨_, rfl⟩, rfl⟩ := ho
    exact State.poolShut_honours hl

end SqliteAccess.Loop
