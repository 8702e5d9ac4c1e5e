import SqliteAccess.Proofs.Access.LoopSteps
import SqliteAccess.Proofs.Life.Unmoved

/-!
How far the demonstration has got. It is one task after the other: its pool never has more than one
connection and its engine never opens more than one handle, so that a stage tells all there is of both.
-/

namespace SqliteAccess.Engine

theorem Rule.applies_of_spend {r : Rule} {sql : String} (h : r.spend.applies sql = true) : r.applies sql = true := by
  simp only [Rule.applies, Rule.spend, Bool.and_eq_true] at h ⊢
  refine ⟨h.1, ?_⟩
  rcases hr : r.times with - | n
  · rfl
  · cases n with
    | zero => simp [hr] at h
    | succ n => simp

end SqliteAccess.Engine

namespace SqliteAccess.Loop

open Access (Database Manager)
open SqliteAccess.Pool (Connection Handle Lease)

def onlyHandle : Handle := .numbered 1

def onlyLease (id : Nat) : Lease := ⟨id, onlyHandle⟩

/-- What the pool of the demonstration has: its one connection, by its id and by when it was last given
back, or none. -/
inductive Stock where
  | untouched
  | asked
  | opened
  | made (id : Nat) (since : Float)
  | lent (id : Nat) (since : Float)
  | rests (id : Nat) (since : Float)
  | lost
  | closing (id : Nat) (since : Float)
  | swept (id : Nat) (since : Float)
  | leaving (id : Nat) (since : Float)
  | parted (id : Nat) (since : Float)
  | closed (id : Nat) (since : Float)

inductive Sweeping where
  | absent
  | awake
  | doomed
  | ended

namespace Stock

def connections : Stock → List Connection
  | untouched | asked | opened | lost => []
  | lent id since => [{ id, handle := onlyHandle, inUse := true, releasedAt := since }]
  | made id since | rests id since | closing id since | swept id since | leaving id since =>
    [{ id, handle := onlyHandle, releasedAt := since }]
  | parted id since | closed id since =>
    [{ id, handle := onlyHandle, live := false, releasedAt := since }]

def idle : Stock → List Nat
  | rests id _ | closing id _ | swept id _ | leaving id _ => [id]
  | _ => []

def pending : Stock → Nat
  | asked | opened => 1
  | _ => 0

def sweeping : Stock → Sweeping
  | untouched => .absent
  | closing _ _ => .doomed
  | swept _ _ | leaving _ _ | parted _ _ | closed _ _ => .ended
  | _ => .awake

def started : Stock → Bool
  | untouched => false
  | _ => true

def shut : Stock → Bool
  | closing _ _ | swept _ _ | leaving _ _ | parted _ _ | closed _ _ => true
  | _ => false

def reaper : Stock → Option Nat
  | untouched | leaving _ _ | parted _ _ | closed _ _ => none
  | _ => some 1

def handles : Stock → Nat
  | untouched | asked | lost => 0
  | _ => 1

def closes : Stock → List Handle
  | closed _ _ => [onlyHandle]
  | _ => []

def pool (d : Database) (x : Stock) : Pool.State :=
  { settings := Demo.settings, source := .database d, connections := x.connections, idle := x.idle,
    pending := x.pending, started := x.started, closed := x.shut, reaper := x.reaper }

inductive Busy : Stock → Prop
  | asked : Busy asked
  | opened : Busy opened
  | lent (id : Nat) (since : Float) : Busy (lent id since)

inductive Held : Stock → Prop
  | busy {x : Stock} : x.Busy → Held x
  | closed (id : Nat) (since : Float) : Held (closed id since)

inductive Ready (first : Prop) : Stock → Prop
  | untouched : first → Ready first untouched
  | rests (id : Nat) (since : Float) : Ready first (rests id since)

end Stock

inductive Phase where
  | blank
  | bare
  | up (d : Database) (x : Stock)
  | down (d : Database) (id : Nat) (since : Float)

namespace Phase

def managers : Phase → List Manager
  | blank => []
  | bare => [{}]
  | up d _ => [{ database := some d, pool := some 0 }]
  | down _ _ _ => [{ pool := some 0 }]

def pools : Phase → List Pool.State
  | blank | bare => []
  | up d x => [x.pool d]
  | down d id since => [(Stock.closed id since).pool d]

def handles : Phase → Nat
  | blank | bare => 0
  | up _ x => x.handles
  | down _ _ _ => 1

def closes : Phase → List Handle
  | blank | bare => []
  | up _ x => x.closes
  | down _ _ _ => [onlyHandle]

def sweeping : Phase → Sweeping
  | blank | bare => .absent
  | up _ x => x.sweeping
  | down _ _ _ => .ended

inductive Forsaken : Phase → Prop
  | blank : Forsaken blank
  | rests (d : Database) (id : Nat) (since : Float) : Forsaken (up d (.rests id since))
  | lost (d : Database) : Forsaken (up d .lost)

end Phase

def setupPragmas : List String := [Sql.foreignKeysPragma, Sql.journalPragma]

def SparesSetup (rules : List Engine.Rule) : Prop :=
  ∀ r ∈ rules, ∀ sql ∈ setupPragmas, r.applies sql = true → r.fault = none

theorem SparesSetup.tail {r : Engine.Rule} {rules : List Engine.Rule} (h : SparesSetup (r :: rules)) :
    SparesSetup rules := fun r' hr => h r' (List.mem_cons_of_mem r hr)

theorem SparesSetup.choose {rules : List Engine.Rule} (h : SparesSetup rules) (sql : String) :
    SparesSetup (Engine.Rule.choose sql rules).2 ∧
      (sql ∈ setupPragmas → (Engine.Rule.choose sql rules).1.fault = none) := by
  induction rules with
  | nil => exact ⟨h, fun _ => rfl⟩
  | cons r rules ih =>
    obtain ⟨hrest, hchosen⟩ := ih h.tail
    rw [Engine.Rule.choose]
    split
    next ha =>
      refine ⟨fun r' hr sql' hs hap => ?_, fun hs => h r List.mem_cons_self sql hs ha⟩
      rcases List.mem_cons.mp hr with rfl | hr
      · exact h r List.mem_cons_self sql' hs (Engine.Rule.applies_of_spend hap)
      · exact h.tail r' hr sql' hs hap
    next =>
      refine ⟨fun r' hr => ?_, hchosen⟩
      rcases List.mem_cons.mp hr with rfl | hr
      · exact h r' List.mem_cons_self
      · exact hrest r' hr

structure Lenient (e : Engine.State) : Prop where
  rules : SparesSetup e.rules
  closings : ∀ c ∈ e.closings, c.fault = none

theorem Lenient.nextClosing {e : Engine.State} (h : Lenient e) :
    e.nextClosing.1.fault = none ∧ Lenient e.nextClosing.2 := by
  unfold Engine.State.nextClosing
  split
  next => exact ⟨rfl, h⟩
  next c cs hc =>
    have hc' := h.closings
    rw [hc] at hc'
    exact ⟨hc' c List.mem_cons_self, h.rules, fun c' hin => hc' c' (List.mem_cons_of_mem c hin)⟩

inductive SweepStack : Stack .unit → Prop
  | starts : SweepStack (.push (.start (.reap 0)) (.done .unit))
  | rested (interval : Float) : SweepStack (.push (.rested 0 interval) (.done .unit))

structure Task.Free (k : Task) : Prop where
  cancelRequested : k.cancelRequested = false
  followers : k.followers = []

inductive Task.Sweeps (k : Task) : Prop
  | ready {st : Stack .unit} : k.status = .ready none st → SweepStack st → Task.Sweeps k
  | asleep {n : Nat} {st : Stack .unit} : k.status = .paused (.sleep n) st → SweepStack st → Task.Sweeps k

structure Task.Doomed (k : Task) : Prop where
  ready : ∃ signal st, k.status = .ready signal st ∧ SweepStack st ∧
    (k.cancelRequested = true ∨ signal = some .cancelled)
  followers : k.followers = [.resume 0]

def Sweeping.Holds : Sweeping → List Task → Prop
  | absent, ts => ts = []
  | awake, ts => ∃ k : Task, ts = [k] ∧ k.Free ∧ k.Sweeps
  | doomed, ts => ∃ k : Task, ts = [k] ∧ k.Doomed
  | ended, ts => ∃ k : Task, ts = [k] ∧ k.status = .finished .unit (.error .cancelled)

structure State.Stands (l : State) (φ : Phase) : Prop where
  managers : l.managers = φ.managers
  pools : l.pools = φ.pools
  opened : l.engine.opened = φ.handles
  closes : l.engine.closes = φ.closes
  spares : Lenient l.engine

structure State.Plays (l : State) (φ : Phase) : Prop extends l.Stands φ where
  current : l.current? = some 0
  tasks : ∃ k ts, l.tasks = k :: ts ∧ k.Free ∧ φ.sweeping.Holds ts

variable {l m : State} {φ φ' : Phase} {d : Database} {x y : Stock}

theorem State.Stands.of (h : l.Stands φ) (hm : m.managers = l.managers) (hp : m.pools = l.pools)
    (he : m.engine.opened = l.engine.opened) (hc : m.engine.closes = l.engine.closes)
    (hr : Lenient m.engine) : m.Stands φ :=
  ⟨hm.trans h.managers, hp.trans h.pools, he.trans h.opened, hc.trans h.closes, hr⟩

theorem State.Stands.manager (h : l.Stands (.up d x)) :
    l.manager? 0 = some { database := some d, pool := some 0 } := by
  simp [manager?, h.managers, Phase.managers]

theorem State.Stands.pool (h : l.Stands (.up d x)) : l.pool? 0 = some (x.pool d) := by
  simp [pool?, h.pools, Phase.pools]

namespace State.Plays

theorem quiet (h : l.Plays φ) (hm : m.managers = l.managers) (hp : m.pools = l.pools) (he : m.engine = l.engine)
    (hr : m.running = l.running) (ht : m.tasks = l.tasks) : m.Plays φ :=
  ⟨h.toStands.of hm hp (by rw [he]) (by rw [he]) (he ▸ h.spares), by rw [current?, hr]; exact h.current,
    ht ▸ h.tasks⟩

theorem report (h : l.Plays φ) (r : Log.Record) : (l.report r).Plays φ := by
  unfold State.report
  split
  · exact h.quiet rfl rfl rfl rfl rfl
  · exact h

theorem reportAll (h : l.Plays φ) (rs : List Log.Record) : (l.reportAll rs).Plays φ := by
  unfold State.reportAll
  induction rs generalizing l with
  | nil => exact h
  | cons r rs ih => exact ih (h.report r)

theorem setContext (h : l.Plays φ) (id : Option Log.CorrelationId) : (l.setContext id).Plays φ := by
  obtain ⟨k, ts, ht, hk, hts⟩ := h.tasks
  rw [State.setContext, h.current]
  exact ⟨⟨h.managers, h.pools, h.opened, h.closes, h.spares⟩, h.current, { k with context := id }, ts,
    by simp [modifyTask, ht], ⟨hk.1, hk.2⟩, hts⟩

theorem enterScope (h : l.Plays φ) : l.enterScope.1.Plays φ := by
  have hf : ∀ n, ({ l with fresh := n } : State).Plays φ := fun _ => h.quiet rfl rfl rfl rfl rfl
  exact (hf _).setContext _

theorem leaveScope (h : l.Plays φ) (restores : Bool) : (l.leaveScope restores).Plays φ := by
  unfold State.leaveScope
  split
  · exact h.setContext none
  · exact h

theorem modifyEngine (h : l.Plays φ) (e : Engine.State) (ho : e.opened = l.engine.opened)
    (hc : e.closes = l.engine.closes) (hr : Lenient e) : ({ l with engine := e } : State).Plays φ :=
  ⟨h.toStands.of rfl rfl ho hc hr, h.current, h.tasks⟩

theorem setPool (h : l.Plays (.up d x)) {f : Pool.State → Pool.State} (hf : f (x.pool d) = y.pool d)
    (ho : y.handles = x.handles) (hc : y.closes = x.closes) (hs : y.sweeping = x.sweeping) :
    (l.modifyPool 0 f).Plays (.up d y) := by
  refine ⟨⟨h.managers, ?_, ?_, ?_, h.spares⟩, h.current, ?_⟩
  · simp [modifyPool, h.pools, Phase.pools, hf]
  · exact h.opened.trans ho.symm
  · exact h.closes.trans hc.symm
  · obtain ⟨k, ts, ht, hk, hts⟩ := h.tasks
    refine ⟨k, ts, ht, hk, ?_⟩
    simp only [Phase.sweeping] at hts ⊢
    rwa [hs]

end State.Plays

end SqliteAccess.Loop
