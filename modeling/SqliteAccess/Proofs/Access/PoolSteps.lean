import SqliteAccess.Proofs.Access.Outer

/-!
A pool over a database takes the steps of a pool over an opener, but for what it calls to open a
connection and to close one.
-/

namespace SqliteAccess.Loop

open Pool (Handle Lease)
open Access (Database)

def Call.over (d : Database) : {s : Shape} → Call s → Call s
  | _, .askOpen => .connect d true
  | _, .askClose h => .hangUp h
  | _, c => c

def Next.over (d : Database) {u : Shape} : Next u → Next u
  | .call c f => .call (c.over d) f
  | n => n

variable {M p : Nat} {d : Database} {l : State} {s : Pool.State}

def ActsOver (p : Nat) (d : Database) (l : State) (s : Pool.State) {u : Shape} (w : Work u)
    (x : State × Next u) : Prop :=
  ∃ n s' N cs, x.2 = Next.over d n ∧
    Act p l.currentTask l.tasks.length l.nextConnection s w s' N cs n ∧
    Changed p (fun i => s.reaper = some i) (Tells s s') (Follows w l.currentTask s s') l x.1 s' N cs

def Work.Crosses : {u : Shape} → Work u → Prop
  | _, .call (.openSlot _) | _, .call (.destroy _ _) => True
  | _, _ => False

theorem Drains.over {rest : List Nat} {n : Next .unit} (h : Drains p s rest n) : n.over d = n := by
  cases h <;> rfl

theorem Act.over_eq {t T N N' : Nat} {s' : Pool.State} {u : Shape} {w : Work u} {cs : List (Call .unit)}
    {n : Next u} (h : Act p t T N s w s' N' cs n) (hw : ¬ w.Crosses) : n.over d = n := by
  cases h
  case lines hl => cases hl <;> rfl
  case asks => exact absurd trivial hw
  case removes => exact absurd trivial hw
  case evicts hn => cases hn <;> rfl
  case evictsOn hn => cases hn <;> rfl
  case reaps hn => cases hn <;> rfl
  case sweptOver hn => cases hn <;> rfl
  case shutsAtOnce hn => exact hn.over
  case clears hn => exact hn.over
  case drains hn => exact hn.over
  all_goals rfl

theorem Acts.over {u : Shape} {w : Work u} {x : State × Next u} (h : Acts p l s w x) (hw : ¬ w.Crosses) :
    ActsOver p d l s w x := by
  obtain ⟨s', N, cs, ha, hc⟩ := h
  exact ⟨x.2, s', N, cs, (ha.over_eq hw).symm, ha, hc⟩

theorem State.openSlot_actsOver (h : l.pool? p = some s) (hs : s.source = .database d) :
    ActsOver p d l s (.call (.openSlot p)) (l.openSlot p) := by
  simp only [State.openSlot, h, hs]
  exact ⟨_, _, _, _, rfl, .asks, .refl h⟩

theorem State.destroy_actsOver (h : l.pool? p = some s) (hs : s.source = .database d) (id : Nat) :
    ActsOver p d l s (.call (.destroy p id)) (l.destroy p id) := by
  simp only [State.destroy, h]
  cases hr : s.remove? id with
  | none => exact ⟨_, _, _, _, rfl, .gone hr, .refl h⟩
  | some x =>
    obtain ⟨s', c⟩ := x
    have hsrc : s'.source = .database d := by
      rw [(Pool.State.remove?_eq hr).2]
      exact hs
    simp only [State.closeHandle, hsrc]
    exact ⟨_, _, _, _, rfl, .removes hr, (Changed.refl h).setPool s'⟩

theorem Work.perform_actsOver {u : Shape} {w : Work u} {c : Call u} {k : Stack u}
    (hw : w.PartOf M (.pool p d) c) (hk : k.Bears M (.pool p d) c) (hp : w.Pooled)
    (h : l.pool? p = some s) (hs : s.source = .database d)
    (hr : s.closed = false → ∀ r, s.reaper = some r → ∃ k, l.tasks[r]? = some k ∧ k.Alone)
    (hc : ∀ {v : Shape} (f : Frame v u) (o : Outcome v), w = .back f o → f.Closing → s.closed = true) :
    ActsOver p d l s w (w.perform l) := by
  cases hw with
  | call =>
    cases hk with
    | done hd =>
      cases hd with
      | execute | executeAll | block | borrow | shutDown | within | run => cases hp
      | evict => exact (l.evict_acts h).over id
      | reap => exact (l.reap_acts h).over id
      | openBackground =>
        exact Acts.over (x := (l, _)) (.of .opensBackground (.refl h)) id
      | destroy _ _ id => exact l.destroy_actsOver h hs id
    | push hf _ =>
      cases hf with
      | opened | openedBackground => exact l.openSlot_actsOver h hs
      | evicting _ _ id | draining _ _ id => exact l.destroy_actsOver h hs id
      | swept => exact (l.evict_acts h).over id
      | leased => exact (l.acquire_acts h).over id
      | poolShut => exact (l.closePool_acts h hr).over id
      | registering | destroyed | connected | foreignKeysSet | journalSet | ran | executing | executed
      | batching | batched | blockEntered | withinLeft => cases hp
  | back o hf =>
    cases hf with
    | start => cases hp
    | called hf =>
      cases hf with
      | opened => exact (l.opened_acts h o).over id
      | registering => exact (l.registering_acts h o).over id
      | openedBackground => exact (l.openedBackground_acts h o).over id
      | destroyed _ _ id => exact (l.destroyed_acts h id o).over fun h => h
      | evicting _ _ _ rest n => exact (l.evicting_acts h rest n o).over id
      | swept _ _ i => exact (l.swept_acts h i o).over id
      | draining _ _ _ rest => exact (l.draining_acts h (hc _ o rfl trivial) rest o).over id
      | connected | foreignKeysSet | journalSet | ran | leased | executing | executed
      | batching | batched | blockEntered | poolShut | withinLeft => cases hp
    | paused hf =>
      cases hf with
      | turn | givenUp => exact (l.inLine_acts h o).over id
      | sleep _ _ i => exact (l.rested_acts h i o).over id
      | task => exact (l.reaperEnded_acts h (hc _ o rfl trivial) o).over id
      | tasks => exact (l.backgroundEnded_acts h o).over id
      | dialled | sent | asked | blockHeld => cases hp

theorem Sweeps.continues {n : Next .count} (h : Sweeps p s n) :
    (n.over d).Continues M (.pool p d) (.evict p) := by
  cases h with
  | evicts rest k => exact .call (.evicting p d _ rest k)
  | ends o => exact .give o _

theorem Rests.continues {n : Next .unit} (h : Rests p n) :
    (n.over d).Continues M (.pool p d) (.reap p) := by
  cases h with
  | again i => exact .again (.sleep p d i 0)
  | sleeps timer i => exact .pause (.sleep p d i timer)

theorem Drains.continues {rest : List Nat} {n : Next .unit} (h : Drains p s rest n) :
    (n.over d).Continues M (.pool p d) (.closePool p) := by
  cases h with
  | destroys id rest => exact .call (.draining p d id rest)
  | waits => exact .pause (.tasks p d _ _)
  | ends => exact .give _ _

theorem Act.continues {t T N N' : Nat} {s' : Pool.State} {u : Shape} {w : Work u}
    {cs : List (Call .unit)} {n : Next u} {c : Call u} (h : Act p t T N s w s' N' cs n) (hp : w.Pooled)
    (hw : w.PartOf M (.pool p d) c) : (n.over d).Continues M (.pool p d) c := by
  have frame : ∀ {v : Shape} {f : Frame v u} {o : Outcome v}, w = .back f o → f.PartOf M (.pool p d) c := by
    rintro v f o rfl
    cases hw with | back _ hf => exact hf
  cases h
  case started => cases hp
  case lines hl =>
    cases hw
    cases hl with
    | waits timer => exact .pause (.turn p d timer)
    | givesUp => exact .pause (.givenUp p d)
    | fails => exact .give _ _
  case opens => cases hw; exact .call (.opened p d)
  case asks => cases hw; exact .call (.registering p d)
  case askWaits => cases hp
  case opensBackground => cases hw; exact .call (.openedBackground p d)
  case backgroundLate x _ =>
    cases frame rfl with
    | called hf => cases hf; exact .late p x.id
  case removes x _ => cases hw; exact .call (.destroyed p d _ x)
  case closeWaits => cases hp
  case evicts hs => cases hw; exact hs.continues
  case evictsOn hs =>
    cases frame rfl with
    | called hf => cases hf; exact hs.continues
    | paused hf => cases hf
  case reaps hr => cases hw; exact hr.continues
  case restOver i =>
    cases frame rfl with
    | called hf => cases hf
    | paused hf => cases hf; exact .call (.swept p d i)
  case sweptOver hr => cases frame rfl with | called hf => cases hf; exact hr.continues
  case shuts r _ _ => cases hw; exact .pause (.task p d r)
  case shutsAtOnce hd => cases hw; exact hd.continues
  case clears hd =>
    cases frame rfl with
    | called hf => cases hf
    | paused hf => cases hf; exact hd.continues
  case drains hd =>
    cases frame rfl with
    | called hf => cases hf; exact hd.continues
    | paused hf => cases hf
  all_goals exact .give _ _

theorem Made.chained {c : Call .unit} {k : Task} (h : Made p c k) (hc : c.Served M (.pool p d)) :
    k.status.Chained M (.pool p d) := by
  rw [h.status]
  exact .made hc

theorem Act.makes {t T N N' : Nat} {s' : Pool.State} {u : Shape} {w : Work u} {cs : List (Call .unit)}
    {n : Next u} (h : Act p t T N s w s' N' cs n) : ∀ c ∈ cs, c.Served M (.pool p d) := by
  intro c hc
  rcases h.calls c hc with rfl | rfl
  · exact .reap p d
  · exact .openBackground p d

end SqliteAccess.Loop
