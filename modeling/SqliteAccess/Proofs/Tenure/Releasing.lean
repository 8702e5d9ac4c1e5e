import SqliteAccess.Proofs.Access.Returning
import SqliteAccess.Proofs.Life.Cycles
import SqliteAccess.Proofs.Tenure.Closed
import SqliteAccess.Proofs.Tenure.Numbered

/-!
A connection that is given back to a manager goes to the pool that the manager has now, whichever it came from. What
a closed pool gets back so is closed, unless the task that is to do it is cancelled before it begins.
-/

namespace SqliteAccess.Pool.State

variable {s : State} {id : Nat} {c : Lease}

theorem mem_departed_of_find?_none (hc : c ∈ s.leases) (hf : s.find? c.id = none) : c ∈ s.departed := by
  rcases List.mem_append.mp (s.leases_perm.mem_iff.mp hc) with hc | hc
  · obtain ⟨x, hx, rfl⟩ := List.mem_map.mp hc
    obtain ⟨hx, hlive⟩ := List.mem_filter.mp hx
    exact absurd (List.find?_eq_none.mp hf x hx) (by simp [hlive, Connection.lease])
  · exact hc

theorem lease_of_id (hn : (s.connections.map (·.id)).Nodup) {x : Connection} (hx : x ∈ s.connections)
    (hc : c ∈ s.leases) (he : x.id = c.id) : x.lease = c := by
  obtain ⟨y, hy, rfl⟩ := List.mem_map.mp hc
  rw [List.inj_on_of_nodup_map hn hx hy he]

end SqliteAccess.Pool.State

namespace SqliteAccess.Loop

open SqliteAccess.Pool (Handle Lease)

namespace State

/-- The pool that a manager has, or has had last. -/
def poolOf (l : State) (M : Nat) : Option Nat := (l.manager? M).bind (·.pool)

/-- The connection is out of its pool, as far as the pool knows. -/
def Out (l : State) (p id : Nat) : Prop := ∃ s, l.pool? p = some s ∧ s.UsedAs true id

def Shuts (l : State) (p : Nat) : Prop := ∃ s, l.pool? p = some s ∧ s.closed = true

/-- The task is cut off just as it is to begin to destroy the connection. -/
def Forgoes (l : State) (t p id : Nat) : Prop :=
  ∃ e, l.running = some ⟨t, .unit, .give (.error e), .push (.start (.destroy p id)) (.done .unit)⟩

end State

variable {l l' m m' : State} {M p q t id : Nat} {c : Lease} {past past' : List State} {s : Pool.State}

theorem State.Out.accepted (ho : l.Out p c.id) (hM : l.poolOf M = some p) :
    (l.giveBack M (some c)).2 = .ok () := by
  obtain ⟨s, hs, hu⟩ := ho
  obtain ⟨_, _, _, hok⟩ := State.release_released hs hu.check
  simpa only [State.giveBack, show (l.manager? M).bind (·.pool) = some p from hM] using hok

theorem State.Out.destroys (ho : l.Out p c.id) (hM : l.poolOf M = some p) (hr : l.running = none) (hc : l.Shuts p) :
    (l.giveBack M (some c)).1.point? l.tasks.length =
      some (.waits (.push (.start (.destroy p c.id)) (.done .unit))) := by
  obtain ⟨s, hs, hu⟩ := ho
  obtain ⟨s', hs', hclosed⟩ := hc
  cases hs.symm.trans hs'
  have hgive : (l.giveBack M (some c)).1 =
      (l.modifyPool p fun s => s.setFree c.id).spawnBackground p (.destroy p c.id) := by
    simp only [State.giveBack, show (l.manager? M).bind (·.pool) = some p from hM, State.release, hs, hu.check,
      hclosed, if_true]
  have hidle : ((l.modifyPool p fun s => s.setFree c.id).spawnBackground p (.destroy p c.id)).running = none := hr
  rw [hgive, State.point?_idle hidle]
  simp [State.spawnBackground, State.spawn, State.modifyPool, State.enqueue, Status.point?]

theorem State.Numbered.refuses (hn : l.Numbered) (ha : Accounts past l) (hc : l.Has p c) (hM : l.poolOf M ≠ some p) :
    (l.giveBack M (some c)).1 = l ∧ ∃ e, (l.giveBack M (some c)).2 = .error e := by
  cases hp : l.poolOf M with
  | some q =>
    have hgive : l.giveBack M (some c) = l.release q c.id := by
      simp only [State.giveBack, show (l.manager? M).bind (·.pool) = some q from hp]
    rw [hgive, State.release]
    split
    · exact ⟨rfl, _, rfl⟩
    next s hs =>
      have hnone : s.find? c.id = none := by
        cases hf : s.find? c.id with
        | none => rfl
        | some x =>
          have hx : l.Has q x.lease := ⟨s, hs, List.mem_map_of_mem (Pool.State.find?_mem hf)⟩
          exact absurd (hp.trans (congrArg some (hn.pools q p _ c hx hc (Pool.State.find?_id hf)))) hM
      simp only [Pool.State.checkRelease, hnone]
      exact ⟨trivial, _, rfl⟩
  | none =>
    have hgive : l.giveBack M (some c) = l.releaseSingle M c.id := by
      simp only [State.giveBack, show (l.manager? M).bind (·.pool) = none from hp]
    rw [hgive, State.releaseSingle]
    split
    · exact ⟨rfl, _, rfl⟩
    next k hk =>
      have hsingle : k.single ≠ some c.id := fun hs => by
        obtain ⟨a, hin, he⟩ := ha.singled.held M c.id (by simpa [State.singleOf, hk] using hs)
        exact hn.alone p c hc a hin he.symm
      simp only [hsingle, decide_false, Bool.false_and, Bool.false_eq_true, if_false]
      exact ⟨trivial, _, rfl⟩

inductive Parting (t p : Nat) (c : Lease) (past : List State) (m : State) : Prop
  | waits : m.point? t = some (.waits (.push (.start (.destroy p c.id)) (.done .unit))) → Parting t p c past m
  | begins (o : Outcome .unit) :
      m.point? t = some (.works (.give o) (.push (.start (.destroy p c.id)) (.done .unit))) → Parting t p c past m
  | removes : m.point? t = some (.works (.call (.destroy p c.id)) (.done .unit)) → Parting t p c past m
  | hangsUp : m.point? t = some (.works (.call (.hangUp c.handle)) (.push (.destroyed p c.id) (.done .unit))) →
      Parting t p c past m
  | closed : c.handle ∈ m.engine.closes → Parting t p c past m
  | forgone : (∃ x ∈ past, x.Forgoes t p c.id) → Parting t p c past m

theorem State.Happens.waiting {k : Stack .unit} (hs : l.Happens State.Serves l') (hl : l.AtWork)
    (hp : l.point? t = some (.waits k)) :
    l'.point? t = some (.waits k) ∨ ∃ o, l'.point? t = some (.works (.give o) k) := by
  obtain ⟨q', hq', hg⟩ := hs.gets hl hp
  generalize hq : Point.waits k = q at hg
  cases hg with
  | stays => exact .inl (hq ▸ hq')
  | works => cases hq
  | ends => cases hq
  | goesOn =>
    cases hq
    exact .inr ⟨_, hq'⟩

theorem State.point?_of_isFinished (h : l.isFinished t = true) :
    ∃ (v : Shape) (o : Outcome v), l.point? t = some (.ended o) := by
  unfold State.isFinished at h
  split at h
  next v o _ _ _ hk => exact ⟨v, o, by rw [State.point?, hk]; rfl⟩
  next => cases h

theorem Parting.happens (hp : Parting t p c past m) (ha : Accounts past' m) (hc : m.Has p c)
    (hs : m.Happens State.Serves m') : Parting t p c (past ++ [m]) m' := by
  obtain ⟨s, hpool, hc⟩ := hc
  obtain ⟨⟨d, hd⟩, hids, _⟩ := ha.sourced s (List.mem_of_getElem? hpool)
  have hlasts := (ha.lasts (hs.mono fun _ => State.Serves.offers)).2
  cases hp with
  | waits hat => exact (hs.waiting ha.atWork hat).elim .waits fun ⟨o, ho⟩ => .begins o ho
  | begins o hat =>
    have hr := ha.atWork.running_at hat
    cases o with
    | error e => exact .forgone ⟨m, List.mem_append_right _ (List.mem_singleton_self m), e, hr⟩
    | ok => exact .removes (hs.works_point (w := .back (.start (.destroy p c.id)) (.ok ())) ha.atWork hr)
  | removes hat =>
    have hr := ha.atWork.running_at hat
    have hnext := hs.works_point (w := .call (.destroy p c.id)) ha.atWork hr
    simp only [Work.perform, begin, State.destroy, hpool] at hnext
    cases hf : s.find? c.id with
    | none =>
      have hdep : c.handle ∈ m.departed :=
        List.mem_flatMap.mpr ⟨s, List.mem_of_getElem? hpool,
          List.mem_map_of_mem (Pool.State.mem_departed_of_find?_none hc hf)⟩
      rcases ha.departed _ hdep with hin | ⟨_, _, hr'⟩
      · exact .closed (hlasts hin)
      · cases hr.symm.trans hr'
    | some x =>
      have hx := Pool.State.lease_of_id hids (Pool.State.find?_mem hf) hc (Pool.State.find?_id hf)
      simp only [Pool.State.remove?, hf, Option.map_some, State.closeHandle] at hnext
      rw [show ({ s.update c.id fun c => { c with inUse := false, live := false } with
        idle := s.idle.erase c.id } : Pool.State).source = .database d from hd] at hnext
      exact .hangsUp (hx ▸ hnext)
  | hangsUp hat =>
    have hr := ha.atWork.running_at hat
    have hnext := hs.works (w := .call (.hangUp c.handle)) hr
    refine .closed ?_
    rw [hnext, (State.carryOn_unmoved _ t _ _).closes]
    simp [Work.perform, begin, Engine.State.closes, Engine.Request.closes?]
  | closed hin => exact .closed (hlasts hin)
  | forgone hx =>
    obtain ⟨x, hx, hf⟩ := hx
    exact .forgone ⟨x, List.mem_append_left _ hx, hf⟩

theorem Parting.ended (hp : Parting t p c past m) (hf : m.isFinished t = true) :
    c.handle ∈ m.engine.closes ∨ ∃ x ∈ past, x.Forgoes t p c.id := by
  obtain ⟨v, o, hat⟩ := State.point?_of_isFinished hf
  cases hp with
  | waits h | removes h | hangsUp h => cases h.symm.trans hat
  | begins _ h => cases h.symm.trans hat
  | closed hin => exact .inl hin
  | forgone hx => exact .inr hx

end SqliteAccess.Loop
