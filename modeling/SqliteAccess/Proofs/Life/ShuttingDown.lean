import SqliteAccess.Proofs.Life.SettingUp

/-!
Shutting a manager down. It loses its database and its connection; its pool is closed, and stays with it.
-/

namespace SqliteAccess.Loop

open SqliteAccess.Pool (Handle)

def State.Retains (l m : State) : Prop :=
  ∀ p (s : Pool.State), l.pool? p = some s → ∃ s', m.pool? p = some s' ∧ (s.closed = true → s'.closed = true)

def State.Shut (p : Nat) (l : State) : Prop := ∃ s, l.pool? p = some s ∧ s.closed = true

variable {may : {s : Shape} → State → Call s → Prop} {l l' m : State} {M t p : Nat} {u : Shape} {w : Work u}
  {k : Stack .unit} {past : List State}

namespace State.Retains

theorem of_eq (hp : m.pools = l.pools) : Retains l m := fun p s hs =>
  ⟨s, by rw [State.pool?, hp]; exact hs, id⟩

theorem trans (h : Retains l m) (h' : Retains m l') : Retains l l' := by
  intro p s hs
  obtain ⟨s₁, hs₁, hc₁⟩ := h p s hs
  obtain ⟨s₂, hs₂, hc₂⟩ := h' p s₁ hs₁
  exact ⟨s₂, hs₂, fun hc => hc₂ (hc₁ hc)⟩

theorem unmoved (hs : Unmoved l m) : Retains l m := by
  intro p s hp
  obtain ⟨hlt, rfl⟩ := List.getElem?_eq_some_iff.mp hp
  have hlt' : p < m.pools.length := hs.pools.length_eq ▸ hlt
  exact ⟨m.pools[p], List.getElem?_eq_getElem hlt', (hs.pools.get hlt hlt').closed⟩

theorem modifyPool {f : Pool.State → Pool.State}
    (hf : ∀ s, l.pool? p = some s → s.closed = true → (f s).closed = true) : Retains l (l.modifyPool p f) := by
  intro q s hs
  by_cases hq : p = q
  · subst hq
    refine ⟨f s, ?_, hf s hs⟩
    have hs : l.pools[p]? = some s := hs
    rw [State.pool?, State.modifyPool, List.getElem?_modify_eq, hs]
    rfl
  · refine ⟨s, ?_, id⟩
    rw [State.pool?, State.modifyPool, List.getElem?_modify_ne _ _ hq]
    exact hs

theorem report (h : Retains l m) (r : Log.Record) : Retains l (m.report r) :=
  h.trans (.unmoved ((Tame.refl m).report r).toUnmoved)

theorem setLock (l : State) (M : Nat) (f : Access.Lock → Access.Lock × Option Nat) : Retains l (l.setLock M f) :=
  .unmoved ((Tame.refl l).setLock M f).toUnmoved

theorem append (s : Pool.State) (hm : m.pools = l.pools ++ [s]) : Retains l m := by
  intro p s' hs
  refine ⟨s', ?_, id⟩
  rw [State.pool?, hm, List.getElem?_append_left (List.getElem?_eq_some_iff.mp hs).1]
  exact hs

end State.Retains

theorem Work.retains (w : Work u) (l : State) : l.Retains (w.perform l).1 := by
  have shut : ∀ i, l.Retains (l.shutSingle i).1 := by
    intro i
    unfold State.shutSingle
    split
    · exact .of_eq rfl
    · split <;> exact .of_eq rfl
  by_cases hs : w.Singular
  · cases w with
    | call c =>
      cases c with
      | askOpen =>
        simp only [Work.perform, begin, State.askOpen]
        split <;> exact .of_eq rfl
      | dial d =>
        simp only [Work.perform, begin, State.dial]
        split
        · exact .of_eq rfl
        · unfold State.endDial
          split <;> exact .of_eq rfl
      | hangUp h => exact .of_eq (l.hangUp_pools h)
      | openSlot p =>
        simp only [Work.perform, begin, State.openSlot]
        split
        · exact .of_eq rfl
        · split <;> exact .of_eq rfl
      | destroy p id =>
        simp only [Work.perform, begin, State.destroy]
        split
        · exact .of_eq rfl
        next s hp =>
          split
          · exact .of_eq rfl
          next s' h hr =>
            obtain ⟨_, rfl⟩ := Pool.State.remove?_eq hr
            refine .modifyPool fun s' hs' => ?_
            cases hp.symm.trans hs'
            exact fun hc => hc
      | setUp i location reach =>
        simp only [Work.perform, begin, State.setUp]
        split
        · exact .report (.of_eq rfl) _
        · exact .of_eq rfl
        · split
          · exact .of_eq rfl
          · split
            · exact .of_eq rfl
            · exact .append _ rfl
      | shutDown i =>
        simp only [Work.perform, begin, State.shutDown]
        split
        · exact .of_eq rfl
        · exact shut i
      | bootstrap url =>
        simp only [Work.perform, begin, State.bootstrap]
        split <;> exact .of_eq rfl
      | _ => cases hs
    | back f o =>
      cases f with
      | start c => cases o <;> exact .of_eq rfl
      | askedOpen => exact .of_eq rfl
      | dialled fault =>
        cases o with
        | error => exact .of_eq rfl
        | ok => cases fault <;> exact .of_eq rfl
      | connected => cases o <;> exact .of_eq rfl
      | foreignKeysSet d h wal =>
        cases o with
        | error => exact .of_eq rfl
        | ok =>
          cases wal with
          | true => exact .of_eq rfl
          | false => exact .report (.of_eq rfl) _
      | journalSet =>
        cases o with
        | error => exact .of_eq rfl
        | ok => exact .report (.of_eq rfl) _
      | registering p =>
        have hfree : l.Retains (l.modifyPool p Pool.State.freeSlot) := .modifyPool fun _ _ => id
        cases o with
        | error => exact hfree
        | ok h =>
          have hall := hfree.trans (.modifyPool (p := p) (f := fun s => s.register l.nextConnection h l.clock)
            fun _ _ => id)
          simp only [Work.perform, resume, State.registering]
          split
          · exact hall.trans (.of_eq rfl)
          · dsimp only
            refine .report ?_ _
            exact hall.trans (.of_eq rfl)
      | singleOpened i d =>
        cases o with
        | error => exact .of_eq rfl
        | ok =>
          dsimp only [Work.perform, resume, State.singleOpened]
          refine .report ?_ _
          exact .of_eq rfl
      | poolShut i =>
        cases o with
        | error => exact .of_eq rfl
        | ok => exact shut i
      | lockedToClose i =>
        cases o with
        | error => exact .of_eq rfl
        | ok =>
          simp only [Work.perform, resume, State.lockedToClose]
          split
          · exact .of_eq rfl
          · exact .setLock l i _
      | singleClosed i =>
        cases o with
        | error => exact .setLock l i _
        | ok => exact (State.Retains.setLock l i _).trans (.of_eq rfl)
      | _ => cases hs
  · exact .unmoved (Work.mild hs l).tame.toUnmoved

theorem State.Happens.retains (hs : l.Happens may l') : l.Retains l' := by
  rcases hs.unmoved with ⟨t, u, w, k, _, rfl⟩ | hst
  · exact (w.retains l).trans (.unmoved (State.carryOn_unmoved _ _ _ _))
  · exact .unmoved hst

theorem Course.retains (hc : Course may l past m) : l.Retains m :=
  hc.induct (P := fun _ m => l.Retains m) (.of_eq rfl) fun _ _ _ _ ih hs => ih.trans hs.retains

theorem State.Shut.retained (h : l.Shut p) (hr : l.Retains m) : m.Shut p := by
  obtain ⟨s, hs, hc⟩ := h
  obtain ⟨s', hs', hc'⟩ := hr p s hs
  exact ⟨s', hs', hc' hc⟩

def Call.Closes : {s : Shape} → Call s → Prop
  | _, .closePool _ | _, .destroy _ _ | _, .askClose _ | _, .hangUp _ | _, .lock _ => True
  | _, _ => False

def Frame.Closes : {s t : Shape} → Frame s t → Prop
  | _, _, .reaperEnded _ | _, _, .draining _ _ | _, _, .backgroundEnded _ | _, _, .destroyed _ _
  | _, _, .askedClose _ | _, _, .letIn _ => True
  | _, _, _ => False

def closingDown : Circle where
  call := Call.Closes
  frame := Frame.Closes

theorem closingDown_not_governs (w : Work u) (M : Nat) (hw : closingDown.work w) : ¬ w.Governs M := by
  cases w with
  | call c => cases c <;> first | exact id | cases hw
  | back f o => cases f <;> first | exact id | cases hw

theorem State.drainFrom_closingDown (l : State) (p : Nat) (rest : List Nat) :
    closingDown.next (l.drainFrom p rest).2 := by
  cases rest with
  | cons => exact ⟨trivial, trivial⟩
  | nil =>
    simp only [State.drainFrom]
    split
    · trivial
    · split <;> trivial

theorem State.reaperEnded_closingDown (l : State) (p : Nat) (o : Outcome .unit) :
    closingDown.next (l.reaperEnded p o).2 := by
  have clear : closingDown.next (l.clearLine p).2 := by
    unfold State.clearLine
    split
    · trivial
    · exact State.drainFrom_closingDown ..
  unfold State.reaperEnded
  split
  · exact clear
  · split
    · exact clear
    · trivial

theorem closingDown_next (w : Work u) (l : State) (hw : closingDown.work w) : closingDown.next (w.perform l).2 := by
  cases w with
  | call c =>
    cases c with
    | closePool p =>
      simp only [Work.perform, begin, State.closePool]
      split
      · trivial
      · split
        · trivial
        · split
          · exact State.reaperEnded_closingDown ..
          · split
            · exact State.reaperEnded_closingDown ..
            · trivial
    | destroy p id =>
      simp only [Work.perform, begin, State.destroy]
      split
      · trivial
      next s _ =>
        split
        · trivial
        · refine ⟨?_, trivial⟩
          unfold State.closeHandle
          split <;> trivial
    | askClose h =>
      simp only [Work.perform, begin, State.askClose]
      split <;> trivial
    | hangUp h =>
      simp only [Work.perform, begin]
      rcases l.hangUp_snd h with ⟨_, he⟩ | ⟨_, he⟩ <;> rw [he] <;> trivial
    | lock M =>
      simp only [Work.perform, begin, State.lock]
      split
      · trivial
      · split <;> trivial
    | _ => cases hw
  | back f o =>
    cases f with
    | reaperEnded p => exact State.reaperEnded_closingDown l p o
    | draining p rest =>
      cases o with
      | error => trivial
      | ok => exact State.drainFrom_closingDown ..
    | backgroundEnded p => cases o <;> trivial
    | destroyed p id =>
      simp only [Work.perform, resume, State.destroyed, State.growThen]
      split <;> trivial
    | askedClose fault => cases o <;> trivial
    | letIn M => cases o <;> trivial
    | _ => cases hw

theorem closingDown_closed : closingDown.Closed := ⟨closingDown_next, closingDown_not_governs⟩

theorem State.closePool_shut (hs : ∃ s, l.pool? p = some s) : (l.closePool p).1.Shut p := by
  obtain ⟨s, hs⟩ := hs
  have marked : (l.modifyPool p fun s => { s with closed := true }).Shut p := by
    have hs' : l.pools[p]? = some s := hs
    refine ⟨{ s with closed := true }, ?_, rfl⟩
    rw [State.pool?, State.modifyPool, List.getElem?_modify_eq, hs']
    rfl
  have kept : ∀ {m : State}, Tame (l.modifyPool p fun s => { s with closed := true }) m → m.Shut p := fun ht =>
    marked.retained (.unmoved ht.toUnmoved)
  simp only [State.closePool, hs]
  split
  next hc => exact ⟨s, hs, hc⟩
  next =>
    split
    · exact kept (State.reaperEnded_mild (.refl _) p _).tame
    next r _ =>
      split
      · exact kept (State.reaperEnded_mild ((Tame.refl _).cancel r) p _).tame
      · exact kept (((Tame.refl _).cancel r).modifyTask r fun _ _ => .same _)

inductive State.ShutsDown (t M : Nat) (b : Access.Manager) (k : Stack .unit) (l : State) : State → Prop
  | begins : State.ShutsDown t M b k l l
  | goesFor {m : State} {q : Nat} : m.bare? M = some b → b.pool = some q → (∃ s, m.pool? q = some s) →
      m.running = some ⟨t, .unit, .call (.closePool q), .push (.poolShut M) k⟩ → State.ShutsDown t M b k l m
  | closes {m : State} {p : Point} {f : Frame .unit .unit} :
      f = .poolShut M ∨ f = .lockedToClose M ∨ f = .singleClosed M → m.bare? M = some b →
      (∀ q, b.pool = some q → m.Shut q) → m.point? t = some p → closingDown.Within (.push f k) p →
      State.ShutsDown t M b k l m
  | fails {m : State} {e : Failure} : m.running = some ⟨t, .unit, .give (.error e), k⟩ → m.bare? M = some b →
      State.ShutsDown t M b k l m
  | succeeds {m : State} : m.running = some ⟨t, .unit, .give (.ok ()), k⟩ →
      m.bare? M = some { pool := b.pool } → (∀ q, b.pool = some q → m.Shut q) → State.ShutsDown t M b k l m

variable {b : Access.Manager}

theorem State.shutSingle_cases (hb : l.bare? M = some b) (hd : b.database ≠ none) :
    l.shutSingle M = (l, .call (.lock M) (.lockedToClose M)) ∨
      (l.shutSingle M).2 = .give (.ok ()) ∧ (l.shutSingle M).1.bare? M = some { pool := b.pool } := by
  obtain ⟨k, hk, hkd, hkp, hks⟩ := State.bare?_eq_some hb
  simp only [State.shutSingle, hk]
  split
  next => exact .inl rfl
  next hno =>
    refine .inr ⟨rfl, ?_⟩
    have hsingle : b.single = none := by
      rw [hks, Access.Manager.enabled, hkd] at hno
      cases hs : b.single with
      | none => rfl
      | some i => simp [hs, Option.isSome_iff_ne_none.mpr hd] at hno
    rw [State.bare?_modifyManager (g := fun k => { k with database := none }) fun _ => rfl, hb, Option.map_some]
    rw [← State.lock_of_bare hb, ← hsingle]

theorem State.ShutsDown.single {w : Work .unit} (hs : m.Happens may l') (hw : m.AtWork)
    (hr : m.running = some (w.on t k)) (he : w.perform m = m.shutSingle M) (hb : m.bare? M = some b)
    (hd : b.database ≠ none) (hshut : ∀ q, b.pool = some q → m.Shut q) : State.ShutsDown t M b k l l' := by
  have hshut' : ∀ q, b.pool = some q → l'.Shut q := fun q hq => (hshut q hq).retained hs.retains
  have hl' := hs.works hr
  have hp' := hs.works_point hw hr
  rw [he] at hl' hp'
  rcases State.shutSingle_cases hb hd with hstep | ⟨hgive, hbare⟩
  · rw [hstep] at hl' hp'
    exact .closes (.inr (.inl rfl)) (hl' ▸ hb) hshut' hp' ⟨trivial, .base⟩
  · rw [hgive] at hl'
    exact .succeeds (by rw [hl']; rfl) (by rw [hl', (State.carryOn_unmoved _ _ _ _).bare, hbare]) hshut'

theorem State.ShutsDown.happens (h : l.ShutsDown t M b k m) (hc : Course may l past m) (hl : l.AtWork)
    (hr : l.running = some ⟨t, .unit, .call (.shutDown M), k⟩) (hb : l.bare? M = some b) (hd : b.database ≠ none)
    (hpool : ∀ q, b.pool = some q → ∃ s, l.pool? q = some s) (hback : ∀ o, m.running ≠ some ⟨t, .unit, .give o, k⟩)
    (hg : m.Governed M t) (hs : m.Happens may l') : l.ShutsDown t M b k l' := by
  have hw := hc.atWork hl
  cases h with
  | begins =>
    obtain ⟨i, hi, _, hip, _⟩ := State.bare?_eq_some hb
    cases hq : b.pool with
    | none =>
      have hstep : (Work.call (.shutDown M)).perform l = l.shutSingle M := by
        simp only [Work.perform, begin, State.shutDown, hi, Option.bind_some, hip, hq]
      exact .single hs hl (w := .call (.shutDown M)) hr hstep hb hd fun q h => by cases hq.symm.trans h
    | some q =>
      have hl' := hs.works (w := .call (.shutDown M)) hr
      simp only [Work.perform, begin, State.shutDown, hi, Option.bind_some, hip, hq] at hl'
      exact .goesFor (hl' ▸ hb) hq (hl' ▸ hpool q hq) (by rw [hl']; rfl)
  | @goesFor m q hbm hq hsq hrm =>
    have hl' := hs.works (w := .call (.closePool q)) hrm
    have hp' := hs.works_point (w := .call (.closePool q)) hw hrm
    refine .closes (.inl rfl) ?_ (fun q' hq' => ?_) hp' (.of_next (closingDown_next _ m trivial) .base)
    · rw [hl', (State.carryOn_unmoved _ _ _ _).bare]
      exact (Work.bare_eq id (by simp [hbm])).trans hbm
    · cases hq.symm.trans hq'
      rw [hl']
      exact (State.closePool_shut hsq).retained (.unmoved (State.carryOn_unmoved _ _ _ _))
  | @closes m p f hf hbm hshut hat hin =>
    have hshut' : ∀ q, b.pool = some q → l'.Shut q := fun q hq => (hshut q hq).retained hs.retains
    rcases closingDown_closed.happens hs hw hat hin with ⟨p', hp', hin', hno⟩ | ⟨o, hr'⟩
    · refine .closes hf ?_ hshut' hp' hin'
      rcases hs.bare (by rw [hbm]; simp) with he | ⟨i, u, w, k', hr', hgov, _⟩
      · exact he.trans hbm
      · obtain rfl := hg i u w k' hr' hgov
        exact absurd hgov (hno M u w k' hr')
    · have hl' := hs.works (w := .back f o) hr'
      have hp' := hs.works_point (w := .back f o) hw hr'
      have hu := ((Tame.refl m).setLock M Access.Lock.release).toUnmoved.bare M
      rcases hf with rfl | rfl | rfl
      · cases o with
        | error e => exact .fails (by rw [hl']; rfl) (hl' ▸ hbm)
        | ok => exact .single hs hw (w := .back (.poolShut M) (.ok ())) hr' rfl hbm hd hshut
      · cases o with
        | error e => exact .fails (by rw [hl']; rfl) (hl' ▸ hbm)
        | ok =>
          simp only [Work.perform, resume, State.lockedToClose] at hl' hp'
          split at hl'
          next hm =>
            rw [hm] at hp'
            exact .closes (.inr (.inr rfl)) (hl' ▸ hbm) hshut' hp' ⟨trivial, .base⟩
          next =>
            refine .fails (by rw [hl']; rfl) ?_
            rw [hl', (State.carryOn_unmoved _ _ _ _).bare]
            exact hu.trans hbm
      · cases o with
        | error e =>
          exact .fails (by rw [hl']; rfl) (by rw [hl', (State.carryOn_unmoved _ _ _ _).bare]; exact hu.trans hbm)
        | ok =>
          refine .succeeds (by rw [hl']; rfl) ?_ hshut'
          rw [hl', (State.carryOn_unmoved _ _ _ _).bare]
          refine (State.bare?_modifyManager (g := fun k => { k with single := none, database := none })
            fun _ => rfl).trans ?_
          rw [State.unlock, hu, hbm, Option.map_some, ← State.lock_of_bare hbm]
  | fails hr' => exact absurd hr' (hback _)
  | succeeds hr' => exact absurd hr' (hback _)

theorem Course.shutsDown (hc : Course may l past m) (hl : l.AtWork)
    (hr : l.running = some ⟨t, .unit, .call (.shutDown M), k⟩) (hb : l.bare? M = some b) (hd : b.database ≠ none)
    (hpool : ∀ q, b.pool = some q → ∃ s, l.pool? q = some s)
    (hfirst : ∀ z ∈ past, ∀ o, z.running ≠ some ⟨t, .unit, .give o, k⟩) (hg : ∀ z ∈ past, z.Governed M t) :
    l.ShutsDown t M b k m := by
  induction hc with
  | start => exact .begins
  | @step past m m' hc hs ih =>
    have hin : m ∈ past ++ [m] := List.mem_append_right _ (List.mem_singleton_self m)
    have hold := ih (fun z hz => hfirst z (List.mem_append_left _ hz)) fun z hz => hg z (List.mem_append_left _ hz)
    exact hold.happens hc hl hr hb hd hpool (hfirst m hin) (hg m hin) hs

end SqliteAccess.Loop
