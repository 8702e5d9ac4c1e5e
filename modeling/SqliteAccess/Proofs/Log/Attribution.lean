import SqliteAccess.Proofs.Batch.Borrowing
import SqliteAccess.Proofs.Batch.Untold
import SqliteAccess.Proofs.Log.Speaking

/-!
Who reports what. In each step only the task at work reports, under the id that it has in the step. The scope of
a call gives it an id if it has none, and takes that id from it when the call comes back.
-/

namespace SqliteAccess.Loop

open Access (Database)
open SqliteAccess.Pool (Lease)

inductive Switches (fresh : Nat) (c : Option Log.CorrelationId) : Nat → Option Log.CorrelationId → Prop
  | keeps : Switches fresh c fresh c
  | opens : c = none → Switches fresh c (fresh + 1) (some (.generated fresh))
  | closes : Switches fresh c fresh none

structure Attributes (l l' : State) : Prop where
  outside : l'.outside = l.outside
  log : ∃ es, l'.log = l.log ++ es ∧ ∀ e ∈ es, e.id = l.context
  made : ∀ {i c}, l.id? i = none → l'.id? i = some c → c = l.context
  kept : ∀ {i c}, l.current? ≠ some i → l.id? i = some c → l'.id? i = some c
  own : ∀ {t c}, l.current? = some t → l.id? t = some c →
    ∃ c', l'.id? t = some c' ∧ Switches l.fresh c l'.fresh c'
  fresh : l.fresh ≤ l'.fresh

inductive Frame.Scoped (restores : Bool) : {s u : Shape} → Frame s u → Prop
  | executing (M : Nat) (s : Sql.Statement) (k : Access.Mode) : Frame.Scoped restores (.executing M s k restores)
  | executed (M : Nat) (lease : Option Lease) : Frame.Scoped restores (.executed M lease restores)
  | batching (M : Nat) (ss : List Sql.Statement) (k : Access.Mode) :
      Frame.Scoped restores (.batching M ss k restores)
  | batched (M : Nat) (lease : Option Lease) (rest : List Sql.Statement) (k : Access.Mode)
      (done : List Access.Answer) : Frame.Scoped restores (.batched M lease rest k done restores)

def Call.Executes : {s : Shape} → Call s → Prop
  | _, .execute _ _ _ | _, .executeAll _ _ _ => True
  | _, _ => False

/-- The manager has a database, and the mode is one: the call opens a scope. -/
def Call.Opens (l : State) : {s : Shape} → Call s → Prop
  | _, .execute M _ mode | _, .executeAll M _ mode =>
    (∃ k, l.manager? M = some k ∧ k.enabled = true) ∧ ∃ m, Access.Mode.ofValue mode = .ok m
  | _, _ => False

def Call.Serves : {s : Shape} → Call s → Prop
  | _, .run _ _ _ _ => True
  | _, c => c.Borrows

def Frame.Serves : {s t : Shape} → Frame s t → Prop
  | _, _, .ran _ _ _ _ => True
  | _, _, f => f.Borrows

def serving : Circle where
  call := Call.Serves
  frame := Frame.Serves

variable {l l' m : State} {t i : Nat} {u v : Shape} {w : Work u} {k : Stack u} {n : Next u} {restores : Bool}
  {may : {s : Shape} → State → Call s → Prop} {c : Option Log.CorrelationId}

theorem Utters.log_ids (h : Utters l l') : ∃ es, l'.log = l.log ++ es ∧ ∀ e ∈ es, e.id = l.context :=
  h.log.imp fun _ hes => ⟨hes.1, fun e he => (hes.2 e he).1⟩

theorem Utters.attributes (h : Utters l l') : Attributes l l' :=
  ⟨h.outside, h.log_ids, h.made, fun _ hc => h.kept hc, fun _ hc => ⟨_, h.kept hc, h.fresh ▸ .keeps⟩, h.fresh.ge⟩

theorem State.wake_log (l : State) (t : Nat) (signal : Option Failure) : (l.wake t signal).log = l.log := by
  unfold wake
  split <;> rfl

theorem State.wake_id? (l : State) (t : Nat) (signal : Option Failure) (i : Nat) :
    (l.wake t signal).id? i = l.id? i := by
  unfold wake
  split
  next st _ _ _ _ =>
    exact State.id?_modifyTask (f := fun k => { k with status := .ready signal st }) (fun _ => rfl) t i
  next => rfl

theorem Utters.follow (h : Utters l m) (t : Nat) (f : Follower) : Utters l (m.follow t f) := by
  cases f with
  | dropBackground | count => exact h.then rfl rfl (fun _ => rfl) rfl
  | resume j =>
    exact h.then ((Speaks.refl m).wake j _).outside ((Speaks.refl m).wake j _).fresh
      (fun i => m.wake_id? j _ i) (m.wake_log j _)

theorem Utters.finish (l : State) (t : Nat) (o : Outcome u) : Utters l (l.finish t o) := by
  have all : ∀ (fs : List Follower) {m : State}, Utters l m →
      Utters l (fs.foldl (fun l f => l.follow t f) m) := by
    intro fs
    induction fs with
    | nil => exact fun h => h
    | cons f fs ih => exact fun h => ih (h.follow t f)
  refine all _ (.of_eq rfl rfl (fun i => ?_) rfl)
  exact State.id?_modifyTask (f := fun k => { k with status := .finished u o, followers := [] }) (fun _ => rfl) t i

theorem State.carryOn_silent (m : State) (t : Nat) (n : Next u) (k : Stack u) :
    (m.carryOn t n k).outside = m.outside ∧ (m.carryOn t n k).fresh = m.fresh ∧
      (∀ i, (m.carryOn t n k).id? i = m.id? i) ∧ (m.carryOn t n k).log = m.log := by
  refine ⟨by cases n <;> rfl, by cases n <;> rfl, fun i => ?_, by cases n <;> rfl⟩
  cases n with
  | give | call | jump => rfl
  | pause w f =>
    exact State.id?_modifyTask (f := fun x => { x with status := .paused w (.push f k) }) (fun _ => rfl) t i
  | again f =>
    exact State.id?_modifyTask (f := fun x => { x with status := .ready none (.push f k) }) (fun _ => rfl) t i

theorem Utters.carryOn (h : Utters l m) (t : Nat) (n : Next u) (k : Stack u) : Utters l (m.carryOn t n k) := by
  obtain ⟨ho, hf, hi, hl⟩ := m.carryOn_silent t n k
  exact h.then ho hf hi hl

theorem Attributes.carryOn (h : Attributes l m) (t : Nat) (n : Next u) (k : Stack u) :
    Attributes l (m.carryOn t n k) := by
  obtain ⟨ho, hf, hi, hl⟩ := m.carryOn_silent t n k
  refine ⟨ho.trans h.outside, hl ▸ h.log, fun {i _} hn hc => h.made hn ((hi i).symm.trans hc),
    fun {i _} hn hc => (hi i).trans (h.kept hn hc), fun {i _} ht hc => ?_, hf ▸ h.fresh⟩
  rw [hi, hf]
  exact h.own ht hc

theorem Speaks.ring (h : Speaks l m) (r : Nat) : Speaks l (m.ring r) := by
  rw [State.ring]
  generalize m.tasks.findIdx? _ = owner
  cases owner with
  | none => exact h
  | some t =>
    dsimp only
    split
    next p _ _ _ _ _ _ => exact (h.modifyPool p fun s => s.giveUp t).wake t _
    next => exact h.wake t none

theorem Speaks.count (h : Speaks l m) (t ended : Nat) : Speaks l (m.count t ended) := by
  rw [State.count]
  split
  next ts b st _ _ _ _ =>
    have hm : Speaks l (m.modifyTask t fun k => { k with status := .paused (.tasks (ts.erase ended) b) st }) :=
      h.modifyTask t fun _ => rfl
    dsimp only
    split
    · exact hm.wake t _
    · exact hm
  next => exact h

theorem Speaks.notice (h : Speaks l m) (t : Nat) : Speaks l (m.notice t) := by
  rw [State.notice]
  split
  · exact h.wake t _
  · exact h

theorem Speaks.perform (h : Speaks l m) (j : Job) : Utters l (m.perform j) := by
  cases j with
  | step t =>
    rw [State.perform, State.stepTask]
    split
    · refine h.toUtters.then rfl rfl (fun i => ?_) rfl
      exact State.id?_modifyTask (f := fun k => { k with status := .running, cancelRequested := false })
        (fun _ => rfl) t i
    · exact h.toUtters
  | ring r => exact (h.ring r).toUtters
  | dropBackground p t => exact (h.modifyPool p fun s => { s with background := s.background.erase t }).toUtters
  | count t ended => exact (h.count t ended).toUtters
  | notice t => exact (h.notice t).toUtters

theorem State.idle_utters (hr : l.running = none) (hl : l.step? = some l') : Utters l l' := by
  have job : ∀ {m : State}, Speaks l m → m.nextJob = some l' → Utters l l' := by
    intro m h hj
    unfold State.nextJob at hj
    split at hj
    · cases hj
    next j rest _ =>
      cases hj
      have hm : Speaks l { m with ready := rest, turnLeft := m.turnLeft - 1 } := h.quiet rfl rfl rfl rfl rfl
      exact hm.perform j
  unfold State.step? at hl
  rw [hr] at hl
  dsimp only at hl
  split at hl
  · exact job (m := l.startTurn) ((Speaks.refl l).quiet rfl rfl rfl rfl rfl) hl
  · exact job (.refl l) hl

theorem Utters.entered (l : State) (c : Call u) : Utters l (l.enter c) := by
  have ha := (Speaks.refl l).append (k := { status := .running, context := l.context }) rfl
  exact ha.toUtters.then rfl rfl (fun _ => rfl) rfl

theorem State.Happens.utters (hs : l.Happens may l') :
    (∃ (t : Nat) (u : Shape) (w : Work u) (k : Stack u), l.running = some (w.on t k) ∧ w.Scopes ∧
      l' = (w.perform l).1.carryOn t (w.perform l).2 k) ∨ Utters l l' := by
  cases hs with
  | loop hl =>
    cases hr : l.running with
    | none => exact .inr (State.idle_utters hr hl)
    | some r =>
      rw [State.step_running hr hl]
      rcases r.cases_on with ⟨u, w, k, he⟩ | ⟨u, o, he⟩
      · rw [he, State.advance_on]
        by_cases hw : w.Scopes
        · exact .inl ⟨_, u, w, k, rfl, hw, rfl⟩
        · exact .inr ((w.speaks hw l).toUtters.carryOn _ _ k)
      · rw [he]
        exact .inr (.finish l _ o)
  | @enter _ c => exact .inr (.entered l c)
  | @spawn _ c => exact .inr ((Speaks.refl l).spawn c []).toUtters
  | giveBack M c => exact .inr ((Speaks.refl l).giveBack M (some c)).toUtters
  | cancel t => exact .inr ((Speaks.refl l).cancel t).toUtters
  | @answer t =>
    have hg : Speaks l (l.modifyEngine fun e => e.letGo t) := (Speaks.refl l).quiet rfl rfl rfl rfl rfl
    exact .inr (hg.wake t none).toUtters
  | engine | tick => exact .inr (.of_eq rfl rfl (fun _ => rfl) rfl)

theorem Switches.le {a b : Nat} {d : Option Log.CorrelationId} (h : Switches a c b d) : a ≤ b := by
  cases h <;> omega

theorem State.id?_setContext {r : Running} (hr : l.running = some r) (c : Option Log.CorrelationId) (i : Nat) :
    (l.setContext c).id? i = if i = r.task then (l.id? i).map fun _ => c else l.id? i := by
  simp only [setContext, current?, hr, Option.map_some, id?, modifyTask]
  split
  next he =>
    rw [he, List.getElem?_modify_eq]
    cases l.tasks[r.task]? <;> rfl
  next hne => rw [List.getElem?_modify_ne _ _ (Ne.symm hne)]

theorem State.enterScope_spec {r : Running} (hr : l.running = some r) (hc : l.id? r.task = some c) :
    l.enterScope.2 = c.isNone ∧ l.enterScope.1.id? r.task = some (some (c.getD (.generated l.fresh))) ∧
      (∀ i, i ≠ r.task → l.enterScope.1.id? i = l.id? i) ∧ l.enterScope.1.outside = l.outside ∧
      l.enterScope.1.log = l.log ∧ Switches l.fresh c l.enterScope.1.fresh (some (c.getD (.generated l.fresh))) := by
  have hctx := State.context_of_id hr hc
  have set : ∀ (n : Nat) (d : Log.CorrelationId) (i : Nat), (State.setContext { l with fresh := n } (some d)).id? i =
      if i = r.task then (l.id? i).map fun _ => some d else l.id? i := fun n d i =>
    State.id?_setContext (l := { l with fresh := n }) hr (some d) i
  have rest : ∀ (n : Nat) (d : Log.CorrelationId), (State.setContext { l with fresh := n } (some d)).fresh = n ∧
      (State.setContext { l with fresh := n } (some d)).outside = l.outside ∧
      (State.setContext { l with fresh := n } (some d)).log = l.log := fun n d => by
    simp [State.setContext, State.current?, hr, State.modifyTask]
  unfold State.enterScope
  rw [hctx]
  cases c with
  | some d =>
    simp only [Log.Scope.enter, set, rest, hc]
    exact ⟨rfl, by simp, fun i hi => if_neg hi, trivial, trivial, .keeps⟩
  | none =>
    simp only [Log.Scope.enter, Log.CorrelationId.ofText, set, rest, hc]
    exact ⟨rfl, by simp, fun i hi => if_neg hi, trivial, trivial, .opens rfl⟩

theorem Call.Executes.begins {c : Call u} (hc : c.Executes) (l : State) :
    (c.Opens l ∧ ∃ (M : Nat) (f : Frame .borrowed u), begin l c = (l.enterScope.1, .call (.borrow M) f) ∧
      f.Scoped l.enterScope.2) ∨
    (¬ c.Opens l ∧ Speaks l (begin l c).1 ∧ ∃ o, (begin l c).2 = .give o) := by
  have same : Speaks l l := .refl l
  have shut : ∀ {k : Access.Manager} {m : Nat}, l.manager? m = some k → ¬ k.enabled = true →
      ¬ ∃ k', l.manager? m = some k' ∧ k'.enabled = true := by
    rintro k m hk hne ⟨k', hk', he⟩
    cases hk.symm.trans hk'
    exact hne he
  cases c with
  | execute M s mode =>
    simp only [begin, State.execute]
    split
    next hk => exact .inr ⟨fun ho => (by cases hk.symm.trans ho.1.choose_spec.1), same, _, rfl⟩
    next k hk =>
      split
      next he =>
        split
        next e hm => exact .inr ⟨fun ho => (by cases hm.symm.trans ho.2.choose_spec), same, _, rfl⟩
        next m hm => exact .inl ⟨⟨⟨k, hk, he⟩, m, hm⟩, M, _, rfl, .executing M s m⟩
      next he =>
        refine .inr ⟨fun ho => shut hk he ho.1, ?_, _, rfl⟩
        dsimp only
        exact same.report (.plain rfl)
  | executeAll M ss mode =>
    simp only [begin, State.executeAll]
    split
    next hk => exact .inr ⟨fun ho => (by cases hk.symm.trans ho.1.choose_spec.1), same, _, rfl⟩
    next k hk =>
      split
      next he =>
        split
        next e hm => exact .inr ⟨fun ho => (by cases hm.symm.trans ho.2.choose_spec), same, _, rfl⟩
        next m hm => exact .inl ⟨⟨⟨k, hk, he⟩, m, hm⟩, M, _, rfl, .batching M ss m⟩
      next he =>
        refine .inr ⟨fun ho => shut hk he ho.1, ?_, _, rfl⟩
        dsimp only
        exact same.report (.plain rfl)
  | _ => exact hc.elim

inductive Scoping (l : State) (restores : Bool) {u : Shape} : State × Next u → Prop
  | runs (d : Database) (h : Pool.Handle) (q : Sql.Statement) (k : Access.Mode) {f : Frame .answer u} :
      f.Scoped restores → Scoping l restores (l, .call (.run d h q k) f)
  | leaves {m : State} (o : Outcome u) : Speaks l m → Scoping l restores (m.leaveScope restores, .give o)

theorem State.endCall_scoping (l : State) (M : Nat) (lease : Option Lease) (restores : Bool) (o : Outcome u) :
    Scoping l restores (l.endCall M lease restores o) := by
  obtain ⟨o', ho⟩ := l.endBlock_eq M lease o
  rw [State.endCall, ho]
  exact .leaves o' ((Speaks.refl l).giveBack M lease)

theorem State.batchFrom_scoping (l : State) (M : Nat) (lease : Option Lease) (k : Access.Mode)
    (done : List Access.Answer) (restores : Bool) (ss : List Sql.Statement) :
    Scoping l restores (l.batchFrom M lease k done restores ss) := by
  cases ss with
  | nil => exact l.endCall_scoping M lease restores _
  | cons s rest =>
    rw [State.batchFrom]
    cases l.target? M lease with
    | none => exact l.endCall_scoping M lease restores _
    | some x => exact .runs x.1 x.2.handle s k (.batched M lease rest k done)

theorem Frame.Scoped.resumes {f : Frame v u} (hf : f.Scoped restores) (l : State) (o : Outcome v) :
    Scoping l restores (resume l f o) := by
  cases hf with
  | executing M s k =>
    cases o with
    | error e => exact .leaves _ (.refl l)
    | ok lease =>
      simp only [resume, State.executing]
      split
      · exact l.endCall_scoping M lease restores _
      next d c _ => exact .runs d c.handle s k (.executed M lease)
  | executed M lease => exact l.endCall_scoping M lease restores _
  | batching M ss k =>
    cases o with
    | error e => exact .leaves _ (.refl l)
    | ok lease => exact l.batchFrom_scoping M lease k [] restores ss
  | batched M lease rest k done =>
    cases o with
    | error e => exact l.endCall_scoping M lease restores _
    | ok a => exact l.batchFrom_scoping M lease k (done ++ [a]) restores rest

theorem Work.Scopes.cases (hw : w.Scopes) : (∃ c : Call u, w = .call c ∧ c.Executes) ∨
    ∃ (s : Shape) (f : Frame s u) (o : Outcome s) (restores : Bool), w = .back f o ∧ f.Scoped restores := by
  cases w with
  | call c =>
    cases c with
    | execute | executeAll => exact .inl ⟨_, rfl, trivial⟩
    | _ => exact hw.elim
  | back f o =>
    cases f with
    | executing M s k => exact .inr ⟨_, _, o, _, rfl, .executing M s k⟩
    | executed M lease => exact .inr ⟨_, _, o, _, rfl, .executed M lease⟩
    | batching M ss k => exact .inr ⟨_, _, o, _, rfl, .batching M ss k⟩
    | batched M lease rest k done => exact .inr ⟨_, _, o, _, rfl, .batched M lease rest k done⟩
    | _ => exact hw.elim

theorem State.leaveScope_spec {r : Running} (hr : l.running = some r) (hc : l.id? r.task = some c) (restores : Bool) :
    (l.leaveScope restores).id? r.task = some (if restores then none else c) ∧
      (∀ i, i ≠ r.task → (l.leaveScope restores).id? i = l.id? i) ∧ (l.leaveScope restores).outside = l.outside ∧
      (l.leaveScope restores).log = l.log ∧ (l.leaveScope restores).fresh = l.fresh := by
  cases restores with
  | false => exact ⟨hc, fun _ _ => rfl, rfl, rfl, rfl⟩
  | true =>
    simp only [State.leaveScope, if_true, State.id?_setContext hr, hc]
    refine ⟨rfl, fun i hi => if_neg hi, ?_⟩
    simp [State.setContext, State.current?, hr, State.modifyTask]

theorem Scoping.attributes {x : State × Next u} (h : Scoping l restores x) {r : Running} (hr : l.running = some r)
    (hc : l.id? r.task = some c) : Attributes l x.1 := by
  cases h with
  | runs => exact (Speaks.refl l).toUtters.attributes
  | @leaves m o hs =>
    have hctx := State.context_of_id hr hc
    obtain ⟨hown, hothers, hout, hlog, hfresh⟩ := State.leaveScope_spec (hs.running.trans hr) (hs.kept hc) restores
    have hcur : l.current? = some r.task := by rw [State.current?, hr]; rfl
    refine ⟨hout.trans hs.outside, hlog ▸ hs.log_ids, fun {i d} hn hd => ?_, fun {i d} hi hd => ?_,
      fun {t d} ht hd => ?_, (hfresh.trans hs.fresh).ge⟩
    · by_cases hi : i = r.task
      · subst hi
        cases hn.symm.trans hc
      · exact hs.made hn ((hothers i hi).symm.trans hd)
    · exact (hothers i fun he => hi (he ▸ hcur)).trans (hs.kept hd)
    · cases hcur.symm.trans ht
      cases hc.symm.trans hd
      rw [hown, hfresh, hs.fresh]
      cases restores with
      | true => exact ⟨_, rfl, .closes⟩
      | false => exact ⟨_, rfl, .keeps⟩

theorem State.enterScope_attributes {r : Running} (hr : l.running = some r) (hc : l.id? r.task = some c) :
    Attributes l l.enterScope.1 := by
  obtain ⟨_, hown, hothers, hout, hlog, hswitch⟩ := State.enterScope_spec hr hc
  have hcur : l.current? = some r.task := by rw [State.current?, hr]; rfl
  refine ⟨hout, ⟨[], by simpa using hlog, by simp⟩, fun {i d} hn hd => ?_, fun {i d} hi hd => ?_,
    fun {t d} ht hd => ?_, ?_⟩
  · by_cases hi : i = r.task
    · subst hi
      cases hn.symm.trans hc
    · cases hn.symm.trans ((hothers i hi).symm.trans hd)
  · exact (hothers i fun he => hi (he ▸ hcur)).trans hd
  · cases hcur.symm.trans ht
    cases hc.symm.trans hd
    exact ⟨_, hown, hswitch⟩
  · exact hswitch.le

theorem State.Happens.attributes (hs : l.Happens may l') (hl : l.AtWork) : Attributes l l' := by
  rcases hs.utters with ⟨t, u, w, k, hr, hw, rfl⟩ | h
  · refine Attributes.carryOn ?_ t _ k
    obtain ⟨x, hx, _⟩ := hl _ hr
    have hc : l.id? (w.on t k).task = some x.context := by rw [State.id?, hx]; rfl
    rcases hw.cases with ⟨c, rfl, hexec⟩ | ⟨s, f, o, restores, rfl, hf⟩
    · rcases hexec.begins l with ⟨_, M, f, he, _⟩ | ⟨_, hspeaks, _⟩
      · rw [show (Work.call c).perform l = _ from he]
        exact State.enterScope_attributes hr hc
      · exact hspeaks.toUtters.attributes
    · exact (hf.resumes l o).attributes hr hc
  · exact h.attributes

theorem serving_works (w : Work u) (l : State) (hw : serving.work w) : serving.next (w.perform l).2 := by
  have borrows : ∀ {n : Next u}, borrowing.next n → serving.next n := by
    refine Circle.next_mono (fun c h => ?_) fun f h => ?_
    · cases c <;> first | exact h | exact h.elim
    · cases f <;> first | exact h | exact h.elim
  cases w with
  | call c =>
    cases c with
    | run d h s m => exact ⟨trivial, trivial⟩
    | _ => exact borrows (borrowing_next _ l hw)
  | back f o =>
    cases f with
    | ran d sql m start => cases o <;> trivial
    | _ => exact borrows (borrowing_next _ l hw)

theorem serving_not_scopes (hw : serving.work w) : ¬ w.Scopes := by
  cases w with
  | call c => cases c <;> first | exact hw.elim | exact id
  | back f o => cases f <;> first | exact hw.elim | exact id

end SqliteAccess.Loop
