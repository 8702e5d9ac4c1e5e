import SqliteAccess.Proofs.Log.Attribution
import SqliteAccess.Proofs.Log.Unseen

/-!
Bound secrets and the log. Two runs in which the same things happen, but that calls bind other values that are
shown alike, are the same run once it is masked; so they log the same, and what they log gives no secret away.
-/

namespace SqliteAccess.Sql

structure Statement.Alike (s s' : Statement) : Prop where
  sql : s'.sql = s.sql
  params : Log.redact s'.params = Log.redact s.params

theorem Statement.Alike.masked {s s' : Statement} (h : s.Alike s') : s'.masked = s.masked := by
  obtain ⟨hs, hp⟩ := h
  rw [Statement.masked, Statement.masked, hs, hp]

end SqliteAccess.Sql

namespace SqliteAccess.Loop

open SqliteAccess.Pool (Lease)
open Sql (Statement)

/-- The same call, but that it may bind other values that are shown alike. -/
inductive Call.Alike : {s : Shape} → Call s → Call s → Prop
  | same {s : Shape} (c : Call s) : Call.Alike c c
  | execute {M : Nat} {s s' : Statement} {mode : Value} : s.Alike s' →
      Call.Alike (.execute M s mode) (.execute M s' mode)
  | executeAll {M : Nat} {ss ss' : List Statement} {mode : Value} : List.Forall₂ Statement.Alike ss ss' →
      Call.Alike (.executeAll M ss mode) (.executeAll M ss' mode)

/-- What may happen to a loop. -/
inductive Occurrence where
  | turn
  | enter {s : Shape} (c : Call s)
  | spawn {s : Shape} (c : Call s)
  | giveBack (M : Nat) (c : Lease)
  | cancel (t : Nat)
  | answer (t : Nat)
  | engine (rules : List Engine.Rule) (openings : List Engine.Opening) (closings : List Engine.Closing)
  | tick (now : Float)

inductive Occurrence.Alike : Occurrence → Occurrence → Prop
  | same (e : Occurrence) : Occurrence.Alike e e
  | enter {s : Shape} {c c' : Call s} : c.Alike c' → Occurrence.Alike (.enter c) (.enter c')
  | spawn {s : Shape} {c c' : Call s} : c.Alike c' → Occurrence.Alike (.spawn c) (.spawn c')

namespace State

def isHeld (l : State) (t : Nat) : Bool :=
  match l.tasks[t]? with
  | some { status := .paused .held _, .. } => true
  | _ => false

def undergo? (l : State) (e : Occurrence) : Option State :=
  match e with
  | .turn => l.step?
  | .enter c => if l.running.isNone then some (l.enter c) else none
  | .spawn c => if l.running.isNone then some (l.spawn c []).1 else none
  | .giveBack M c => if l.running.isNone then some (l.giveBack M (some c)).1 else none
  | .cancel t => if l.running.isNone then some (l.cancel t) else none
  | .answer t => if l.running.isNone && l.isHeld t then some (l.answerHeld t) else none
  | .engine rules openings closings =>
    if l.running.isNone then some (l.modifyEngine fun e => { e with rules, openings, closings }) else none
  | .tick now => if l.running.isNone then some { l with clock := now } else none

/-- The loop after a schedule of events, if each of them can happen in its turn. -/
def afterAll? (l : State) (es : List Occurrence) : Option State := es.foldlM undergo? l

end State

variable {l l' m m' : State} {u : Shape}

theorem Work.perform_masked (l : State) (w : Work u) :
    maskedBoth (w.masked.perform l.masked) = maskedBoth (w.perform l) := by
  cases w with
  | call c => exact begin_masked l c
  | back f o => exact resume_masked l f o

namespace State

theorem carryOn_masked (l : State) (t : Nat) (n : Next u) (k : Stack u) :
    l.masked.carryOn t n.masked k.masked = (l.carryOn t n k).masked := by
  cases n with
  | give | call | jump => rfl
  | pause w f =>
    have h := masked_modifyTask (f := fun x => { x with status := .paused w (.push f k) })
      (g := fun x => { x with status := .paused w (.push f.masked k.masked) }) (fun _ => rfl) l t
    exact congrArg (fun l : State => { l with running := none }) h
  | again f =>
    have h := masked_modifyTask (f := fun x => { x with status := .ready none (.push f k) })
      (g := fun x => { x with status := .ready none (.push f.masked k.masked) }) (fun _ => rfl) l t
    exact congrArg (fun l : State => { l.enqueue (.step t) with running := none }) h

theorem follow_masked (l : State) (t : Nat) (f : Follower) : l.masked.follow t f = (l.follow t f).masked := by
  cases f with
  | resume k => simp only [follow, masked_endOf, masked_wake]
  | dropBackground | count => rfl

theorem finish_masked (l : State) (t : Nat) (o : Outcome u) : l.masked.finish t o = (l.finish t o).masked := by
  have hf : (l.masked.tasks[t]?).map (·.followers) = (l.tasks[t]?).map (·.followers) := by
    rw [masked_tasks, List.getElem?_map]
    cases l.tasks[t]? <;> rfl
  have h := masked_modifyTask (f := fun x => { x with status := .finished u o, followers := [] })
    (g := fun x => { x with status := .finished u o, followers := [] }) (fun _ => rfl) l t
  simp only [finish, hf, h]
  exact masked_foldl (fun l f => follow_masked l t f)
    { l.modifyTask t fun x => { x with status := .finished u o, followers := [] } with running := none } _

theorem advance_masked (l : State) (r : Running) : (l.masked.advance r.masked).masked = (l.advance r).masked := by
  rcases r.cases_on with ⟨u, w, k, he⟩ | ⟨u, o, he⟩
  · have hr : r.masked = w.masked.on r.task k.masked := by
      rw [he]
      cases w <;> rfl
    have hw := w.perform_masked l
    rw [hr, he, advance_on, advance_on, Work.on_task, ← carryOn_masked, ← carryOn_masked,
      Stack.masked_masked, show (w.masked.perform l.masked).1.masked = (w.perform l).1.masked from congrArg Prod.fst hw,
      show (w.masked.perform l.masked).2.masked = (w.perform l).2.masked from congrArg Prod.snd hw]
  · rw [he]
    exact (congrArg State.masked (finish_masked l r.task o)).trans (masked_masked _)

theorem stepTask_masked (l : State) (t : Nat) : l.masked.stepTask t = (l.stepTask t).masked := by
  simp only [stepTask, masked_tasks, List.getElem?_map]
  rcases l.tasks[t]? with _ | ⟨status, _, b, _⟩
  · rfl
  · cases status with
    | ready signal k =>
      have h := masked_modifyTask (f := fun x => { x with status := .running, cancelRequested := false })
        (g := fun x => { x with status := .running, cancelRequested := false }) (fun _ => rfl) l t
      simp only [Option.map_some, Task.masked, Status.masked, h]
      rfl
    | _ => rfl

theorem findIdx?_masked {f : Task → Bool} (hf : ∀ k, f k.masked = f k) (l : State) :
    l.masked.tasks.findIdx? f = l.tasks.findIdx? f := by
  have h : f ∘ Task.masked = f := funext hf
  rw [masked_tasks, List.findIdx?_map, h]

theorem ring_masked (l : State) (n : Nat) : l.masked.ring n = (l.ring n).masked := by
  unfold ring
  rw [findIdx?_masked fun k => ?waits]
  case waits =>
    obtain ⟨status, _, _, _⟩ := k
    cases status with
    | paused w k =>
      cases w with
      | turn p timer => cases timer <;> rfl
      | _ => rfl
    | _ => rfl
  generalize l.tasks.findIdx? _ = owner
  cases owner with
  | none => rfl
  | some t =>
    simp only [masked_tasks, List.getElem?_map, masked_modifyPool, masked_pool?, masked_wake]
    rcases l.tasks[t]? with _ | ⟨status, _, _, _⟩
    · rfl
    · cases status with
      | paused w k => cases w <;> rfl
      | _ => rfl

theorem count_masked (l : State) (t ended : Nat) : l.masked.count t ended = (l.count t ended).masked := by
  simp only [count, masked_tasks, List.getElem?_map]
  rcases l.tasks[t]? with _ | ⟨status, _, _, _⟩
  · rfl
  · cases status with
    | paused w k =>
      cases w with
      | tasks ts b =>
        have h := masked_modifyTask (f := fun x => { x with status := .paused (.tasks (ts.erase ended) b) k })
          (g := fun x => { x with status := .paused (.tasks (ts.erase ended) b) k.masked }) (fun _ => rfl) l t
        simp only [Option.map_some, Task.masked, Status.masked, h, masked_wake]
        split <;> rfl
      | _ => rfl
    | _ => rfl

theorem notice_masked (l : State) (t : Nat) : l.masked.notice t = (l.notice t).masked := by
  simp only [notice, masked_tasks, List.getElem?_map, masked_pool?, masked_wake]
  rcases l.tasks[t]? with _ | ⟨status, _, _, _⟩
  · rfl
  · cases status with
    | paused w k => cases w <;> rfl
    | _ => rfl

theorem perform_masked (l : State) (j : Job) : l.masked.perform j = (l.perform j).masked := by
  cases j with
  | step t => exact stepTask_masked l t
  | ring n => exact ring_masked l n
  | dropBackground p t => rfl
  | count t ended => exact count_masked l t ended
  | notice t => exact notice_masked l t

theorem nextJob_masked (l : State) : l.masked.nextJob = l.nextJob.map masked := by
  simp only [nextJob, masked_ready]
  split
  · rfl
  next j rest hj => exact congrArg some (perform_masked { l with ready := rest, turnLeft := l.turnLeft - 1 } j)

theorem step?_masked (l : State) : l.masked.step?.map masked = l.step?.map masked := by
  unfold step?
  rw [masked_running]
  cases l.running with
  | some r => exact congrArg some (advance_masked l r)
  | none =>
    have job : ∀ l : State, l.masked.nextJob.map masked = l.nextJob.map masked := fun l => by
      rw [nextJob_masked, Option.map_map]
      simp [Function.comp_def]
    change (if l.turnLeft = 0 then l.masked.startTurn.nextJob else l.masked.nextJob).map masked =
      (if l.turnLeft = 0 then l.startTurn.nextJob else l.nextJob).map masked
    split
    · exact job l.startTurn
    · exact job l

end State

theorem Call.Alike.masked {c c' : Call u} (h : c.Alike c') : c'.masked = c.masked := by
  cases h with
  | same => rfl
  | execute hs => rw [Call.masked, Call.masked, hs.masked]
  | executeAll hss =>
    rw [Call.masked, Call.masked]
    congr 1
    induction hss with
    | nil => rfl
    | cons hs _ ih => rw [List.map_cons, List.map_cons, hs.masked, ih]

def Occurrence.masked : Occurrence → Occurrence
  | .enter c => .enter c.masked
  | .spawn c => .spawn c.masked
  | e => e

theorem Occurrence.Alike.masked {e e' : Occurrence} (h : e.Alike e') : e'.masked = e.masked := by
  cases h with
  | same => rfl
  | enter hc => exact congrArg Occurrence.enter hc.masked
  | spawn hc => exact congrArg Occurrence.spawn hc.masked

namespace State

theorem enter_masked (l : State) (c : Call u) : l.masked.enter c.masked = (l.enter c).masked := by
  simp only [enter, masked_context, masked_tasks, List.length_map]
  simp [masked, Running.masked, Control.masked, Stack.masked, Task.masked, Status.masked]

theorem answerHeld_masked (l : State) (t : Nat) : l.masked.answerHeld t = (l.answerHeld t).masked := by
  rw [answerHeld, masked_letGo, masked_wake, answerHeld]

theorem isHeld_masked (l : State) (t : Nat) : l.masked.isHeld t = l.isHeld t := by
  simp only [isHeld, masked_tasks, List.getElem?_map]
  rcases l.tasks[t]? with _ | ⟨status, _, _, _⟩
  · rfl
  · cases status with
    | paused w k => cases w <;> rfl
    | _ => rfl

theorem undergo?_masked (l : State) (e : Occurrence) :
    (l.masked.undergo? e.masked).map masked = (l.undergo? e).map masked := by
  have idle : l.masked.running.isNone = l.running.isNone := by cases h : l.running <;> simp [h]
  have guarded : ∀ {b : Bool} {m m' : State}, m = m'.masked →
      (if b then some m else none).map masked = (if b then some m' else none).map masked := by
    rintro b m m' rfl
    cases b <;> simp
  cases e with
  | turn => exact step?_masked l
  | enter c =>
    simp only [undergo?, Occurrence.masked, idle]
    exact guarded (enter_masked l c)
  | spawn c =>
    simp only [undergo?, Occurrence.masked, idle]
    exact guarded (congrArg Prod.fst (masked_spawn l c []))
  | giveBack M c =>
    simp only [undergo?, Occurrence.masked, idle]
    exact guarded (congrArg Prod.fst (masked_giveBack l M (some c)))
  | cancel t =>
    simp only [undergo?, Occurrence.masked, idle]
    exact guarded (masked_cancel l t)
  | answer t =>
    simp only [undergo?, Occurrence.masked, idle, isHeld_masked]
    exact guarded (answerHeld_masked l t)
  | engine | tick =>
    simp only [undergo?, Occurrence.masked, idle]
    exact guarded rfl

theorem undergo?_alike {e e' : Occurrence} (he : e.Alike e') (hl : l'.masked = l.masked) :
    (l'.undergo? e').map masked = (l.undergo? e).map masked := by
  rw [← undergo?_masked, hl, he.masked, undergo?_masked]

theorem afterAll?_alike {es es' : List Occurrence} (he : List.Forall₂ Occurrence.Alike es es')
    (hl : l'.masked = l.masked) : (l'.afterAll? es').map masked = (l.afterAll? es).map masked := by
  induction he generalizing l l' with
  | nil => exact congrArg some hl
  | @cons e e' es es' he _ ih =>
    have h := undergo?_alike he hl
    simp only [afterAll?, List.foldlM_cons] at ih ⊢
    cases hx : l.undergo? e with
    | none =>
      rw [hx, Option.map_none, Option.map_eq_none_iff] at h
      rw [h]
      rfl
    | some x =>
      rw [hx, Option.map_some, Option.map_eq_some_iff] at h
      obtain ⟨x', hx', hm⟩ := h
      rw [hx']
      exact ih hm

theorem setContext_log (l : State) (c : Option Log.CorrelationId) : (l.setContext c).log = l.log := by
  unfold setContext
  split <;> rfl

theorem enterScope_log (l : State) : l.enterScope.1.log = l.log := setContext_log { l with fresh := _ } _

theorem leaveScope_log (l : State) (restores : Bool) : (l.leaveScope restores).log = l.log := by
  unfold leaveScope
  split
  · exact setContext_log l none
  · rfl

theorem Happens.discreet {may : {s : Shape} → State → Call s → Prop} (hs : l.Happens may l') :
    ∃ es, l'.log = l.log ++ es ∧ ∀ e ∈ es, e.record.Discreet := by
  have tells : ∀ {m : State}, Utters l m → ∃ es, m.log = l.log ++ es ∧ ∀ e ∈ es, e.record.Discreet := fun h =>
    h.log.imp fun _ hes => ⟨hes.1, fun e he => (hes.2 e he).2⟩
  rcases hs.utters with ⟨t, u, w, k, _, hw, rfl⟩ | h
  · rw [(carryOn_silent _ t _ k).2.2.2]
    rcases hw.cases with ⟨c, rfl, hexec⟩ | ⟨s, f, o, restores, rfl, hf⟩
    · rcases hexec.begins l with ⟨_, M, f, he, _⟩ | ⟨_, hspeaks, _⟩
      · rw [show (Work.call c).perform l = _ from he, enterScope_log]
        exact ⟨[], (List.append_nil _).symm, by simp⟩
      · exact tells hspeaks.toUtters
    · have hr := hf.resumes l o
      rw [Work.perform]
      generalize resume l f o = x at hr
      cases hr with
      | runs => exact ⟨[], (List.append_nil _).symm, by simp⟩
      | leaves o hm =>
        rw [leaveScope_log]
        exact tells hm.toUtters
  · exact tells h

theorem undergo?_happens {e : Occurrence} (he : l.undergo? e = some m) : l.Happens (fun _ _ => True) m := by
  have guarded : ∀ {b : Bool} {x : State}, (if b then some x else none) = some m → b = true ∧ x = m := by
    intro b x h
    cases b with
    | false => cases h
    | true => exact ⟨rfl, Option.some.inj h⟩
  cases e with
  | turn => exact .loop he
  | answer t =>
    obtain ⟨hb, rfl⟩ := guarded he
    rw [Bool.and_eq_true, Option.isNone_iff_eq_none] at hb
    have hh := hb.2
    unfold isHeld at hh
    split at hh
    next hk => exact .answer hb.1 hk rfl
    next => cases hh
  | _ =>
    obtain ⟨hb, rfl⟩ := guarded he
    rw [Option.isNone_iff_eq_none] at hb
    first
      | exact .enter hb trivial
      | exact .spawn hb trivial
      | exact .giveBack _ _ hb
      | exact .cancel _ hb
      | exact .engine _ _ _ hb
      | exact .tick _ hb

theorem afterAll?_discreet {es : List Occurrence} (h : l.afterAll? es = some m) :
    ∃ new, m.log = l.log ++ new ∧ ∀ e ∈ new, e.record.Discreet := by
  induction es generalizing l with
  | nil =>
    cases h
    exact ⟨[], (List.append_nil _).symm, by simp⟩
  | cons e es ih =>
    obtain ⟨x, hx, hm⟩ := Option.bind_eq_some_iff.mp h
    obtain ⟨said, hsaid, hd⟩ := (undergo?_happens hx).discreet
    obtain ⟨new, hnew, hd'⟩ := ih hm
    refine ⟨said ++ new, by rw [hnew, hsaid, List.append_assoc], fun e he => ?_⟩
    exact (List.mem_append.mp he).elim (hd e) (hd' e)

end State

/-- Whatever else happens to a loop, and whatever its engine answers: if calls bind other values that are shown
alike, the same can happen, and the log comes out the same, record by record. No record gives a secret away. -/
theorem secrets_stay_out {l m : State} {es es' : List Occurrence} (he : List.Forall₂ Occurrence.Alike es es')
    (hm : l.afterAll? es = some m) :
    (∃ m', l.afterAll? es' = some m' ∧ m'.log = m.log) ∧
      ∃ new, m.log = l.log ++ new ∧ ∀ e ∈ new, ∀ v ∈ e.record.params, ¬ Log.Revealing v := by
  refine ⟨?_, State.afterAll?_discreet hm⟩
  have h := State.afterAll?_alike he (l := l) rfl
  rw [hm, Option.map_some, Option.map_eq_some_iff] at h
  obtain ⟨m', hm', hmask⟩ := h
  have hlog : m'.masked.log = m.masked.log := congrArg State.log hmask
  exact ⟨m', hm', hlog⟩

def signingUp (secret : String) : List Occurrence :=
  .enter (.setUp 0 (some { filename := "f" }) (.pooled { minConnections := .int 0 })) :: .turn :: .turn ::
    .engine [{ start := "INSERT", fault := some ⟨"IntegrityError", "UNIQUE"⟩ }] []
      [{ hold := true, fault := some ⟨"OperationalError", "disk I/O error"⟩ }] ::
    .enter (.execute 0 ⟨"INSERT INTO t VALUES (?, ?)", [.text secret, .int 1]⟩ (.text "insert")) ::
    List.replicate 23 .turn ++ .enter (.shutDown 0) :: List.replicate 9 .turn ++ .answer 3 :: List.replicate 6 .turn

/-- Two secrets, one of them in capitals: the logs are the same, and show neither. -/
theorem secrets_stay_out_twoSignUps :
    List.Forall₂ Occurrence.Alike (signingUp "my PassWord") (signingUp "Bearer of news") ∧
      ∃ m m', State.afterAll? { managers := [{}] } (signingUp "my PassWord") = some m ∧
        State.afterAll? { managers := [{}] } (signingUp "Bearer of news") = some m' ∧ m'.log = m.log ∧
        (∀ e ∈ m.log, ∀ v ∈ e.record.params, ¬ Log.Revealing v) ∧
        m.log.map (fun e => e.record.params.map Value.asText) = [[], [], [], ["***", "1"], [], []] := by
  have hmy : Log.isSensitive "my PassWord" = true := by decide +kernel
  have hbearer : Log.isSensitive "Bearer of news" = true := by decide +kernel
  have hparams : Log.redact [.text "Bearer of news", .int 1] = Log.redact [.text "my PassWord", .int 1] := by
    simp [Log.redact, Log.redactValue, hmy, hbearer]
  have he : List.Forall₂ Occurrence.Alike (signingUp "my PassWord") (signingUp "Bearer of news") :=
    .cons (.same _) <| .cons (.same _) <| .cons (.same _) <| .cons (.same _) <|
      .cons (.enter (.execute ⟨rfl, hparams⟩)) <| List.forall₂_same.mpr fun e _ => .same e
  obtain ⟨m, hm⟩ := Option.isSome_iff_exists.mp
    (show (State.afterAll? { managers := [{}] } (signingUp "my PassWord")).isSome = true by decide +kernel)
  have hshown : ((State.afterAll? { managers := [{}] } (signingUp "my PassWord")).map fun m =>
      m.log.map fun e => e.record.params.map Value.asText) = some [[], [], [], ["***", "1"], [], []] := by
    decide +kernel
  obtain ⟨⟨m', hm', hlog⟩, new, hnew, hd⟩ := secrets_stay_out he hm
  rw [hm] at hshown
  exact ⟨he, m, m', hm, hm', hlog, hnew ▸ hd, Option.some.inj hshown⟩

end SqliteAccess.Loop
