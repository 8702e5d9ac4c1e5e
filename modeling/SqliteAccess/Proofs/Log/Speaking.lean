import SqliteAccess.Proofs.Life.Course
import SqliteAccess.Proofs.Log.Redacted

/-!
Under which correlation ids calls report. Whatever a step logs goes under the id of the task at work, and gives
away no bound secret; a task that it makes gets that id, and no step changes the id of a task but those that open
and close the scope of a call.
-/

namespace SqliteAccess.Loop

open Access (Database)
open SqliteAccess.Pool (Handle Lease)

namespace State

/-- The correlation id of a task, if there is the task. -/
def id? (l : State) (i : Nat) : Option (Option Log.CorrelationId) := (l.tasks[i]?).map (·.context)

end State

structure Utters (l m : State) : Prop where
  outside : m.outside = l.outside
  fresh : m.fresh = l.fresh
  kept : ∀ {i c}, l.id? i = some c → m.id? i = some c
  made : ∀ {i c}, l.id? i = none → m.id? i = some c → c = l.context
  log : ∃ es, m.log = l.log ++ es ∧ ∀ e ∈ es, e.id = l.context ∧ e.record.Discreet

structure Speaks (l m : State) : Prop extends Utters l m where
  running : m.running = l.running

def Work.Scopes : {u : Shape} → Work u → Prop
  | _, .call (.execute _ _ _) | _, .call (.executeAll _ _ _) => True
  | _, .back (.executing _ _ _ _) _ | _, .back (.executed _ _ _) _ | _, .back (.batching _ _ _ _) _
  | _, .back (.batched _ _ _ _ _ _) _ => True
  | _, _ => False

variable {l m n : State} {p t i M : Nat} {u : Shape}

theorem toSqlRecords_discreet (w : Sql.Writer) (b : Schema.Blueprint) : ∀ r ∈ Schema.toSqlRecords w b, r.Discreet := by
  have one : ∀ c, ∀ r ∈ Schema.announcements w b c, r.Discreet := by
    intro c r hr
    unfold Schema.announcements at hr
    split at hr
    · rw [List.mem_singleton.mp hr]
      exact .plain rfl
    · rw [List.mem_singleton.mp hr]
      exact .plain rfl
    · cases hr
  have all : ∀ cs, ∀ r ∈ Schema.announcementsOf w b cs, r.Discreet := by
    intro cs
    induction cs with
    | nil => exact fun r hr => nomatch hr
    | cons c cs ih =>
      intro r hr
      rcases List.mem_append.mp hr with hr | hr
      · exact one c r hr
      · split at hr
        · exact ih r hr
        · cases hr
  exact all b.commands

theorem State.id?_of_tasks (h : m.tasks = l.tasks) (i : Nat) : m.id? i = l.id? i := by
  rw [id?, id?, h]

theorem State.id?_modifyTask {f : Task → Task} (hf : ∀ k, (f k).context = k.context) (t i : Nat) :
    (l.modifyTask t f).id? i = l.id? i := by
  simp only [id?, modifyTask]
  by_cases hi : t = i
  · subst hi
    rw [List.getElem?_modify_eq]
    cases l.tasks[t]? with
    | none => rfl
    | some k => exact congrArg some (hf k)
  · rw [List.getElem?_modify_ne _ _ hi]

theorem State.id?_append (k : Task) : State.id? { l with tasks := l.tasks ++ [k] } i =
    if i = l.tasks.length then some k.context else l.id? i := by
  simp only [id?]
  rcases Nat.lt_trichotomy i l.tasks.length with h | rfl | h
  · rw [List.getElem?_append_left h, if_neg (by omega)]
  · simp
  · rw [List.getElem?_eq_none (by simp; omega), List.getElem?_eq_none (by omega), if_neg (by omega)]

theorem State.id?_eq_none : l.id? i = none ↔ l.tasks.length ≤ i := by
  rw [id?, Option.map_eq_none_iff, List.getElem?_eq_none_iff]

theorem State.context_idle (hr : l.running = none) : l.context = l.outside := by
  rw [context, current?, hr]
  rfl

theorem State.context_running {r : Running} (hr : l.running = some r) : l.context = (l.id? r.task).join := by
  simp only [context, current?, hr, id?, Option.map_some]
  cases l.tasks[r.task]? <;> rfl

theorem State.context_of_id {r : Running} {c : Option Log.CorrelationId} (hr : l.running = some r)
    (hc : l.id? r.task = some c) : l.context = c := by
  rw [context_running hr, hc]
  rfl

theorem Utters.of_eq (ho : m.outside = l.outside) (hf : m.fresh = l.fresh) (hi : ∀ i, m.id? i = l.id? i)
    (hl : m.log = l.log) : Utters l m :=
  ⟨ho, hf, fun {i _} hc => (hi i).trans hc, fun {i _} hn hc => (nomatch hn.symm.trans ((hi i).symm.trans hc)), [],
    by simpa using hl, fun _ he => nomatch he⟩

theorem Utters.then (h : Utters l m) (ho : n.outside = m.outside) (hf : n.fresh = m.fresh)
    (hi : ∀ i, n.id? i = m.id? i) (hl : n.log = m.log) : Utters l n := by
  refine ⟨ho.trans h.outside, hf.trans h.fresh, fun {i _} hc => (hi i).trans (h.kept hc),
    fun {i _} hn hc => h.made hn ((hi i).symm.trans hc), ?_⟩
  rw [hl]
  exact h.log

namespace Speaks

theorem refl (l : State) : Speaks l l := ⟨.of_eq rfl rfl (fun _ => rfl) rfl, rfl⟩

theorem context (h : Speaks l m) : m.context = l.context := by
  cases hr : l.running with
  | none => rw [State.context_idle hr, State.context_idle (h.running.trans hr), h.outside]
  | some r =>
    rw [State.context_running hr, State.context_running (h.running.trans hr)]
    cases hl : l.id? r.task with
    | some c => rw [h.kept hl]
    | none =>
      cases hm : m.id? r.task with
      | none => rfl
      | some c => rw [h.made hl hm, State.context_running hr, hl]; rfl

theorem trans (h : Speaks l m) (h' : Speaks m n) : Speaks l n := by
  obtain ⟨es, he, hes⟩ := h.log
  obtain ⟨es', he', hes'⟩ := h'.log
  refine ⟨⟨h'.outside.trans h.outside, h'.fresh.trans h.fresh, fun hc => h'.kept (h.kept hc),
    fun {i c} hl hn => ?_, es ++ es', ?_, fun e hmem => ?_⟩, h'.running.trans h.running⟩
  · cases hm : m.id? i with
    | none => exact (h'.made hm hn).trans h.context
    | some c' =>
      cases (h'.kept hm).symm.trans hn
      exact h.made hl hm
  · rw [he', he, List.append_assoc]
  · rcases List.mem_append.mp hmem with hmem | hmem
    · exact hes e hmem
    · exact ⟨(hes' e hmem).1.trans h.context, (hes' e hmem).2⟩

theorem quiet (h : Speaks l m) (hr : n.running = m.running) (ho : n.outside = m.outside) (hf : n.fresh = m.fresh)
    (ht : n.tasks = m.tasks) (hl : n.log = m.log) : Speaks l n :=
  ⟨h.then ho hf (fun i => State.id?_of_tasks ht i) hl, hr.trans h.running⟩

theorem modifyPool (h : Speaks l m) (p : Nat) (f : Pool.State → Pool.State) : Speaks l (m.modifyPool p f) :=
  h.quiet rfl rfl rfl rfl rfl

theorem modifyTask (h : Speaks l m) (t : Nat) {f : Task → Task} (hf : ∀ k, (f k).context = k.context) :
    Speaks l (m.modifyTask t f) :=
  ⟨h.then rfl rfl (fun i => State.id?_modifyTask hf t i) rfl, h.running⟩

theorem enqueue (h : Speaks l m) (j : Job) : Speaks l (m.enqueue j) := h.quiet rfl rfl rfl rfl rfl

theorem dropTimer (h : Speaks l m) (r : Nat) : Speaks l (m.dropTimer r) := h.quiet rfl rfl rfl rfl rfl

theorem addTimer (h : Speaks l m) (d : Float) (t : Nat) : Speaks l (m.addTimer d t).1 :=
  h.quiet rfl rfl rfl rfl rfl

theorem modifyManager (h : Speaks l m) (M : Nat) (f : Access.Manager → Access.Manager) :
    Speaks l (m.modifyManager M f) := h.quiet rfl rfl rfl rfl rfl

theorem report (h : Speaks l m) {r : Log.Record} (hd : r.Discreet) : Speaks l (m.report r) := by
  refine h.trans ?_
  unfold State.report
  split
  · exact ⟨⟨rfl, rfl, id, fun h h' => (nomatch h.symm.trans h'), [⟨r, m.context⟩], rfl,
      fun e he => by rw [List.mem_singleton.mp he]; exact ⟨rfl, hd⟩⟩, rfl⟩
  · exact refl m

theorem reportAll (h : Speaks l m) {rs : List Log.Record} (hd : ∀ r ∈ rs, r.Discreet) :
    Speaks l (m.reportAll rs) := by
  unfold State.reportAll
  induction rs generalizing m with
  | nil => exact h
  | cons r rs ih =>
    rw [List.forall_mem_cons] at hd
    exact ih (h.report hd.1) hd.2

theorem append (h : Speaks l m) {k : Task} (hk : k.context = m.context) :
    Speaks l { m with tasks := m.tasks ++ [k] } := by
  refine h.trans ⟨⟨rfl, rfl, fun {i c} hc => ?_, fun {i c} hm hn => ?_, [], by simp, fun _ he => nomatch he⟩, rfl⟩
  · rw [State.id?_append, if_neg, hc]
    rintro rfl
    rw [State.id?_eq_none.mpr le_rfl] at hc
    cases hc
  · rw [State.id?_append] at hn
    split at hn
    · cases hn
      exact hk
    · cases hm.symm.trans hn

theorem spawn (h : Speaks l m) {s : Shape} (c : Call s) (fs : List Follower) : Speaks l (m.spawn c fs).1 := by
  have ha := h.append
    (k := { status := .ready none (.push (.start c) (.done s)), context := m.context, followers := fs }) rfl
  exact ha.enqueue _

theorem wake (h : Speaks l m) (t : Nat) (signal : Option Failure) : Speaks l (m.wake t signal) := by
  unfold State.wake
  split
  next w st _ _ _ _ =>
    have hm : Speaks l (m.modifyTask t fun k => { k with status := .ready signal st }) :=
      h.modifyTask t fun _ => rfl
    exact hm.enqueue _
  next => exact h

theorem wakeInLine (h : Speaks l m) (t : Nat) (signal : Option Failure) : Speaks l (m.wakeInLine t signal) := by
  unfold State.wakeInLine
  split
  · exact (h.dropTimer _).wake t signal
  · exact h.wake t signal

theorem wakeAll (h : Speaks l m) (ts : List Nat) (signal : Option Failure) :
    Speaks l (ts.foldl (fun l t => l.wakeInLine t signal) m) := by
  induction ts generalizing m with
  | nil => exact h
  | cons t ts ih => exact ih (h.wakeInLine t signal)

theorem setLock (h : Speaks l m) (M : Nat) (f : Access.Lock → Access.Lock × Option Nat) :
    Speaks l (m.setLock M f) := by
  unfold State.setLock
  split
  · exact h
  · dsimp only
    split
    · exact (h.modifyManager M _).wake _ none
    · exact h.modifyManager M _

theorem spawnBackground (h : Speaks l m) (p : Nat) (c : Call .unit) : Speaks l (m.spawnBackground p c) :=
  (h.spawn c _).modifyPool p _

theorem spawnOpens (h : Speaks l m) (p k : Nat) : Speaks l (m.spawnOpens p k) := by
  induction k generalizing m with
  | zero => exact h
  | succ k ih => exact ih ((h.modifyPool p Pool.State.reserveBackground).spawnBackground p (.openBackground p))

theorem grow (h : Speaks l m) (p : Nat) : Speaks l (m.grow p).1 := by
  unfold State.grow
  split
  · exact h
  · split
    · exact h
    · exact h.spawnOpens p _

theorem ensureMinimum (h : Speaks l m) (p : Nat) : Speaks l (m.ensureMinimum p).1 := by
  unfold State.ensureMinimum
  split
  · exact h
  · split
    · exact h
    · exact h.spawnOpens p _

theorem growThen (h : Speaks l m) (p : Nat) (o : Outcome u) : Speaks l (m.growThen p o).1 := by
  have hg := h.grow p
  unfold State.growThen
  generalize m.grow p = x at hg ⊢
  obtain ⟨m', e | _⟩ := x <;> exact hg

theorem checkin (h : Speaks l m) (p id : Nat) : Speaks l (m.checkin p id) := by
  unfold State.checkin
  split
  · exact h
  · dsimp only
    split
    · exact (h.modifyPool p _).wakeInLine _ none
    · exact h.modifyPool p _

theorem failLongestWaiting (h : Speaks l m) (p : Nat) (e : Failure) : Speaks l (m.failLongestWaiting p e) := by
  unfold State.failLongestWaiting
  split
  · exact h
  · dsimp only
    split
    · exact (h.modifyPool p _).wakeInLine _ _
    · exact h.modifyPool p _

theorem startPool (h : Speaks l m) (p : Nat) (s : Pool.State) : Speaks l (m.startPool p s) := by
  unfold State.startPool
  split
  · exact h
  · exact (h.spawn (.reap p) []).modifyPool p _

theorem release (h : Speaks l m) (p id : Nat) : Speaks l (m.release p id).1 := by
  unfold State.release
  split
  · exact h
  · split
    · exact h
    · split
      · exact (h.modifyPool p _).spawnBackground p _
      · exact h.checkin p id

theorem abandonWait (h : Speaks l m) (t : Nat) (w : Wait) : Speaks l (m.abandonWait t w) := by
  cases w <;> exact h.quiet rfl rfl rfl rfl rfl

theorem cancelWithin (h : Speaks l m) (t depth : Nat) : Speaks l (m.cancelWithin t depth) := by
  have request : ∀ {m : State}, Speaks l m → ∀ t, Speaks l (m.requestCancel t) := fun h t =>
    h.modifyTask t fun _ => rfl
  induction depth generalizing m t with
  | zero => exact request h t
  | succ depth ih =>
    have hall : ∀ (ts : List Nat) {m : State}, Speaks l m →
        Speaks l (ts.foldl (fun l k => l.cancelWithin k depth) m) := by
      intro ts
      induction ts with
      | nil => exact fun h => h
      | cons k ts ih' => exact fun h => ih' (ih h k)
    unfold State.cancelWithin
    split
    · exact h
    · split
      · exact h
      · exact request h t
      · exact request h t
      · split
        · exact request h t
        · exact ih h _
      · exact hall _ (h.modifyTask t fun _ => rfl)
      · exact (h.abandonWait t _).wakeInLine t _

theorem cancel (h : Speaks l m) (t : Nat) : Speaks l (m.cancel t) := h.cancelWithin t _

theorem awaitTasks (h : Speaks l m) (ts : List Nat) (f : Frame .unit .unit) :
    Speaks l (m.awaitTasks ts f).1 := by
  unfold State.awaitTasks
  dsimp only
  generalize m.currentTask = t
  induction ts generalizing m with
  | nil => exact h
  | cons k ts ih =>
    refine ih ?_
    dsimp only
    split
    · exact h.enqueue _
    · exact h.modifyTask k fun _ => rfl

theorem releaseSingle (h : Speaks l m) (M id : Nat) : Speaks l (m.releaseSingle M id).1 := by
  have hf : Speaks l (m.setStandaloneUse id false) := h.quiet rfl rfl rfl rfl rfl
  unfold State.releaseSingle
  dsimp only
  split
  · exact h
  · split
    · split
      · exact hf.setLock M Access.Lock.release
      · exact hf
    · exact h

theorem giveBack (h : Speaks l m) (M : Nat) (lease : Option Lease) : Speaks l (m.giveBack M lease).1 := by
  unfold State.giveBack
  split
  · exact h
  · split
    · exact h.release _ _
    · exact h.releaseSingle M _

theorem endBlock (h : Speaks l m) (M : Nat) (lease : Option Lease) (o : Outcome u) :
    Speaks l (m.endBlock M lease o).1 := by
  obtain ⟨o', ho⟩ := m.endBlock_eq M lease o
  rw [ho]
  exact h.giveBack M lease

theorem standInLine (h : Speaks l m) (p : Nat) (s : Pool.State) : Speaks l (m.standInLine p s).1 := by
  have hg := (h.modifyPool p fun s => s.enqueue m.currentTask).grow p
  unfold State.standInLine
  dsimp only
  generalize (m.modifyPool p fun s => s.enqueue m.currentTask).grow p = x at hg ⊢
  obtain ⟨m', e | x⟩ := x
  · exact hg
  · dsimp only
    split
    · exact hg
    · exact hg
    · split
      · exact (hg.modifyPool p _).enqueue _
      · exact hg.addTimer _ _

theorem acquire (l : State) (p : Nat) : Speaks l (l.acquire p).1 := by
  unfold State.acquire
  split
  · exact refl l
  next s _ =>
    split
    · exact refl l
    · have hs := (refl l).startPool p s
      dsimp only
      split
      · exact hs.modifyPool p _
      · split
        · exact hs.modifyPool p _
        · exact hs.standInLine p s

theorem opened (l : State) (p : Nat) (o : Outcome .lease) : Speaks l (l.opened p o).1 := by
  cases o with
  | error e => exact (refl l).growThen p _
  | ok c =>
    have hm := (refl l).ensureMinimum p
    unfold State.opened
    dsimp only
    generalize l.ensureMinimum p = x at hm ⊢
    obtain ⟨m', e | x⟩ := x
    · exact hm
    · exact hm.modifyPool p _

theorem openSlot (l : State) (p : Nat) : Speaks l (l.openSlot p).1 := by
  unfold State.openSlot
  split
  · exact refl l
  · split <;> exact refl l

theorem registering (l : State) (p : Nat) (o : Outcome .handle) : Speaks l (l.registering p o).1 := by
  have hf : Speaks l (l.modifyPool p Pool.State.freeSlot) := (refl l).modifyPool p _
  unfold State.registering
  cases o with
  | error e => exact hf
  | ok h =>
    dsimp only
    split
    · exact hf.quiet rfl rfl rfl rfl rfl
    · dsimp only
      refine report ?_ (.plain rfl)
      exact hf.quiet rfl rfl rfl rfl rfl

theorem inLine (l : State) (p : Nat) (o : Outcome .unit) : Speaks l (l.inLine p o).1 := by
  have hu := (refl l).modifyPool p fun s => s.takeUp l.currentTask
  have hl := hu.modifyPool p fun s => s.leaveLine l.currentTask
  unfold State.inLine
  dsimp only
  split
  · exact hu
  · exact hu
  · split
    · exact hl.checkin p _
    · exact hl

theorem openedBackground (l : State) (p : Nat) (o : Outcome .lease) : Speaks l (l.openedBackground p o).1 := by
  have he := (refl l).modifyPool p Pool.State.endBackground
  unfold State.openedBackground
  dsimp only
  split
  · split
    · exact ((he.report (.plain rfl)).failLongestWaiting p _).growThen p _
    · exact he
  · split
    · split
      · exact he
      · exact he.checkin p _
    · exact he

theorem destroy (l : State) (p id : Nat) : Speaks l (l.destroy p id).1 := by
  unfold State.destroy
  split
  · exact refl l
  · split
    · exact refl l
    · exact (refl l).modifyPool p _

theorem endEviction (h : Speaks l m) (k : Nat) : Speaks l (m.endEviction k).1 := by
  unfold State.endEviction
  split
  · exact h
  · dsimp only
    exact h.report (.plain rfl)

theorem evictFrom (h : Speaks l m) (p : Nat) (s : Pool.State) (k : Nat) (ids : List Nat) :
    Speaks l (m.evictFrom p s k ids).1 := by
  induction ids with
  | nil => exact h.endEviction k
  | cons id ids ih =>
    unfold State.evictFrom
    split
    · split
      · exact h
      · exact h.endEviction k
    · exact ih

theorem evict (l : State) (p : Nat) : Speaks l (l.evict p).1 := by
  unfold State.evict
  split
  · exact refl l
  · split
    · exact refl l
    · exact (refl l).evictFrom p _ _ _

theorem evicting (l : State) (p : Nat) (rest : List Nat) (k : Nat) (o : Outcome .unit) :
    Speaks l (l.evicting p rest k o).1 := by
  unfold State.evicting
  split
  · exact refl l
  · exact refl l
  · exact (refl l).evictFrom p _ _ _

theorem sleep (h : Speaks l m) (d : Float) (f : Frame .unit .unit) : Speaks l (m.sleep d f).1 := by
  unfold State.sleep
  split
  · exact h
  · exact h.addTimer _ _

theorem reap (l : State) (p : Nat) : Speaks l (l.reap p).1 := by
  unfold State.reap
  split
  · exact refl l
  · split
    · exact refl l
    · exact (refl l).sleep _ _

theorem swept (l : State) (p : Nat) (i : Float) (o : Outcome .count) : Speaks l (l.swept p i o).1 := by
  have goOn : ∀ {m : State}, Speaks l m → Speaks l (m.swept p i (.ok 0)).1 := by
    intro m h
    have hm := h.ensureMinimum p
    unfold State.swept
    dsimp only
    generalize m.ensureMinimum p = x at hm ⊢
    obtain ⟨m', e | x⟩ := x
    · exact hm
    · exact hm.sleep i _
  unfold State.swept
  dsimp only
  split
  · exact refl l
  · exact goOn ((refl l).report (.plain rfl))
  · exact goOn (refl l)

theorem drainFrom (h : Speaks l m) (p : Nat) (ids : List Nat) : Speaks l (m.drainFrom p ids).1 := by
  unfold State.drainFrom
  split
  · exact h
  · split
    · exact h
    · split
      · dsimp only [State.endClose]
        exact h.report (.plain rfl)
      · exact h.awaitTasks _ _

theorem clearLine (h : Speaks l m) (p : Nat) : Speaks l (m.clearLine p).1 := by
  unfold State.clearLine
  split
  · exact h
  · exact ((h.modifyPool p _).wakeAll _ _).drainFrom p _

theorem reaperEnded (h : Speaks l m) (p : Nat) (o : Outcome .unit) : Speaks l (m.reaperEnded p o).1 := by
  unfold State.reaperEnded
  split
  · exact h.clearLine p
  · split
    · exact h.clearLine p
    · exact h

theorem closePool (l : State) (p : Nat) : Speaks l (l.closePool p).1 := by
  have hc := (refl l).modifyPool p fun s => { s with closed := true }
  unfold State.closePool
  split
  · exact refl l
  · split
    · exact refl l
    · dsimp only
      split
      · exact hc.reaperEnded p _
      next r _ =>
        have hr := hc.cancel r
        split
        · exact hr.reaperEnded p _
        · exact hr.modifyTask r fun _ => rfl

theorem askOpen (l : State) : Speaks l l.askOpen.1 := by
  unfold State.askOpen
  dsimp only
  split <;> exact (refl l).quiet rfl rfl rfl rfl rfl

theorem askClose (l : State) (h : Handle) : Speaks l (l.askClose h).1 := by
  unfold State.askClose
  dsimp only
  split <;> exact (refl l).quiet rfl rfl rfl rfl rfl

theorem endDial (h : Speaks l m) (fault : Option Fault) : Speaks l (m.endDial fault).1 := by
  unfold State.endDial
  split
  · exact h
  · exact h.quiet rfl rfl rfl rfl rfl

theorem dial (l : State) (d : Database) : Speaks l (l.dial d).1 := by
  unfold State.dial
  dsimp only
  split
  · exact (refl l).quiet rfl rfl rfl rfl rfl
  · refine endDial ?_ _
    exact (refl l).quiet rfl rfl rfl rfl rfl

theorem send (l : State) (h : Handle) (s : Sql.Statement) : Speaks l (l.send h s).1 := by
  unfold State.send
  dsimp only
  split <;> exact (refl l).quiet rfl rfl rfl rfl rfl

theorem lock (l : State) (M : Nat) : Speaks l (l.lock M).1 := by
  unfold State.lock
  split
  · exact refl l
  · split <;> exact (refl l).modifyManager M _

theorem letIn (l : State) (M : Nat) (o : Outcome .unit) : Speaks l (l.letIn M o).1 := by
  have hl := (refl l).modifyManager M fun k => { k with lock := k.lock.leave l.currentTask }
  cases o with
  | error e =>
    dsimp only [State.letIn]
    exact hl.setLock M _
  | ok => exact hl.modifyManager M _

theorem setUp (l : State) (M : Nat) (location : Option Config.Location) (reach : Access.Reach) :
    Speaks l (l.setUp M location reach).1 := by
  unfold State.setUp
  split
  · dsimp only
    exact (refl l).report (.plain rfl)
  · exact refl l
  · split
    · exact refl l
    · dsimp only
      split
      · exact (refl l).modifyManager M _
      · dsimp only [State.usePool]
        refine report ?_ (.plain rfl)
        exact (refl l).quiet rfl rfl rfl rfl rfl

theorem singleOpened (l : State) (M : Nat) (d : Database) (o : Outcome .handle) :
    Speaks l (l.singleOpened M d o).1 := by
  cases o with
  | error e => exact refl l
  | ok h =>
    dsimp only [State.singleOpened]
    refine report ?_ (.plain rfl)
    exact (refl l).quiet rfl rfl rfl rfl rfl

theorem shutSingle (l : State) (M : Nat) : Speaks l (l.shutSingle M).1 := by
  unfold State.shutSingle
  split
  · exact refl l
  · split
    · exact refl l
    · exact (refl l).modifyManager M _

theorem lockedToClose (l : State) (M : Nat) (o : Outcome .unit) : Speaks l (l.lockedToClose M o).1 := by
  cases o with
  | error e => exact refl l
  | ok =>
    unfold State.lockedToClose
    dsimp only
    split
    · exact refl l
    · exact (refl l).setLock M Access.Lock.release

theorem singleClosed (l : State) (M : Nat) (o : Outcome .unit) : Speaks l (l.singleClosed M o).1 := by
  have hu := (refl l).setLock M Access.Lock.release
  cases o with
  | error e => exact hu
  | ok => exact hu.modifyManager M _

theorem lockedToUse (l : State) (M : Nat) (o : Outcome .unit) : Speaks l (l.lockedToUse M o).1 := by
  cases o with
  | error e => exact refl l
  | ok =>
    unfold State.lockedToUse
    dsimp only
    split
    · exact refl l
    · exact (refl l).quiet rfl rfl rfl rfl rfl

theorem leaveBlock (l : State) (M : Nat) (lease : Option Lease) (fail : Bool) :
    Speaks l (l.leaveBlock M lease fail).1 := (refl l).endBlock M lease _

theorem build (l : State) (M : Nat) (w : Sql.Writer) (b : Schema.Blueprint) (changes : List Schema.Revision) :
    Speaks l (l.build M w b changes).1 := by
  unfold State.build
  split
  · exact refl l
  · dsimp only
    split
    · exact (refl l).reportAll (toSqlRecords_discreet w _)
    · dsimp only
      exact ((refl l).reportAll (toSqlRecords_discreet w _)).report (.plain rfl)

end Speaks

theorem Work.speaks (w : Work u) (hw : ¬ w.Scopes) (l : State) : Speaks l (w.perform l).1 := by
  have same : Speaks l l := .refl l
  cases w with
  | call c =>
    cases c with
    | execute | executeAll => exact absurd trivial hw
    | askOpen => exact .askOpen l
    | askClose h => exact .askClose l h
    | dial d => exact .dial l d
    | send h s => exact .send l h s
    | hangUp h =>
      exact same.quiet (l.hangUp_running h) (l.hangUp_outside h) (l.hangUp_fresh h) (l.hangUp_tasks h)
        (l.hangUp_log h)
    | run d h s k =>
      dsimp only [Work.perform, begin, State.run]
      exact same.report fun _ hv => Log.not_revealing_of_mem_redact hv
    | acquire p => exact .acquire l p
    | openSlot p => exact .openSlot l p
    | destroy p id => exact .destroy l p id
    | evict p => exact .evict l p
    | reap p => exact .reap l p
    | closePool p => exact .closePool l p
    | lock m => exact .lock l m
    | setUp m location reach => exact .setUp l m location reach
    | shutDown m =>
      simp only [Work.perform, begin, State.shutDown]
      split
      · exact same
      · exact .shutSingle l m
    | borrow m =>
      simp only [Work.perform, begin, State.borrow]
      split <;> exact same
    | build m w b changes => exact .build l m w b changes
    | bootstrap url =>
      simp only [Work.perform, begin, State.bootstrap]
      split
      · exact same
      · exact same.quiet rfl rfl rfl rfl rfl
    | seed m =>
      simp only [Work.perform, begin, State.seed]
      split <;> exact same
    | connect | openBackground | block | within | hasTable | fetch | reset | demonstrate => exact same
  | back f o =>
    cases f with
    | executing | executed | batching | batched => exact absurd trivial hw
    | start | connected | rested | withinLeft | started | writersMade | writersWritten | demoStarted
    | demoEmptied | demoSeeded | demoEnded | askedClose => cases o <;> exact same
    | askedOpen | leased | built | sought | booksMade | emptied | demoFetched => exact same
    | dialled fault =>
      cases o with
      | error => exact same
      | ok => exact same.endDial fault
    | sent r =>
      cases o with
      | error => exact same
      | ok => exact same.quiet rfl rfl rfl rfl rfl
    | foreignKeysSet d h wal =>
      cases o with
      | error => exact same
      | ok =>
        cases wal with
        | true => exact same
        | false =>
          simp only [Work.perform, resume, State.foreignKeysSet, Bool.false_eq_true, if_false, State.endConnect]
          exact same.report (.plain rfl)
    | journalSet =>
      cases o with
      | error => exact same
      | ok =>
        dsimp only [Work.perform, resume, State.journalSet, State.endConnect]
        exact same.report (.plain rfl)
    | ran d sql k start => cases o <;> exact same.report fun _ hv => Log.not_revealing_of_mem_redact hv
    | opened p => exact .opened l p o
    | registering p => exact .registering l p o
    | inLine p => exact .inLine l p o
    | openedBackground p => exact .openedBackground l p o
    | destroyed p id => exact (same.report (.plain rfl)).growThen p o
    | evicting p rest k => exact .evicting l p rest k o
    | swept p i => exact .swept l p i o
    | reaperEnded p => exact same.reaperEnded p o
    | draining p rest =>
      cases o with
      | error => exact same
      | ok => exact same.drainFrom p rest
    | backgroundEnded p =>
      cases o with
      | error => exact same
      | ok =>
        dsimp only [Work.perform, resume, State.backgroundEnded, State.endClose]
        exact same.report (.plain rfl)
    | letIn m => exact .letIn l m o
    | singleOpened m d => exact .singleOpened l m d o
    | poolShut m =>
      cases o with
      | error => exact same
      | ok => exact .shutSingle l m
    | lockedToClose m => exact .lockedToClose l m o
    | singleClosed m => exact .singleClosed l m o
    | lockedToUse m => exact .lockedToUse l m o
    | blockEntered m hold fail =>
      simp only [Work.perform, resume, State.blockEntered]
      split
      · exact same
      · split
        · exact same.quiet rfl rfl rfl rfl rfl
        · exact .leaveBlock l m _ fail
    | blockHeld m lease fail =>
      cases o with
      | error => exact same.endBlock m lease _
      | ok => exact .leaveBlock l m lease fail
    | tableKnown m =>
      cases o with
      | error => exact same
      | ok found => cases found <;> exact same
    | writersRead m writers =>
      simp only [Work.perform, resume, State.writersRead]
      split
      · exact same
      · split <;> exact same
      · exact same
    | booksWritten writers =>
      simp only [Work.perform, resume, State.booksWritten]
      split
      · exact same
      · split <;> exact same

end SqliteAccess.Loop
