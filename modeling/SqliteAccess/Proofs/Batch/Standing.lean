import SqliteAccess.Proofs.Batch.Untold
import SqliteAccess.Proofs.Batch.InOrder

/-!
A call that borrows a connection and runs statements on it has to do with others only while it stands in
line. Once it has its connection nobody has anything to tell it, so that while it waits for the engine it is
told of nothing but the answer or a cancellation.
-/

namespace SqliteAccess.Loop

open Access (Answer Database Mode)
open SqliteAccess.Pool (Lease)

structure State.Only (l : State) (t p : Nat) : Prop where
  here : l.places p t ≤ 1
  elsewhere : ∀ q, q ≠ p → l.places q t = 0
  awaited : ¬ l.Awaited t

def State.AwaitsAnswer (l : State) (t : Nat) : Prop :=
  ∃ st, l.status? t = some (.paused .held st) ∨
    ∃ signal, l.status? t = some (.ready signal st) ∧ (signal = none ∨ signal = some .cancelled)

def Call.Queues : {s : Shape} → Call s → Prop
  | _, .acquire _ | _, .borrow _ => True
  | _, _ => False

def Frame.Hears : {s t : Shape} → Frame s t → Prop
  | _, _, .sent _ => True
  | _, _, _ => False

def Point.Fit : Point → Prop
  | .works (.call c) k => c.Queues → k.Falls
  | _ => True

def Point.Hears : Point → Prop
  | .waits (.push f _) => f.Hears
  | _ => False

inductive Attends (l : State) (t : Nat) : Point → Prop
  | clear {p : Point} : l.Clear t → p.Fit → (p.Hears → l.AwaitsAnswer t) → Attends l t p
  | waits (q : Nat) {k : Stack .lease} : l.Only t q → k.Falls → Attends l t (.waits (.push (.inLine q) k))
  | told (q : Nat) (o : Outcome .unit) {k : Stack .lease} : l.Only t q → k.Falls →
      Attends l t (.works (.give o) (.push (.inLine q) k))
  | falls {u : Shape} (e : Failure) {k : Stack u} : k.Falls → Attends l t (.works (.give (.error e)) k)

def Work.Batches : {u : Shape} → Work u → Prop
  | _, .call (.run _ _ _ _) | _, .back (.ran _ _ _ _) _ | _, .back (.batching _ _ _ _) _
  | _, .back (.batched _ _ _ _ _ _) _ => True
  | _, w => borrowing.work w

def Next.Apart : {u : Shape} → Next u → Prop
  | _, .give _ => True
  | _, .call c _ => ¬ c.Queues
  | _, .pause _ f => ¬ f.Hears
  | _, .jump _ | _, .again _ => False

variable {l m l' : State} {t p q M : Nat} {u : Shape} {w : Work u} {k k' : Stack u} {n : Next u} {s : Pool.State}
  {pt : Point} {signal : Option Failure} {st : Stack .unit} {x : Task} {o : Outcome .unit}
  {may : {s : Shape} → State → Call s → Prop}

theorem State.Clear.only (h : l.Clear t) (p : Nat) : l.Only t p :=
  ⟨(h.1 p).trans_le (Nat.zero_le 1), fun q _ => h.1 q, h.2⟩

theorem Aloof.only (ha : Aloof t l m) (h : l.Only t p) : m.Only t p :=
  ⟨(ha.places p).trans h.here, fun q hq => Nat.le_zero.mp (h.elsewhere q hq ▸ ha.places q),
    fun hm => h.awaited (ha.awaited hm)⟩

theorem State.Only.enqueue (h : l.Clear t) (p : Nat) : (l.modifyPool p fun s => s.enqueue t).Only t p := by
  refine ⟨?_, fun q hq => ?_, h.2⟩
  · have hp := h.1 p
    unfold State.places State.pool? State.modifyPool at *
    cases hs : l.pools[p]? with
    | none => simp [hs]
    | some s =>
      rw [hs] at hp
      simp only [List.getElem?_modify_eq, hs, Option.map_eq_map, Option.map_some, Option.getD_some] at hp ⊢
      rw [(Pool.State.queue_enqueue s t).count_eq, List.count_cons_self, hp]
  · have hq' := h.1 q
    simpa [State.places, State.pool?, State.modifyPool, Ne.symm hq] using hq'

theorem State.standInLine_only (h : m.Clear t) (ht : m.currentTask = t) (p : Nat) (s : Pool.State) :
    (m.standInLine p s).1.Only t p ∧
      ((∃ e, (m.standInLine p s).2 = .give (.error e)) ∨ ∃ w, (m.standInLine p s).2 = .pause w (.inLine p)) := by
  have hg := ((Aloof.refl t _).grow p).only (State.Only.enqueue h p)
  unfold State.standInLine
  dsimp only
  rw [ht]
  generalize (m.modifyPool p fun s => s.enqueue t).grow p = x at hg ⊢
  obtain ⟨m', e | _⟩ := x
  · exact ⟨hg, .inl ⟨e, rfl⟩⟩
  · have same := Aloof.refl t m'
    dsimp only
    split
    next e _ => exact ⟨hg, .inl ⟨e, rfl⟩⟩
    next => exact ⟨hg, .inr ⟨_, rfl⟩⟩
    next =>
      split
      · exact ⟨((same.abandonWait t (.turn p none)).enqueue _).only hg, .inr ⟨_, rfl⟩⟩
      · exact ⟨(same.addTimer _ _).only hg, .inr ⟨_, rfl⟩⟩

theorem State.acquire_only (h : l.Clear t) (ht : l.currentTask = t) (p : Nat) :
    ((l.acquire p).1.Only t p ∧
        ((∃ e, (l.acquire p).2 = .give (.error e)) ∨ ∃ w, (l.acquire p).2 = .pause w (.inLine p))) ∨
      (l.acquire p).1.Clear t ∧ (l.acquire p).2.Apart := by
  have same := Aloof.refl t l
  unfold State.acquire
  split
  · exact .inr ⟨h, trivial⟩
  next s _ =>
    split
    · exact .inr ⟨h, trivial⟩
    · have hs := same.startPool p s
      dsimp only
      split
      next s' id htake =>
        obtain ⟨x, hx, hid⟩ := Option.bind_eq_some_iff.mp htake
        refine .inr ⟨(hs.setPool hx ?_).clear h, trivial⟩
        rw [(Pool.State.takeIdle?_eq hid).2]
        rfl
      next =>
        split
        · have hreserve : Aloof t l ((l.startPool p s).modifyPool p Pool.State.reserve) :=
            hs.tweakPool p fun _ => rfl
          exact .inr ⟨hreserve.clear h, id⟩
        · have hcur := ((Tame.refl l).startPool p s).undisturbed.currentTask
          exact .inl (State.standInLine_only (hs.clear h) (hcur.trans ht) p s)

theorem State.inLine_clear (h : l.Only t p) (ht : l.currentTask = t) (o : Outcome .unit) :
    (∃ e, (l.inLine p o).2 = .give (.error e)) ∨
      (l.inLine p o).1.Clear t ∧ ∃ c, (l.inLine p o).2 = .give (.ok c) := by
  unfold State.inLine
  dsimp only
  rw [ht]
  split
  next id hid =>
    refine .inr ⟨⟨fun q => ?_, h.awaited⟩, _, rfl⟩
    obtain ⟨s, hs, hgiven⟩ := Option.bind_eq_some_iff.mp hid
    by_cases hq : q = p
    · subst hq
      have hhere := h.here
      have hcount := Pool.State.count_takeUp_queue (Pool.State.handedTo?_served hgiven)
      unfold State.places at hhere ⊢
      unfold State.pool? at hs hhere ⊢
      simp only [hs, State.modifyPool, List.getElem?_modify_eq, Option.map_eq_map, Option.map_some,
        Option.getD_some] at hhere ⊢
      omega
    · have hq' := h.elsewhere q hq
      simpa [State.places, State.pool?, State.modifyPool, Ne.symm hq] using hq'
  next => exact .inl ⟨_, rfl⟩
  next => split <;> exact .inl ⟨_, rfl⟩

theorem Attends.aloof (h : Attends l t pt) (ha : Aloof t l m) : Attends m t pt := by
  cases h with
  | clear hc hfit hhears =>
    refine .clear (ha.clear hc) hfit fun hp => ?_
    obtain ⟨st, hst | ⟨signal, hst, hs⟩⟩ := hhears hp
    · rcases ha.held hst with hm | ⟨signal, hm, rfl | rfl | ⟨p, hpos⟩⟩
      · exact ⟨st, .inl hm⟩
      · exact ⟨st, .inr ⟨_, hm, .inl rfl⟩⟩
      · exact ⟨st, .inr ⟨_, hm, .inr rfl⟩⟩
      · rw [hc.1 p] at hpos
        cases hpos
    · exact ⟨st, .inr ⟨signal, ha.ready hst, hs⟩⟩
  | waits q ho hk => exact .waits q (ha.only ho) hk
  | told q o ho hk => exact .told q o (ha.only ho) hk
  | falls e hk => exact .falls e hk

theorem State.awaited_modify {ts : List Task} {f : Task → Task} {i : Nat} (ht : m.tasks = ts.modify i f)
    (hl : l.tasks = ts) (hf : ∀ k, (f k).followers = k.followers) (ha : m.Awaited t) : l.Awaited t := by
  obtain ⟨j, z, hz, hr⟩ := ha
  rw [ht] at hz
  rcases modify_cases hz with ⟨_, hz⟩ | ⟨rfl, y, hy, rfl⟩
  · exact ⟨j, z, hl ▸ hz, hr⟩
  · exact ⟨j, y, hl ▸ hy, hf y ▸ hr⟩

theorem State.places_congr (hp : m.pools = l.pools) (q t : Nat) : m.places q t = l.places q t := by
  rw [State.places, State.pool?, hp]
  rfl

theorem Resumed.only (hr : Resumed l m t signal st x) (h : l.Only t p) : m.Only t p := by
  have hplaces : ∀ q, m.places q t = l.places q t := fun q => State.places_congr hr.pools q t
  exact ⟨(hplaces p).trans_le h.here, fun q hq => (hplaces q).trans (h.elsewhere q hq),
    fun ha => h.awaited (State.awaited_modify hr.tasks rfl (fun _ => rfl) ha)⟩

theorem Resumed.clear (hr : Resumed l m t signal st x) (h : l.Clear t) : m.Clear t :=
  ⟨fun q => (State.places_congr hr.pools q t).trans (h.1 q),
    fun ha => h.2 (State.awaited_modify hr.tasks rfl (fun _ => rfl) ha)⟩

theorem Attends.resumed {k : Stack .unit} (h : Attends l t (.waits k)) (hr : Resumed l m t signal st x) :
    Attends m t (.works (.give (x.answer signal)) k) := by
  cases h with
  | clear hc => exact .clear (hr.clear hc) trivial False.elim
  | waits q ho hk => exact .told q _ (hr.only ho) hk

theorem Attends.answer {r : Engine.Rule} {k : Stack .cursor} (h : Attends l t (.waits (.push (.sent r) k)))
    (hr : Resumed l m t signal st x) : x.answer signal = .ok () ∨ x.answer signal = .error .cancelled := by
  cases h with
  | clear _ _ hhears =>
    obtain ⟨st', hst | ⟨signal', hst, hs⟩⟩ := hhears trivial
    · rw [State.status?, hr.task, Option.map_some, hr.ready] at hst
      cases hst
    · rw [State.status?, hr.task, Option.map_some, hr.ready] at hst
      cases hst
      unfold Task.answer
      cases x.cancelRequested with
      | true => exact .inr rfl
      | false =>
        rcases hs with rfl | rfl
        · exact .inl rfl
        · exact .inr rfl

theorem Next.Apart.point (hn : n.Apart) (k : Stack u) : (n.point k).Fit ∧ ¬ (n.point k).Hears := by
  cases n with
  | give => exact ⟨trivial, id⟩
  | call => exact ⟨fun hc => absurd hc hn, id⟩
  | jump | again => cases hn
  | pause => exact ⟨trivial, hn⟩

theorem State.carryOn_places (m : State) (n : Next u) (k : Stack u) (q : Nat) :
    (m.carryOn t n k).places q t = m.places q t := by
  cases n <;> rfl

theorem State.carryOn_awaited (m : State) (n : Next u) (k : Stack u) :
    (m.carryOn t n k).Awaited t → m.Awaited t := by
  cases n with
  | give | call | jump => exact id
  | pause | again => exact State.awaited_modify rfl rfl fun _ => rfl

theorem State.Only.carryOn (h : m.Only t p) (n : Next u) (k : Stack u) : (m.carryOn t n k).Only t p :=
  ⟨(m.carryOn_places n k p).trans_le h.here, fun q hq => (m.carryOn_places n k q).trans (h.elsewhere q hq),
    fun ha => h.awaited (m.carryOn_awaited n k ha)⟩

theorem State.Clear.carryOn (h : m.Clear t) (n : Next u) (k : Stack u) : (m.carryOn t n k).Clear t :=
  ⟨fun q => (m.carryOn_places n k q).trans (h.1 q), fun ha => h.2 (m.carryOn_awaited n k ha)⟩

def Work.Seeks : {u : Shape} → Work u → Prop
  | _, .call (.borrow _) | _, .call (.acquire _) | _, .call (.send _ _) => True
  | _, _ => False

theorem State.endCall_apart (l : State) (M : Nat) (lease : Option Lease) (restores : Bool) (o : Outcome u) :
    (l.endCall M lease restores o).2.Apart := by
  rcases l.endCall_next M lease restores o with he | ⟨e, he⟩
  · rw [he]
    trivial
  · rw [he]
    trivial

theorem State.batchFrom_apart (l : State) (M : Nat) (lease : Option Lease) (mode : Mode) (done : List Answer)
    (restores : Bool) (ss : List Sql.Statement) : (l.batchFrom M lease mode done restores ss).2.Apart := by
  cases ss with
  | nil => exact l.endCall_apart M lease restores _
  | cons s rest =>
    rw [State.batchFrom]
    split
    · exact l.endCall_apart M lease restores _
    · exact id

theorem Work.Batches.apart (hw : w.Batches) (hs : ¬ w.Seeks) (l : State) : (w.perform l).2.Apart ∧ ¬ w.Joins := by
  cases w with
  | call c =>
    cases c with
    | borrow | acquire | send => exact absurd trivial hs
    | lock M =>
      refine ⟨?_, id⟩
      simp only [Work.perform, begin, State.lock]
      split
      · trivial
      · split <;> trivial
    | openSlot p =>
      refine ⟨?_, id⟩
      simp only [Work.perform, begin, State.openSlot]
      split
      · trivial
      · split <;> trivial
    | askOpen =>
      refine ⟨?_, id⟩
      simp only [Work.perform, begin, State.askOpen]
      split <;> trivial
    | connect | run => exact ⟨id, id⟩
    | dial d =>
      refine ⟨?_, id⟩
      simp only [Work.perform, begin, State.dial]
      split
      · trivial
      · unfold State.endDial
        split <;> trivial
    | _ => cases hw
  | back f o =>
    cases f with
    | leased | askedOpen => exact ⟨trivial, id⟩
    | lockedToUse M =>
      refine ⟨?_, id⟩
      cases o with
      | error => trivial
      | ok =>
        simp only [Work.perform, resume, State.lockedToUse]
        split <;> trivial
    | letIn | connected | journalSet | sent | ran => exact ⟨by cases o <;> trivial, id⟩
    | dialled fault =>
      refine ⟨?_, id⟩
      cases o with
      | error => trivial
      | ok => cases fault <;> trivial
    | foreignKeysSet d h wal =>
      refine ⟨?_, id⟩
      cases o with
      | error => trivial
      | ok => cases wal <;> trivial
    | opened p =>
      refine ⟨?_, id⟩
      cases o with
      | error e =>
        obtain ⟨o', ho⟩ := l.growThen_gives p (.error e : Outcome .lease)
        rw [show ((Work.back (.opened p) (.error e)).perform l).2 = .give o' from ho]
        trivial
      | ok c =>
        simp only [Work.perform, resume, State.opened]
        split <;> trivial
    | inLine p =>
      refine ⟨?_, id⟩
      simp only [Work.perform, resume, State.inLine]
      split
      · trivial
      · trivial
      · split <;> trivial
    | registering p =>
      refine ⟨?_, id⟩
      cases o with
      | error => trivial
      | ok h =>
        simp only [Work.perform, resume, State.registering]
        split <;> trivial
    | batching M ss mode restores =>
      refine ⟨?_, id⟩
      cases o with
      | error => trivial
      | ok lease => exact l.batchFrom_apart M lease mode [] restores ss
    | batched M lease rest mode done restores =>
      refine ⟨?_, id⟩
      cases o with
      | error e => exact l.endCall_apart M lease restores _
      | ok a => exact l.batchFrom_apart M lease mode (done ++ [a]) restores rest
    | _ => cases hw

theorem State.send_next (l : State) (g : Pool.Handle) (s : Sql.Statement) :
    (∃ r, (l.send g s).2 = .pause .held (.sent r)) ∨ ∃ o, (l.send g s).2 = .give o := by
  unfold State.send
  dsimp only
  split
  · exact .inl ⟨_, rfl⟩
  · exact .inr ⟨_, rfl⟩

theorem State.send_tasks (l : State) (g : Pool.Handle) (s : Sql.Statement) : (l.send g s).1.tasks = l.tasks := by
  unfold State.send
  dsimp only
  split
  · rfl
  · rfl

theorem State.carryOn_paused (hx : m.tasks[t]? = some x) (b : Wait) (f : Frame .unit u) (k : Stack u) :
    (m.carryOn t (.pause b f) k).status? t = some (.paused b (.push f k)) := by
  simp [State.status?, State.carryOn, State.modifyTask, hx]

theorem Attends.works (h : Attends l t (w.on t k).point) (hw : w.Batches) (hat : l.AtWork)
    (hr : l.running = some (w.on t k')) :
    Attends ((w.perform l).1.carryOn t (w.perform l).2 k') t ((w.perform l).2.point k) := by
  have hcur : l.currentTask = t := by simp [State.currentTask, State.current?, hr]
  have clear : l.Clear t → (w.on t k).point.Fit →
      Attends ((w.perform l).1.carryOn t (w.perform l).2 k') t ((w.perform l).2.point k) := by
    intro hc hfit
    -- Three steps may lead to a line or to a wait for an answer. All others leave the task as free as it was.
    by_cases hs : w.Seeks
    · cases w with
      | back => cases hs
      | call c =>
        cases c with
        | borrow M =>
          have hc' := fun n => hc.carryOn (u := .borrowed) n k'
          simp only [Work.perform, begin, State.borrow]
          split
          · exact .clear (hc' _) (fun _ => hfit trivial) False.elim
          · exact .clear (hc' _) False.elim False.elim
          · exact .clear (hc' _) trivial False.elim
        | acquire p =>
          change Attends ((l.acquire p).1.carryOn t (l.acquire p).2 k') t ((l.acquire p).2.point k)
          rcases State.acquire_only hc hcur p with ⟨ho, ⟨e, he⟩ | ⟨b, he⟩⟩ | ⟨hc', hn⟩
          · rw [he]
            exact .falls e (hfit trivial)
          · rw [he]
            exact .waits p (ho.carryOn _ k') (hfit trivial)
          · exact .clear (hc'.carryOn _ k') (hn.point k).1 fun hp => absurd hp (hn.point k).2
        | send g s =>
          have ha : Aloof t l (l.send g s).1 := .send l g s
          obtain ⟨x, hx, _⟩ := hat _ hr
          change Attends ((l.send g s).1.carryOn t (l.send g s).2 k') t ((l.send g s).2.point k)
          rcases l.send_next g s with ⟨r, he⟩ | ⟨o, he⟩
          · rw [he]
            have hst : ((l.send g s).1.carryOn t (.pause .held (.sent r)) k').status? t = _ :=
              State.carryOn_paused (l.send_tasks g s ▸ hx) .held (.sent r) k'
            exact .clear ((ha.clear hc).carryOn _ k') trivial fun _ => ⟨_, .inl hst⟩
          · rw [he]
            exact .clear ((ha.clear hc).carryOn _ k') trivial False.elim
        | _ => cases hs
    · obtain ⟨hn, hj⟩ := hw.apart hs l
      have ha : Aloof t l (w.perform l).1 := w.aloof l fun _ => hj
      exact .clear ((ha.clear hc).carryOn _ _) (hn.point k).1 fun hp => absurd hp (hn.point k).2
  cases w with
  | call c =>
    generalize hp : ((Work.call c).on t k).point = pt at h
    cases h with
    | clear hc hfit => exact clear hc (hp ▸ hfit)
    | waits | told | falls => cases hp
  | back f o =>
    change Attends l t (.works (.give o) (.push f k)) at h
    cases h with
    | clear hc hfit => exact clear hc hfit
    | @told q o k ho hk =>
      change Attends ((l.inLine q o).1.carryOn t (l.inLine q o).2 k') t ((l.inLine q o).2.point k)
      rcases State.inLine_clear ho hcur o with ⟨e, he⟩ | ⟨hc, c, he⟩
      · rw [he]
        exact .falls e hk
      · rw [he]
        exact .clear (hc.carryOn _ k') trivial False.elim
    | falls e hk =>
      obtain ⟨hk', e', he⟩ := hk.falls l e
      rw [show ((Work.back f (.error e)).perform l).2 = .give (.error e') from he]
      exact .falls e' hk'

theorem State.Happens.apart (hs : l.Happens may l') (hat : l.AtWork) (ha : ¬ l.Awaited t)
    (hne : ∀ r, l.running = some r → r.task ≠ t) (hp : l.point? t = some pt) (hp' : l'.point? t = some pt) :
    Aloof t l l' := by
  rcases hs.aloof ha with ⟨r, hr, ht⟩ | ⟨hr, signal, st, x, hx⟩ | ha
  · exact absurd ht (hne r hr)
  · have hwaits : l.point? t = some (.waits st) := by
      rw [State.point?_idle hr, hx.task, Option.bind_some, hx.ready]
      rfl
    cases hp.symm.trans hwaits
    cases hp'.symm.trans (State.point?_at hx.running (hat.happens hs _ hx.running))
  · exact ha

theorem Attends.stays {pt' : Point} (h : Attends l t pt) (hs : l.Happens may l') (hat : l.AtWork)
    (hne : ∀ r, l.running = some r → r.task ≠ t) (hp : l.point? t = some pt') (hp' : l'.point? t = some pt') :
    Attends l' t pt := by
  have others : ¬ l.Awaited t → Attends l' t pt := fun ha => h.aloof (hs.apart hat ha hne hp hp')
  cases h with
  | clear hc => exact others hc.2
  | waits q ho | told q o ho => exact others ho.awaited
  | falls e hk => exact .falls e hk

variable {b : Option Database} {ss : List Sql.Statement} {mode : Value} {lease : Option Lease} {qs : List Sent}

theorem Work.batches_of_borrowing (hw : borrowing.work w) : w.Batches := by
  cases w with
  | call c => cases c <;> first | exact trivial | cases hw
  | back f o => cases f <;> first | exact trivial | cases hw

theorem Stage.batches (h : Stage M b ss mode lease qs (w.on t k).point) : w.Batches := by
  generalize hp : (w.on t k).point = pt at h
  cases h with
  | borrows _ hb =>
    subst hp
    rcases hb.work with ⟨hw, _⟩ | ⟨o, he⟩
    · exact w.batches_of_borrowing hw
    · cases w <;> cases he
      trivial
  | hears | ended => cases hp
  | runs | sends | told | heard | comes | gives =>
    cases w with
    | call => cases hp; try trivial
    | back => cases hp; try trivial

theorem Attends.begins (hc : l.Clear t) (M : Nat) (ss : List Sql.Statement) (mode : Value) (k : Stack .answers) :
    Attends ((l.executeAll M ss mode).1.carryOn t (l.executeAll M ss mode).2 k) t
      ((l.executeAll M ss mode).2.point (.done .answers)) := by
  have ha : Aloof t l (l.executeAll M ss mode).1 := (Work.call (.executeAll M ss mode)).aloof l fun _ => id
  have hclear := (ha.clear hc).carryOn (l.executeAll M ss mode).2 k
  refine .clear hclear ?_ ?_
  · unfold State.executeAll
    split
    · trivial
    · split
      · split
        · trivial
        · exact fun _ => trivial
      · trivial
  · unfold State.executeAll
    split
    · exact False.elim
    · split
      · split
        · exact False.elim
        · exact False.elim
      · exact False.elim

end SqliteAccess.Loop
