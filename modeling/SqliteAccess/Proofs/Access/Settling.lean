import SqliteAccess.Proofs.Access.Balance
import SqliteAccess.Proofs.Access.Flight
import SqliteAccess.Proofs.Access.Sharing

/-!
Every call gives its connection back, whichever way it ends. From then on the connection rests, or is with
the caller that has waited longest for it, or is being closed.
-/

namespace SqliteAccess.Loop

open Access (Database Lock Place)
open SqliteAccess.Pool (Lease)

inductive PassedOn (M id : Nat) (l l' : State) : Prop
  | free : l'.inUse id = false → (l'.lockOf M).isFree = true → PassedOn M id l l'
  | passes {i : Nat} {rest : List (Nat × Place)} : l'.inUse id = false →
      (l.lockOf M).line = (i, .waiting) :: rest → l'.lockOf M = ⟨false, (i, .granted) :: rest⟩ →
      l'.place? i = some .granted → PassedOn M id l l'
  | quits {i : Nat} {rest : List (Nat × Place)} : l'.inUse id = false →
      (l.lockOf M).line = (i, .cancelled) :: rest → l'.lockOf M = ⟨false, (i, .cancelled) :: rest⟩ →
      l'.place? i = some .cancelled → PassedOn M id l l'

def Route.Home (M id : Nat) (l l' : State) : Route → Prop
  | .pool p _ => Rehoused p id l l'
  | .single => PassedOn M id l l'

def Stack.borrows : {s : Shape} → Stack s → Bool
  | _, .done _ => false
  | _, .push (.lockedToUse _) _ => true
  | _, .push _ k => k.borrows

def Running.removes (M : Nat) : Running → Bool
  | ⟨_, _, .give (.ok _), .push (.singleClosed m) _⟩ => m = M
  | _ => false

/-- A shutdown takes the connection away while somebody waits for it. -/
def State.Deprives (M : Nat) (l : State) : Prop :=
  (∃ r, l.running = some r ∧ r.removes M = true) ∧
    ∃ i k, l.point? i = some (.waits k) ∧ k.borrows = true

variable {careless : Prop} {M t i : Nat} {way : Route} {l l' m : State} {u : Shape} {w : Work u}
  {k : Stack u} {d : Call u} {x y : Desk} {n : Next u} {c : Lease}

theorem Desk.Lent.home {p : Nat} {b : Database} {s : Pool.State} (h : x.Lent M p b s)
    (hr : x.loop.running = some (w.on t k)) (hg : GivesBack M x.loop w (some c) (w.perform x.loop)) :
    (x.loop.giveBack M (some c)).2 = .ok () ∧
      Rehoused p c.id x.loop ((w.perform x.loop).1.carryOn t (w.perform x.loop).2 k) := by
  have hu : s.UsedAs true c.id := h.used (t := t) (by rw [h.lease_on hr, hg.returns.lease]; rfl)
  obtain ⟨s', cs, hrel, hok⟩ := State.release_released h.pool hu.check
  have hgive := h.toGrounded.giveBack_eq c
  have hstill := hg.still
  obtain ⟨o, ho⟩ := hg.next
  rw [hgive] at hstill
  rw [hgive, ho]
  exact ⟨hok, (hrel.still hstill).rehoused h.pool hu rfl rfl⟩

theorem Guard.Lined.release_cases {g : Guard} (h : g.Lined) (hk : g.lock.locked = true) :
    g.lock.release.1.isFree = true ∨
      (∃ i rest, g.lock.line = (i, .waiting) :: rest ∧
        g.lock.release = (⟨false, (i, .granted) :: rest⟩, some i)) ∨
      ∃ i rest, g.lock.line = (i, .cancelled) :: rest ∧
        g.lock.release = (⟨false, (i, .cancelled) :: rest⟩, none) := by
  cases hl : g.lock.line with
  | nil => exact .inl (by simp [Lock.release, Lock.letIn, Lock.isFree, hl])
  | cons q rest =>
    obtain ⟨i, q⟩ := q
    cases q with
    | waiting => exact .inr (.inl ⟨i, rest, rfl, by simp [Lock.release, Lock.letIn, hl]⟩)
    | granted => cases hk.symm.trans (h.first i (by rw [hl]; exact List.mem_cons_self)).1
    | cancelled => exact .inr (.inr ⟨i, rest, rfl, by simp [Lock.release, Lock.letIn, hl]⟩)

theorem Desk.Guarded.home (h : x.Guarded careless M c) {a : Lease} (hr : x.loop.running = some (w.on t k))
    (hk : k.Bears M .single d) (hg : GivesBack M x.loop w (some a) (w.perform x.loop)) :
    (x.loop.giveBack M (some a)).2 = .ok () ∧
      PassedOn M a.id x.loop ((w.perform x.loop).1.carryOn t (w.perform x.loop).2 k) := by
  obtain ⟨hplace, hlease, _⟩ := h.guard_on hr
  have hl : (x.guard M c).lease t = some a := by
    rw [hlease, hg.returns.lease]
    rfl
  obtain ⟨hlocked, _, rfl, _⟩ := h.sound.held.has hl
  obtain ⟨hroused, hok⟩ := h.giveBack_roused hl (h.release_waits hr hlocked)
  have hguard := h.guard_carryOn hr hk (hroused.still hg.still) (w.perform x.loop).2
  refine ⟨hok, ?_⟩
  generalize (w.perform x.loop).1.carryOn t (w.perform x.loop).2 k = l' at hguard ⊢
  have huse : l'.inUse a.id = false := congrArg Guard.inUse hguard
  have hlock : l'.lockOf M = (x.loop.lockOf M).release.1 := congrArg Guard.lock hguard
  have hplaces : ∀ i, i ≠ t → l'.place? i =
      if (x.loop.lockOf M).release.2 = some i then some .granted else (x.guard M a).place i := by
    intro i hi
    have hp := congrFun (congrArg Guard.place hguard) i
    simp only [Function.update_of_ne hi] at hp
    exact hp
  have hx : ¬ w.Exchanges := by cases hg.returns <;> exact id
  have hnone : (x.guard M a).place t = none := by
    rw [hplace, Function.update_self, Work.place_of hx]
  have hother : ∀ i q, (i, q) ∈ (x.guard M a).lock.line → i ≠ t := by
    rintro i q hm rfl
    exact h.sound.line.not_mem hnone q hm
  rcases h.sound.line.release_cases hlocked with hfree | ⟨i, rest, hline, hrel⟩ | ⟨i, rest, hline, hrel⟩
  · exact .free huse (by rw [hlock]; exact hfree)
  · have hnext : (x.loop.lockOf M).release.2 = some i := congrArg Prod.snd hrel
    refine .passes huse hline (hlock.trans (congrArg Prod.fst hrel)) ?_
    rw [hplaces i (hother i .waiting (by rw [hline]; exact List.mem_cons_self)), if_pos hnext]
  · have hnext : (x.loop.lockOf M).release.2 = none := congrArg Prod.snd hrel
    have hm : (i, .cancelled) ∈ (x.guard M a).lock.line := by rw [hline]; exact List.mem_cons_self
    refine .quits huse hline (hlock.trans (congrArg Prod.fst hrel)) ?_
    rw [hplaces i (hother i _ hm), hnext, if_neg nofun]
    rcases h.sound.line.placed i _ hm with hc | ⟨hc, _⟩
    · exact hc
    · cases hc

theorem State.yield?_some (h : l.yield? t = some c) :
    ∃ u, ∃ w : Work u, ∃ k, l.running = some (w.on t k) ∧ (w.on t k).yield? l = some c := by
  obtain ⟨r, hr, hy⟩ := Option.bind_eq_some_iff.mp h
  split at hy
  next ht =>
    subst ht
    rcases r.cases_on with ⟨u, w, k, he⟩ | ⟨u, o, he⟩
    · exact ⟨u, w, k, he ▸ hr, he ▸ hy⟩
    · rw [he] at hy
      cases o <;> simp [Running.yield?] at hy
  next => cases hy

theorem Desk.Managed.home (h : x.Managed careless M way) (hy : x.loop.yield? t = some c) :
    (x.loop.giveBack M (some c)).2 = .ok () ∧ ∃ l' v, ∃ o : Outcome v, x.loop.step? = some l' ∧
      l'.running = some ⟨t, v, .give o, .done v⟩ ∧ way.Home M c.id x.loop l' := by
  obtain ⟨u, w, k, hr, hyr⟩ := State.yield?_some hy
  obtain ⟨d, _, hk⟩ := h.tended.work hr
  have hg : GivesBack M x.loop w (some c) (w.perform x.loop) := by
    have htr := h.trades hr
    rw [hyr] at htr
    generalize (w.on t k).gain? x.loop = b at htr
    cases htr with
    | yields hg => exact hg
  obtain ⟨o, ho⟩ := hg.next
  have hstep : x.loop.step? = some ((w.perform x.loop).1.carryOn t (w.perform x.loop).2 k) := by
    rw [State.step?, hr]
    show some (x.loop.advance (w.on t k)) = _
    rw [State.advance_on]
  obtain rfl := hk.alone hg.returns.ends
  have hrun : ((w.perform x.loop).1.carryOn t (w.perform x.loop).2 (.done u)).running =
      some ⟨t, u, .give o, .done u⟩ := by rw [ho]; rfl
  cases h with
  | pool h =>
    obtain ⟨hok, hhome⟩ := h.home hr hg
    exact ⟨hok, _, u, o, hstep, hrun, hhome⟩
  | single h =>
    obtain ⟨hok, hhome⟩ := h.home hr hk hg
    exact ⟨hok, _, u, o, hstep, hrun, hhome⟩

def Point.borrows : Point → Bool
  | waits k | works _ k => k.borrows
  | ended _ => false

theorem State.singleOf_giveBack (l : State) (M : Nat) (lease : Option Lease) :
    (l.giveBack M lease).1.singleOf M = l.singleOf M := by
  refine State.singleOf_outer ?_
  unfold State.giveBack
  split
  · rfl
  · split
    · exact l.outer_release _ _
    · unfold State.releaseSingle
      dsimp only
      split
      · rfl
      · split
        · split
          · exact State.outer_setLock ..
          · rfl
        · rfl

theorem Still.singleOf (h : Still M l m) : m.singleOf M = l.singleOf M := by
  obtain ⟨f, hf, hk⟩ := h.managers
  rw [State.singleOf, State.singleOf, State.manager?, hf, List.getElem?_modify_eq]
  show (Option.map f (l.manager? M)).bind (·.single) = _
  cases l.manager? M with
  | none => rfl
  | some a => exact (hk a).2.1

theorem Desk.Step.keeps_single (hst : x.Step M way careless y) (hr : x.loop.running = none) :
    y.loop.singleOf M = x.loop.singleOf M := by
  cases hst with
  | loop hl =>
    rcases State.idle_stirs hr hl with ⟨_, _, _, _, hres⟩ | hs
    · exact State.singleOf_congr (congrArg (·[M]?) hres.managers)
    · exact State.singleOf_outer hs.outer
  | enter | spawn | runs | plans | destroy | engine | tick | forget => rfl
  | giveBack => exact State.singleOf_giveBack ..
  | release => exact State.singleOf_giveBack ..
  | cancel t => exact State.singleOf_outer (State.outer_cancelWithin ..)
  | answer => exact State.singleOf_outer (State.outer_wake ..)

theorem Work.Exchanges.keeps_single (hx : w.Exchanges) (l : State) (t : Nat) (k : Stack u) :
    (w.perform l).1.singleOf M = l.singleOf M ∨ (w.on t k).removes M = true := by
  cases w with
  | call d =>
    cases d with
    | lock m =>
      refine .inl (State.singleOf_outer ?_)
      simp only [Work.perform, begin, State.lock]
      split
      · rfl
      · split
        · exact State.outer_modifyLock ..
        · exact State.outer_modifyLock ..
    | _ => cases hx
  | back f o =>
    cases f with
    | leased => exact .inl rfl
    | letIn m =>
      refine .inl (State.singleOf_outer ?_)
      cases o with
      | error e => exact (State.outer_setLock ..).trans (State.outer_modifyLock ..)
      | ok => exact (State.outer_modifyLock ..).trans (State.outer_modifyLock ..)
    | lockedToUse m =>
      cases o with
      | error e => exact .inl rfl
      | ok =>
        refine .inl ?_
        simp only [Work.perform, resume, State.lockedToUse]
        split <;> rfl
    | lockedToClose m =>
      cases o with
      | error e => exact .inl rfl
      | ok =>
        refine .inl ?_
        simp only [Work.perform, resume, State.lockedToClose]
        split
        · rfl
        · exact State.singleOf_outer (State.outer_setLock ..)
    | singleClosed m =>
      cases o with
      | error e => exact .inl (State.singleOf_outer (State.outer_setLock ..))
      | ok =>
        by_cases hm : m = M
        · exact .inr (decide_eq_true hm)
        · refine .inl ?_
          have hne : ((l.unlock m).modifyManager m fun k => { k with single := none, database := none }).manager? M =
              (l.unlock m).manager? M := List.getElem?_modify_ne _ _ hm
          exact (State.singleOf_congr hne).trans (State.singleOf_outer (State.outer_setLock ..))
    | _ => cases hx

theorem Running.removes_iff {r : Running} (h : r.removes M = true) :
    ∃ t k, r = ⟨t, .unit, .give (.ok ()), .push (.singleClosed M) k⟩ := by
  unfold Running.removes at h
  split at h
  next t a m k => exact ⟨t, k, by rw [decide_eq_true_eq.mp h]⟩
  next => cases h

theorem Desk.Guarded.closes (h : x.Guarded careless M c) (hst : x.Step M .single careless y)
    (hs : x.loop.singleOf M ≠ none) (hn : y.loop.singleOf M = none) :
    ∃ t k, x.loop.running = some ⟨t, .unit, .give (.ok ()), .push (.singleClosed M) k⟩ := by
  cases hr : x.loop.running with
  | none => exact absurd ((hst.keeps_single hr).symm.trans hn) hs
  | some r =>
    suffices hrem : r.removes M = true by
      obtain ⟨t, k, he⟩ := Running.removes_iff hrem
      exact ⟨t, k, congrArg some he⟩
    rcases hst.arrival with ⟨hl, _⟩ | ⟨hr', _⟩
    swap
    · cases hr.symm.trans hr'
    have hy := State.step_running hr hl
    rcases r.cases_on with ⟨u, w, k, he⟩ | ⟨u, o, he⟩
    · rw [he, State.advance_on] at hy
      rw [he] at hr ⊢
      rw [hy, State.singleOf_carryOn] at hn
      have same : (w.perform x.loop).1.singleOf M = x.loop.singleOf M → False :=
        fun he => hs (he.symm.trans hn)
      obtain ⟨d, hw, hk⟩ := h.tended.work hr
      by_cases hx : w.Exchanges
      · exact (hx.keeps_single x.loop _ k).resolve_left same
      · rcases Work.perform_does hw hk h.manager (hw.unpooled hk) hx with hd | ⟨lease, hg⟩
        · exact (same hd.still.singleOf).elim
        · exact (same (hg.still.singleOf.trans (State.singleOf_giveBack ..))).elim
    · rw [hy, he] at hn
      exact (hs ((State.singleOf_congr (congrArg (·[M]?) (x.loop.finish_stirs _ o).managers)).symm.trans hn)).elim

theorem Stack.borrows_of_push {e : Shape} {f : Frame e u} (h : (Stack.push f k).borrows = false) :
    k.borrows = false := by
  unfold Stack.borrows at h
  split at h
  next hp => cases hp
  next => cases h
  next hp => cases hp; exact h

theorem Stack.Bears.shutDown_borrows {k : Stack .unit} (h : k.Bears M way (.shutDown M)) :
    k.borrows = false := by
  cases h with
  | done => rfl
  | push hf hk =>
    cases hf with
    | withinLeft =>
      cases hk with
      | done => rfl
      | push hf _ => cases hf

theorem Work.Exchanges.borrows (hx : w.Exchanges) (l : State) (hb : k.borrows = false) :
    ((w.perform l).2.point k).borrows = false := by
  cases w with
  | call d =>
    cases d with
    | lock m =>
      simp only [Work.perform, begin, State.lock]
      split
      · exact hb
      · split <;> exact hb
    | _ => cases hx
  | back f o =>
    cases f with
    | leased | letIn => cases o <;> exact hb
    | lockedToUse | lockedToClose =>
      cases o with
      | error e => exact hb
      | ok a =>
        simp only [Work.perform, resume, State.lockedToUse, State.lockedToClose]
        split <;> exact hb
    | singleClosed => cases o <;> exact hb
    | _ => cases hx

theorem Desk.Guarded.borrows_works (h : x.Guarded careless M c) (hr : x.loop.running = some (w.on t k))
    (hn : x.loop.singleOf M = none) (hb : k.borrows = false) :
    ((w.perform x.loop).2.point k).borrows = false := by
  obtain ⟨d, hw, hk⟩ := h.tended.work hr
  by_cases hx : w.Exchanges
  · exact hx.borrows x.loop hb
  rcases Work.perform_does hw hk h.manager (hw.unpooled hk) hx with hd | ⟨lease, hg⟩
  · have hdeed := hd.deed
    generalize hz : (w.perform x.loop).2 = n at hdeed ⊢
    generalize x.loop.engine.opened = O at hdeed
    generalize (w.perform x.loop).1.engine.opened = O' at hdeed
    cases hdeed
    case borrowsSingle =>
      obtain ⟨⟨database, pool, single, lock⟩, ha, hpool⟩ := h.manager
      have hs : single = none := by
        rw [State.singleOf, ha] at hn
        exact hn
      cases hpool
      cases hs
      simp [Work.perform, begin, State.borrow, ha] at hz
    all_goals exact hb
  · obtain ⟨o, ho⟩ := hg.next
    rw [ho]
    exact hb

theorem Spared.borrows {S : Nat → Prop} {p : Point} (hs : Spared S l l') (hi : ¬ S i)
    (h : ∀ q, l.point? i = some q → q.borrows = false) (hp : l'.point? i = some p) : p.borrows = false := by
  rcases hs i hi with he | ⟨_, c, hc⟩
  · exact h p (he ▸ hp)
  · cases hc.symm.trans hp
    rfl

theorem State.point?_apart {r : Running} {p : Point} (hr : l.running = some r) (hi : r.task ≠ i)
    (hp : l.point? i = some p) : (∃ k, p = .waits k) ∨ ∃ u, ∃ o : Outcome u, p = .ended o := by
  rw [State.point?_of_ne hr hi] at hp
  obtain ⟨y, _, hp⟩ := Option.bind_eq_some_iff.mp hp
  cases hs : y.status with
  | ready signal k => rw [hs] at hp; cases hp; exact .inl ⟨k, rfl⟩
  | paused v k => rw [hs] at hp; cases hp; exact .inl ⟨k, rfl⟩
  | running => rw [hs] at hp; cases hp
  | finished u o => rw [hs] at hp; cases hp; exact .inr ⟨u, o, rfl⟩

def State.Provides (M : Nat) (l : State) : Prop :=
  l.singleOf M = none → ∀ i p, l.point? i = some p → p.borrows = false

namespace Desk.Guarded

variable (h : x.Guarded careless M c)

include h in
theorem provides_works (hr : x.loop.running = some (w.on t k)) (hp : x.loop.Provides M)
    (hn : x.loop.singleOf M = none) : ((w.perform x.loop).2.point k).borrows = false := by
  have hx := (h.tended.running _ hr).2
  have hpt := hp hn _ _ (State.point?_at hr hx)
  refine h.borrows_works hr hn ?_
  cases w with
  | call => exact hpt
  | back f o => exact Stack.borrows_of_push hpt

include h in
theorem stride (hl : x.loop.step? = some l') : Stride x.loop l' := h.tended.step_stride hl h.undisturbed

include h in
theorem provides_apart (hl : x.loop.step? = some l') (hp : x.loop.Provides M)
    (hs : x.loop.singleOf M = none) : ∀ i p, l'.point? i = some p → p.borrows = false := by
  intro i p hpt
  cases h.stride hl with
  | @works t u w k _ hr _ hw hsp =>
    by_cases hi : i = t
    · subst hi
      cases hw.symm.trans hpt
      exact h.provides_works hr hp hs
    · exact hsp.borrows hi (hp hs i) hpt
  | @ends t _ _ _ _ _ ho hsp =>
    by_cases hi : i = t
    · subst hi
      cases ho.symm.trans hpt
      rfl
    · exact hsp.borrows hi (hp hs i) hpt
  | @goesOn t _ k _ _ hx _ hw hsp =>
    by_cases hi : i = t
    · subst hi
      cases hw.symm.trans hpt
      exact hp hs i (.waits k) hx
    · exact hsp.borrows hi (hp hs i) hpt
  | rests _ _ hsp => exact hsp.borrows id (hp hs i) hpt

include h in
theorem provides_closed {k : Stack .unit}
    (hr : x.loop.running = some ⟨t, .unit, .give (.ok ()), .push (.singleClosed M) k⟩)
    (hl : x.loop.step? = some l') (hd : ¬ x.loop.Deprives M) :
    ∀ i p, l'.point? i = some p → p.borrows = false := by
  intro i p hpt
  have before : ∀ {i p}, i ≠ t → x.loop.point? i = some p → p.borrows = false := by
    intro i p hi hp
    rcases State.point?_apart hr (Ne.symm hi) hp with ⟨k', rfl⟩ | ⟨_, _, rfl⟩
    · by_contra hb
      exact hd ⟨⟨_, hr, decide_eq_true rfl⟩, i, k', hp, Bool.eq_true_of_not_eq_false hb⟩
    · rfl
  obtain ⟨d, hw, hk⟩ := h.tended.work (w := .back (.singleClosed M) (.ok ())) hr
  have hkb : k.borrows = false := by
    cases hw with
    | back _ hf =>
      cases hf with
      | called hf => cases hf; exact hk.shutDown_borrows
      | paused hf => cases hf
  cases h.stride hl with
  | @works t' u w k' _ hr' _ hpt' hsp =>
    have he := Option.some.inj (hr'.symm.trans hr)
    cases w with
    | call => cases he
    | back f o =>
      cases he
      by_cases hi : i = t
      · subst hi
        cases hpt'.symm.trans hpt
        exact hkb
      · exact hsp.borrows hi (fun q hq => before hi hq) hpt
  | ends hr' =>
    have he := Option.some.inj (hr'.symm.trans hr)
    cases he
  | goesOn hr' | rests hr' => cases hr'.symm.trans hr

include h in
theorem provides_step (hst : x.Step M .single careless y) (hp : x.loop.Provides M)
    (hd : x.loop.step? = some y.loop → ¬ x.loop.Deprives M) : y.loop.Provides M := by
  intro hn i p hpt
  rcases hst.arrival with ⟨hl, _⟩ | ⟨hr, _, ha⟩
  · by_cases hs : x.loop.singleOf M = none
    · exact h.provides_apart hl hp hs i p hpt
    · obtain ⟨t, k, hr⟩ := h.closes hst hs hn
      exact h.provides_closed hr hl (hd hl) i p hpt
  · have hs : x.loop.singleOf M = none := (hst.keeps_single hr).symm.trans hn
    have made : ∀ {q : Point}, y.loop.point? x.loop.tasks.length = some q →
        q.borrows = false → Spared (· = x.loop.tasks.length) x.loop y.loop → p.borrows = false := by
      intro q hq hb hsp
      by_cases hi : i = x.loop.tasks.length
      · subst hi
        cases hq.symm.trans hpt
        exact hb
      · exact hsp.borrows hi (hp hs i) hpt
    cases ha with
    | enters _ _ hq hsp => exact made hq rfl hsp
    | spawns c _ hq hsp => exact made hq (by simp [Point.borrows, Stack.borrows]) hsp
    | rests _ hsp => exact hsp.borrows id (hp hs i) hpt

include h in
theorem misses_none (hp : x.loop.Provides M) : x.loop.misses M = [] := by
  rw [State.misses, State.whoever]
  split
  next r hr =>
    split
    next hm =>
      obtain ⟨t, u, control, k⟩ := r
      unfold Running.misses at hm
      split at hm
      next _ _ a m k' he =>
        cases he
        rw [Bool.and_eq_true, decide_eq_true_eq, Bool.not_eq_true'] at hm
        obtain ⟨rfl, hm⟩ := hm
        have hs : x.loop.singleOf m = none := by simpa using hm
        have hx := State.point?_at hr (h.tended.running _ hr).2
        cases hp hs _ _ hx
      next => cases hm
    next => rfl
  next => rfl

end Desk.Guarded

theorem State.Reaches.provides (h : l.Reaches M .single careless x) (hd : ∀ m ∈ x.past, ¬ m.Deprives M) :
    x.loop.Provides M ∧ x.missed M = [] := by
  obtain ⟨c, hc⟩ := h.setUp.shared
  refine h.induct (P := fun x => (∀ m ∈ x.past, ¬ m.Deprives M) → x.loop.Provides M ∧ x.missed M = [])
    (fun _ => ⟨fun hn => ?_, rfl⟩) (fun x y hx ih hst hd => ?_) hd
  · obtain ⟨_, id, _, hk, _, _, hs, _⟩ := h.setUp
    simp [State.singleOf, hk, hs] at hn
  · cases hx with
    | single hg =>
      rcases hst.arrival with ⟨hl, hp⟩ | ⟨hr, hp, _⟩
      · rw [hp] at hd
        obtain ⟨hprov, hmiss⟩ := ih fun m hm => hd m (List.mem_append_left _ hm)
        have hx := hd x.loop (List.mem_append_right _ (List.mem_singleton.mpr rfl))
        refine ⟨hg.provides_step hst hprov fun _ => hx, ?_⟩
        rw [Desk.missed, hp, List.flatMap_append, List.flatMap_singleton, hg.misses_none hprov, List.append_nil]
        exact hmiss
      · rw [hp] at hd
        obtain ⟨hprov, hmiss⟩ := ih hd
        refine ⟨hg.provides_step hst hprov fun _ hw => ?_, ?_⟩
        · obtain ⟨⟨r, hr', _⟩, _⟩ := hw
          cases hr.symm.trans hr'
        · rw [Desk.missed, hp]
          exact hmiss

/-- The calls of a manager give back what they come by. -/
structure Desk.Settles (M : Nat) (way : Route) (x : Desk) : Prop where
  /-- A call that has ended has given back what it had come by, no more and no less. -/
  even : ∀ t v (o : Outcome v), x.loop.point? t = some (.ended o) → v = .reply ∨ v = .answers ∨ v = .sighting →
    x.yielded t = x.gained t
  /-- Whoever gives back succeeds, and ends with that. -/
  home : ∀ m ∈ x.past, ∀ t c, m.yield? t = some c → (m.giveBack M (some c)).2 = .ok () ∧
    ∃ m' v, ∃ o : Outcome v, m.step? = some m' ∧ m'.running = some ⟨t, v, .give o, .done v⟩ ∧
      way.Home M c.id m m'
  /-- Whoever has obtained the lock has come to use the connection. -/
  found : way = .single → x.missed M = []

/-- Whatever happens, calls give their connections back, and these go where they belong. -/
theorem calls_settle (h : l.Reaches M way careless x) (hd : way = .single → ∀ m ∈ x.past, ¬ m.Deprives M) :
    x.Settles M way := by
  refine ⟨fun t v o hp hv => ?_, fun m hm t c hy => ?_, fun hw => ?_⟩
  · have hb := h.balance t
    have hne : v ≠ .borrowed := by rintro rfl; simp at hv
    have hnone : x.loop.lease? t = none := by
      rw [h.managed.tended.lease?_eq, hp]
      exact borrowed_of_ne hne o
    rw [hb, hnone, Option.toList_none, List.append_nil]
  · obtain ⟨z, _, hz, rfl, _⟩ := h.past hm
    exact hz.home hy
  · subst hw
    exact (h.provides (hd rfl)).2

def bothServed : Desk :=
  let l := sharing.modifyEngine fun e => { e with rules := [{ start := "select 1", hold := true }], openings := [] }
  let x := (({ loop := l } : Desk).called (.execute 0 ⟨"select 1", []⟩ (.text "read"))).called
    (.execute 0 ⟨"select 2", []⟩ (.text "read"))
  ({ x with loop := x.loop.answerHeld 1 } : Desk).settle 30

theorem bothServed_reached : sharing.Reaches 0 .single False bothServed := by
  obtain ⟨hi, hs, _⟩ := sharing_ready
  have hslow : Desk.Steps 0 .single False ⟨sharing, [], []⟩ _ :=
    .single (.engine [{ start := "select 1", hold := true }] [] [] rfl)
  have hcalls := (hslow.trans (Desk.called_steps rfl (.execute .single ⟨"select 1", []⟩ (.text "read")))).trans
    (Desk.called_steps rfl (.execute .single ⟨"select 2", []⟩ (.text "read")))
  exact ⟨hi, hs, hcalls.trans (.head (.answer (t := 1) rfl rfl rfl) (Desk.settle_steps ..))⟩

theorem calls_settle_bothServed :
    (sharing.Reaches 0 .single False bothServed ∧ ∀ m ∈ bothServed.past, ¬ m.Deprives 0) ∧
      bothServed.Settles 0 .single ∧
      (bothServed.gained 1, bothServed.gained 2) = ([⟨1, .numbered 1⟩], [⟨1, .numbered 1⟩]) ∧
      (bothServed.loop.isFinished 1 && bothServed.loop.isFinished 2) = true := by
  have hd : ∀ m ∈ bothServed.past, ¬ m.Deprives 0 := by
    have hnone : (bothServed.past.all fun m => (m.running.map (Running.removes 0)).getD false = false) = true := by
      decide +kernel
    rintro m hm ⟨⟨r, hr, hrem⟩, _⟩
    have := List.all_eq_true.mp hnone m hm
    simp [hr, hrem] at this
  exact ⟨⟨bothServed_reached, hd⟩, calls_settle bothServed_reached fun _ => hd, by decide +kernel,
    by decide +kernel⟩

end SqliteAccess.Loop
