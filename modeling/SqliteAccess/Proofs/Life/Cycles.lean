import SqliteAccess.Proofs.Life.Crossing
import SqliteAccess.Proofs.Life.ShuttingDown

/-!
A manager that is set up and shut down again and again. It serves as a new one would, unless a cycle with one
connection follows one with a pool.
-/

namespace SqliteAccess.Loop

open Access (Database Mode)
open SqliteAccess.Pool (Handle Lease)

namespace State

/-- The loop has come from one in which nothing had happened yet. -/
def Lived (l : State) : Prop := ∃ (blank : State) (past : List State), blank.Blank ∧ Course Offers blank past l

def Ungoverned (M : Nat) (l : State) : Prop :=
  ∀ (t : Nat) (u : Shape) (w : Work u) (k : Stack u), l.running = some (w.on t k) → ¬ w.Governs M

/-- Whatever becomes of a manager that nobody sets up or shuts down. -/
def Uses (M : Nat) (l m : State) : Prop :=
  ∃ past, Course Offers l past m ∧ ∀ z ∈ past, z.Ungoverned M

/-- The call has come back, and nobody else has set the manager up or shut it down meanwhile. -/
inductive Ends (M : Nat) {s : Shape} (c : Call s) (o : Outcome s) (l m : State) : Prop
  | intro {t : Nat} {past : List State} : l.running = some ⟨t, s, .call c, .done s⟩ →
      Course Offers l past m → m.running = some ⟨t, s, .give o, .done s⟩ →
      (∀ z ∈ past, ∀ o, z.running ≠ some ⟨t, s, .give o, .done s⟩) → (∀ z ∈ past, z.Governed M t) →
      Ends M c o l m

/-- The call has succeeded. -/
def Completes (M : Nat) {s : Shape} (c : Call s) (l m : State) : Prop := ∃ a, l.Ends M c (.ok a) m

/-- Whatever becomes of a manager that nobody sets up, while shutdowns of it fail or are cancelled. -/
inductive Withstands (M : Nat) (l : State) : State → Prop
  | uses {m : State} : l.Uses M m → Withstands M l m
  | fails {m m₁ m₂ : State} {e : Failure} : Withstands M l m → m.Ends M (.shutDown M) (.error e) m₁ →
      m₁.Uses M m₂ → Withstands M l m₂

/-- The manager has been set up in these ways, one after the other, and shut down each time, at the first attempt or
at a later one. -/
inductive Cycles (M : Nat) (l : State) : List Access.Reach → State → Prop
  | none : Cycles M l [] l
  | cycle {rs : List Access.Reach} {reach : Access.Reach} {location : Config.Location} {m m₁ m₂ m₃ m₄ : State} :
      Cycles M l rs m → m.Uses M m₁ → m₁.Completes M (.setUp M (some location) reach) m₂ → m₂.Withstands M m₃ →
      m₃.Completes M (.shutDown M) m₄ → Cycles M l (rs ++ [reach]) m₄

structure Left (M : Nat) (rs : List Access.Reach) (l : State) : Prop where
  bare : ∃ q, l.bare? M = some { pool := q } ∧ (q ≠ Option.none ↔ ∃ r ∈ rs, r.settings? ≠ Option.none) ∧
    ∀ p, q = some p → l.Shut p

end State

variable {l l' m x : State} {M t p : Nat} {u : Shape} {w : Work u} {past past' : List State}
  {rs : List Access.Reach} {reach : Access.Reach} {location : Config.Location} {b : Access.Manager}

theorem Course.trans {may : {s : Shape} → State → Call s → Prop} (hc : Course may l past m)
    (hc' : Course may m past' x) : Course may l (past ++ past') x := by
  induction hc' with
  | start => rwa [List.append_nil]
  | step _ hs ih =>
    rw [← List.append_assoc]
    exact ih.step hs

theorem State.Lived.accounts (h : l.Lived) : ∃ past, Accounts past l := by
  obtain ⟨blank, past, hb, hc⟩ := h
  exact ⟨past, hc.accounts hb⟩

theorem State.Lived.trans (h : l.Lived) (hc : Course State.Offers l past m) : m.Lived := by
  obtain ⟨blank, past₀, hb, hc₀⟩ := h
  exact ⟨blank, _, hb, hc₀.trans hc⟩

theorem State.Lived.uses (h : l.Lived) (hu : l.Uses M m) : m.Lived := by
  obtain ⟨past, hc, _⟩ := hu
  exact h.trans hc

theorem State.Lived.ends {s : Shape} {c : Call s} {o : Outcome s} (h : l.Lived) (hu : l.Ends M c o m) : m.Lived := by
  cases hu with
  | intro _ hc _ _ _ => exact h.trans hc

theorem State.Lived.completes {s : Shape} {c : Call s} (h : l.Lived) (hu : l.Completes M c m) : m.Lived :=
  hu.elim fun _ => h.ends

theorem State.Lived.withstands (h : l.Lived) (hu : l.Withstands M m) : m.Lived := by
  induction hu with
  | uses hu => exact h.uses hu
  | fails _ hf hu ih => exact (ih.ends hf).uses hu

theorem State.Lived.cycles (h : l.Lived) (hc : l.Cycles M rs m) : m.Lived := by
  induction hc with
  | none => exact h
  | cycle _ hu hs hw hs' ih => exact (((ih.uses hu).completes hs).withstands hw).completes hs'

theorem State.Uses.bare (hu : l.Uses M m) (hM : l.bare? M ≠ none) : m.bare? M = l.bare? M := by
  obtain ⟨past, hc, hno⟩ := hu
  induction hc with
  | start => rfl
  | @step past m m' hc hs ih =>
    have hold := ih fun z hz => hno z (List.mem_append_left _ hz)
    rcases hs.bare (hold ▸ hM) with he | ⟨t, u, w, k, hr, hg, _⟩
    · exact he.trans hold
    · exact absurd hg (hno m (List.mem_append_right _ (List.mem_singleton_self m)) t u w k hr)

theorem State.Uses.retains (hu : l.Uses M m) : l.Retains m := by
  obtain ⟨past, hc, _⟩ := hu
  exact hc.retains

theorem State.Ends.retains {s : Shape} {c : Call s} {o : Outcome s} (h : l.Ends M c o m) : l.Retains m := by
  cases h with
  | intro _ hc _ _ _ => exact hc.retains

theorem State.Completes.retains {s : Shape} {c : Call s} (h : l.Completes M c m) : l.Retains m :=
  h.elim fun _ => State.Ends.retains

theorem State.Happens.next_le {may : {s : Shape} → State → Call s → Prop} (hs : l.Happens may l') :
    l.nextConnection ≤ l'.nextConnection := by
  rcases hs.unmoved with ⟨t, u, w, k, hr, rfl⟩ | hst
  · rw [(State.carryOn_unmoved _ _ _ _).next]
    by_cases hw : w.Binds
    · cases w with
      | call => cases hw
      | back f o =>
        cases f with
        | singleOpened M d =>
          cases o with
          | error => cases hw
          | ok h =>
            dsimp only [Work.perform, resume, State.singleOpened]
            rw [((Tame.refl _).report _).toUnmoved.next]
            exact Nat.le_succ _
        | singleClosed M =>
          cases o with
          | error => cases hw
          | ok => exact ((Tame.refl l).setLock M Access.Lock.release).toUnmoved.next.ge
        | start c => cases u <;> cases hw
        | _ => cases hw
    · exact (Work.faithful hw l).next
  · exact hst.next.ge

theorem Course.next_le {may : {s : Shape} → State → Call s → Prop} (hc : Course may l past m) :
    l.nextConnection ≤ m.nextConnection :=
  hc.induct (P := fun _ m => l.nextConnection ≤ m.nextConnection) (Nat.le_refl _) fun _ _ _ _ ih hs =>
    ih.trans hs.next_le

theorem State.Completes.attains (hs : l.Completes M (.setUp M (some location) reach) m) (hl : l.AtWork) :
    l.Attains State.Offers M location reach m := by
  obtain ⟨a, hs⟩ := hs
  cases hs with
  | intro hr hc hback hfirst hg =>
    cases hc.setsUp hl hr hfirst hg with
    | begins => cases hr.symm.trans hback
    | connects _ _ _ _ hat hcon =>
      cases hat.symm.trans (State.point?_at hback (hc.atWork hl _ hback))
      exact absurd (Circle.Above.size hcon) (by simp)
    | fails hr' => cases hr'.symm.trans hback
    | succeeds _ ha => exact ha

theorem State.Ends.shuts {o : Outcome .unit} (hs : l.Ends M (.shutDown M) o m) (hl : l.AtWork) (hb : l.bare? M = some b)
    (hd : b.database ≠ none) (hpool : ∀ q, b.pool = some q → ∃ s, l.pool? q = some s) :
    o = .ok () ∧ m.bare? M = some { pool := b.pool } ∧ (∀ q, b.pool = some q → m.Shut q) ∨
      (∃ e, o = .error e) ∧ m.bare? M = some b := by
  cases hs with
  | intro hr hc hback hfirst hg =>
    cases hc.shutsDown hl hr hb hd hpool hfirst hg with
    | begins => cases hr.symm.trans hback
    | goesFor _ _ _ hr' => cases hr'.symm.trans hback
    | closes _ _ _ hat hin =>
      cases hat.symm.trans (State.point?_at hback (hc.atWork hl _ hback))
      exact absurd (Circle.Above.size hin) (by simp)
    | fails hr' hb' =>
      cases hr'.symm.trans hback
      exact .inr ⟨⟨_, rfl⟩, hb'⟩
    | succeeds hr' hb' hshut =>
      cases hr'.symm.trans hback
      exact .inl ⟨rfl, hb', hshut⟩

theorem State.Completes.shuts (hs : l.Completes M (.shutDown M) m) (hl : l.AtWork) (hb : l.bare? M = some b)
    (hd : b.database ≠ none) (hpool : ∀ q, b.pool = some q → ∃ s, l.pool? q = some s) :
    m.bare? M = some { pool := b.pool } ∧ ∀ q, b.pool = some q → m.Shut q := by
  obtain ⟨_, hs⟩ := hs
  rcases hs.shuts hl hb hd hpool with ⟨_, h⟩ | ⟨⟨_, he⟩, _⟩
  · exact h
  · cases he

theorem State.Uses.exists_pool (hu : l.Uses M m) {q : Nat} (hs : ∃ s, l.pool? q = some s) :
    ∃ s, m.pool? q = some s := by
  obtain ⟨s, hs⟩ := hs
  obtain ⟨s', hs', _⟩ := hu.retains q s hs
  exact ⟨s', hs'⟩

theorem State.Withstands.stands (hw : l.Withstands M m) (hl : l.Lived) (hb : l.bare? M = some b)
    (hd : b.database ≠ none) (hpool : ∀ q, b.pool = some q → ∃ s, l.pool? q = some s) :
    m.bare? M = some b ∧ ∀ q, b.pool = some q → ∃ s, m.pool? q = some s := by
  induction hw with
  | uses hu => exact ⟨(hu.bare (by rw [hb]; nofun)).trans hb, fun q hq => hu.exists_pool (hpool q hq)⟩
  | @fails m m₁ m₂ e hw hf hu ih =>
    obtain ⟨hb', hpool'⟩ := ih
    obtain ⟨_, ha⟩ := (hl.withstands hw).accounts
    have hb₁ : m₁.bare? M = some b := by
      rcases hf.shuts ha.atWork hb' hd hpool' with ⟨he, _⟩ | ⟨_, h⟩
      · cases he
      · exact h
    refine ⟨(hu.bare (by rw [hb₁]; nofun)).trans hb₁, fun q hq => hu.exists_pool ?_⟩
    obtain ⟨s, hs⟩ := hpool' q hq
    obtain ⟨s', hs', _⟩ := hf.retains q s hs
    exact ⟨s', hs'⟩

inductive State.Renewed (M : Nat) (location : Config.Location) (rs : List Access.Reach) (l m : State) :
    Access.Reach → Prop
  | pooled {reach : Access.Reach} {settings : Config.PoolSettings} : reach.settings? = some settings →
      m.bare? M = some { database := some { location }, pool := some l.pools.length } →
      m.pool? l.pools.length = some { settings, source := .database { location } } →
      State.Renewed M location rs l m reach
  | single {reach : Access.Reach} {c : Pool.Connection} : reach.settings? = none →
      (∀ r ∈ rs, r.settings? = none) → m.bare? M = some { database := some { location }, single := some c.id } →
      m.standalone? c.id = some c → c.inUse = false → l.nextConnection ≤ c.id →
      State.Renewed M location rs l m reach
  | barred {reach : Access.Reach} {p i : Nat} : reach.settings? = none → (∃ r ∈ rs, r.settings? ≠ none) →
      m.bare? M = some { database := some { location }, pool := some p, single := some i } → l.Shut p →
      State.Renewed M location rs l m reach

theorem Accounts.joined (ha : Accounts past l) (M : Nat) (d : Database) (h : Handle) :
    ∃ c, (l.singleOpened M d (.ok h)).1.standalone? c.id = some c ∧ c.inUse = false ∧ c.id = l.nextConnection := by
  refine ⟨{ id := l.nextConnection, handle := h, releasedAt := l.clock }, ?_, rfl, rfl⟩
  have hold : l.standalone.find? (fun c => c.id = l.nextConnection) = none := by
    refine List.find?_eq_none.mpr fun c hc => ?_
    have hlt : c.id < l.nextConnection := ha.singled.fresh c.lease (List.mem_map_of_mem hc)
    simpa using Nat.ne_of_lt hlt
  change (l.standalone ++ [_]).find? _ = _
  rw [List.find?_append, hold]
  simp

theorem State.Left.renewed (h : l.Left M rs) (hl : l.Lived) (hs : l.Attains State.Offers M location reach m) :
    State.Renewed M location rs l m reach := by
  obtain ⟨q, hb, hq, hshut⟩ := h.bare
  cases hs with
  | pooled hset _ hbare hpool =>
    refine .pooled hset ?_ hpool
    rw [hbare, hb]
    rfl
  | @single past z h hset _ hc hren hs hr =>
    obtain ⟨t, k, hr⟩ := hr
    obtain ⟨_, ha⟩ := (hl.trans hc).accounts
    obtain ⟨c, hfind, huse, hid⟩ := ha.joined M { location } h
    have hm := hs.works hr
    have hbare : m.bare? M = some { database := some { location }, pool := q, single := some c.id } := by
      rw [hm, (State.carryOn_unmoved _ _ _ _).bare]
      refine (State.singleOpened_bare z M { location } h).trans ?_
      rw [hren, hb, hid]
      rfl
    cases q with
    | none =>
      refine .single hset (fun r hr => ?_) hbare (hm ▸ hfind) huse (hid ▸ hc.next_le)
      by_contra hne
      exact hq.mpr ⟨r, hr, hne⟩ rfl
    | some p => exact .barred hset (hq.mp nofun) hbare (hshut p rfl)

theorem State.Renewed.stands (h : State.Renewed M location rs l m reach) (hr : l.Retains m) :
    ∃ b, m.bare? M = some b ∧ b.database = some { location } ∧
      (b.pool ≠ none ↔ ∃ r ∈ rs ++ [reach], r.settings? ≠ none) ∧ ∀ q, b.pool = some q → ∃ s, m.pool? q = some s := by
  cases h with
  | pooled hset hb hp =>
    refine ⟨_, hb, rfl, ⟨fun _ => ⟨reach, by simp, by rw [hset]; nofun⟩, fun _ => nofun⟩, fun q hq => ?_⟩
    cases hq
    exact ⟨_, hp⟩
  | single hset hall hb =>
    refine ⟨_, hb, rfl, ⟨fun hne => absurd rfl hne, ?_⟩, nofun⟩
    rintro ⟨r, hr, hne⟩
    rcases List.mem_append.mp hr with hr | hr
    · exact absurd (hall r hr) hne
    · cases List.mem_singleton.mp hr
      exact absurd hset hne
  | barred hset hex hb hshut =>
    obtain ⟨r, hr', hne⟩ := hex
    refine ⟨_, hb, rfl, ⟨fun _ => ⟨r, List.mem_append_left _ hr', hne⟩, fun _ => nofun⟩, fun q hq => ?_⟩
    cases hq
    obtain ⟨s, hs, _⟩ := hshut.retained hr
    exact ⟨s, hs⟩

theorem State.Left.uses (h : l.Left M rs) (hu : l.Uses M m) : m.Left M rs := by
  obtain ⟨q, hb, hq, hshut⟩ := h.bare
  exact ⟨q, (hu.bare (by rw [hb]; nofun)).trans hb, hq, fun p hp => (hshut p hp).retained hu.retains⟩

theorem State.Cycles.left (h : l.Cycles M rs m) (hl : l.Lived) (hnew : l.bare? M = some {}) : m.Left M rs := by
  induction h with
  | none => exact ⟨Option.none, hnew, by simp, nofun⟩
  | @cycle rs reach location m m₁ m₂ m₃ m₄ hcyc hu hset hw hshut ih =>
    have hl₁ := (hl.cycles hcyc).uses hu
    have hl₂ := hl₁.completes hset
    obtain ⟨_, ha₁⟩ := hl₁.accounts
    obtain ⟨_, ha₃⟩ := (hl₂.withstands hw).accounts
    have hren := (ih.uses hu).renewed hl₁ (hset.attains ha₁.atWork)
    obtain ⟨b, hb, hd, hpool, hex⟩ := hren.stands hset.retains
    have hdata : b.database ≠ Option.none := by
      rw [hd]
      nofun
    obtain ⟨hb₃, hex₃⟩ := hw.stands hl₂ hb hdata hex
    obtain ⟨hb₄, hshut₄⟩ := hshut.shuts ha₃.atWork hb₃ hdata hex₃
    exact ⟨b.pool, hb₄, hpool, hshut₄⟩

def State.pooled? (M : Nat) (l : State) : Option Bool := (l.manager? M).map Access.Manager.pooled

/-- A manager has been set up again: the call was made in the first state and has come back in the second one,
and by the third one nobody has shut it down. -/
inductive State.Resumes (M : Nat) (location : Config.Location) (rs : List Access.Reach) (l m x : State) :
    Access.Reach → Prop
  /-- It hands out connections of a new pool, as a new manager does. -/
  | pooled {reach : Access.Reach} {settings : Config.PoolSettings} : reach.settings? = some settings →
      m.SetUp M (.pool l.pools.length { location }) → x.pooled? M = some true →
      x.borrow M = (x, .call (.acquire l.pools.length) .leased) → State.Resumes M location rs l m x reach
  /-- It hands out a new connection, as a new manager does, if nobody has left its lock locked. -/
  | single {reach : Access.Reach} {i : Nat} : reach.settings? = none → (∀ r ∈ rs, r.settings? = none) →
      l.nextConnection ≤ i → x.singleOf M = some i →
      (∀ k, m.manager? M = some k → k.lock = {} → m.SetUp M .single) → x.pooled? M = some false →
      x.borrow M = (x, .call (.lock M) (.lockedToUse M)) → State.Resumes M location rs l m x reach
  /-- It goes on to turn to the pool that an earlier shutdown has closed, and hands out nothing. -/
  | barred {reach : Access.Reach} {p : Nat} : reach.settings? = none → (∃ r ∈ rs, r.settings? ≠ none) →
      p < l.pools.length → x.pooled? M = some true → x.borrow M = (x, .call (.acquire p) .leased) →
      x.acquire p = (x, .give (.error .poolClosed)) → State.Resumes M location rs l m x reach

theorem State.pooled?_of_bare (hb : l.bare? M = some b) : l.pooled? M = some b.pool.isSome := by
  obtain ⟨k, hk, _, hp, _⟩ := State.bare?_eq_some hb
  rw [State.pooled?, hk, Option.map_some, Access.Manager.pooled, hp]

theorem State.borrow_pooled (hb : l.bare? M = some b) (hp : b.pool = some p) :
    l.borrow M = (l, .call (.acquire p) .leased) := by
  obtain ⟨⟨d, q, s, lock⟩, hk, _, hq, _⟩ := State.bare?_eq_some hb
  obtain rfl : q = some p := hq.trans hp
  simp only [State.borrow, hk]

theorem State.acquire_shut (h : l.Shut p) : l.acquire p = (l, .give (.error .poolClosed)) := by
  obtain ⟨s, hs, hc⟩ := h
  simp [State.acquire, hs, hc]

theorem State.Renewed.resumes {y z : State} (h : State.Renewed M location rs y z reach) (hz : y.Retains z)
    (hb : x.bare? M = z.bare? M) (hr : z.Retains x) : State.Resumes M location rs y z x reach := by
  cases h with
  | @pooled settings hs hbz hp =>
    have hbx := hb.trans hbz
    obtain ⟨k, hk, hkd, hkp, hks⟩ := State.bare?_eq_some hbz
    exact .pooled hs ⟨⟨k, hk, hkd, hkp, hks⟩, settings, hp⟩ (State.pooled?_of_bare hbx)
      (State.borrow_pooled hbx rfl)
  | @single c hs hall hbz hc huse hle =>
    have hbx := hb.trans hbz
    have hi : x.singleOf M = some c.id := State.singleOf_of_bare hbx
    refine .single hs hall hle hi (fun k hk hlock => ?_) (State.pooled?_of_bare hbx) ?_
    · obtain ⟨k', hk', hkd, hkp, hks⟩ := State.bare?_eq_some hbz
      cases hk.symm.trans hk'
      refine ⟨k, c.id, c, hk, ?_, hkp, hks, hlock, hc, huse⟩
      rw [Access.Manager.enabled, hkd]
      rfl
    · rcases State.borrow_single hbx rfl with ⟨_, he⟩ | ⟨hno, _⟩
      · exact he
      · cases hi.symm.trans hno
  | @barred p i hs hex hbz hshut =>
    have hbx := hb.trans hbz
    have hlt : p < y.pools.length := by
      obtain ⟨s, hps, _⟩ := hshut
      exact (List.getElem?_eq_some_iff.mp hps).1
    exact .barred hs hex hlt (State.pooled?_of_bare hbx) (State.borrow_pooled hbx rfl)
      (State.acquire_shut ((hshut.retained hz).retained hr))

theorem State.execute_borrows (hb : l.bare? M = some b) (hd : b.database ≠ none) (s : Sql.Statement) {v : Value}
    {md : Mode} (hm : Mode.ofValue v = .ok md) :
    ∃ m restores, l.execute M s v = (m, .call (.borrow M) (.executing M s md restores)) ∧ Unmoved l m := by
  obtain ⟨k, hk, hkd, _, _⟩ := State.bare?_eq_some hb
  have hen : k.enabled = true := by
    rw [Access.Manager.enabled, hkd]
    exact Option.isSome_iff_ne_none.mpr hd
  refine ⟨l.enterScope.1, l.enterScope.2, ?_, ((Tame.refl l).enterScope).toUnmoved⟩
  simp [State.execute, hk, hen, hm]

/-- A manager that has gone through any cycles of set-ups and shutdowns, some of which may have failed and been
repeated, is set up again, and has not been shut down since. Calls and statements get what a new manager would hand
out, and it tells how it has been set up, unless it was to have one connection and had a pool before: then it tells
that it is pooled, and hands out nothing. -/
theorem setUp_again {y z : State} (hl : l.Lived) (hnew : l.bare? M = some {}) (hcyc : l.Cycles M rs m)
    (hu : m.Uses M y) (hset : y.Completes M (.setUp M (some location) reach) z) (hx : z.Uses M x) :
    State.Resumes M location rs y z x reach ∧
      ∀ (s : Sql.Statement) (v : Value) (md : Mode), Mode.ofValue v = .ok md →
        ∃ x' restores, x.execute M s v = (x', .call (.borrow M) (.executing M s md restores)) ∧
          State.Resumes M location rs y z x' reach := by
  have hy := (hl.cycles hcyc).uses hu
  obtain ⟨_, ha⟩ := hy.accounts
  have hren := ((hcyc.left hl hnew).uses hu).renewed hy (hset.attains ha.atWork)
  obtain ⟨b, hb, hd, _⟩ := hren.stands hset.retains
  have hbx : x.bare? M = z.bare? M := hx.bare (by rw [hb]; nofun)
  refine ⟨hren.resumes hset.retains hbx hx.retains, fun s v md hm => ?_⟩
  obtain ⟨x', restores, he, hst⟩ := State.execute_borrows (hbx.trans hb) (by rw [hd]; nofun) s hm
  exact ⟨x', restores, he, hren.resumes hset.retains ((hst.bare M).trans hbx) (hx.retains.trans (.unmoved hst))⟩

def State.onward (l : State) (n : Nat) : State := (State.track [] l n).2

def State.resting (l : State) : Bool :=
  match l.running with
  | none | some ⟨_, _, .give _, .done _⟩ => true
  | _ => false

def State.engages (t : Nat) (l : State) : Bool :=
  match l.running with
  | none => true
  | some ⟨i, _, .give _, .done _⟩ => i ≠ t
  | some r => r.task = t

theorem State.ungoverned_of_resting (h : l.resting = true) : l.Ungoverned M := by
  intro t u w k hr _
  rw [State.resting, hr] at h
  cases w <;> cases h

theorem State.Uses.onward {n : Nat} (h : (State.track [] l n).1.all State.resting = true) :
    l.Uses M (l.onward n) :=
  ⟨_, Course.start.track n, fun z hz => State.ungoverned_of_resting (List.all_eq_true.mp h z hz)⟩

theorem State.Uses.enter {s : Shape} {c : Call s} (hu : l.Uses M m) (hr : m.running = none)
    (hc : State.Offers m c) : l.Uses M (m.enter c) := by
  obtain ⟨past, hcourse, hno⟩ := hu
  refine ⟨_, hcourse.step (.enter hr hc), fun z hz => ?_⟩
  rcases List.mem_append.mp hz with hz | hz
  · exact hno z hz
  · cases List.mem_singleton.mp hz
    exact State.ungoverned_of_resting (by rw [State.resting, hr])

theorem State.Ends.onward {s : Shape} {c : Call s} {o : Outcome s} {n : Nat}
    (hr : l.running = some ⟨t, s, .call c, .done s⟩)
    (h : (State.track [] l n).1.all (State.engages t) = true)
    (hm : (l.onward n).running = some ⟨t, s, .give o, .done s⟩) : l.Ends M c o (l.onward n) := by
  refine .intro hr (Course.start.track n) hm (fun z hz o hz' => ?_) fun z hz i u w k hz' _ => ?_
  · have he := List.all_eq_true.mp h z hz
    rw [State.engages, hz'] at he
    simp at he
  · have he := List.all_eq_true.mp h z hz
    rw [State.engages, hz'] at he
    cases w with
    | call c => exact of_decide_eq_true he
    | back f o => exact of_decide_eq_true he

def closeFails : State :=
  { managers := [{}], engine := { closings := [{ fault := some ⟨"OperationalError", "disk I/O error"⟩ }] } }

def singleFirst : State := closeFails.enter (.setUp 0 (some { filename := "f" }) .single)

def notShut : State := ((singleFirst.onward 7).onward 1).enter (.shutDown 0)

def shutAgain : State := ((notShut.onward 5).onward 1).enter (.shutDown 0)

def singleAgain : State := ((shutAgain.onward 5).onward 1).enter (.setUp 0 (some { filename := "f" }) .single)

/-- The first shutdown fails, and the second one succeeds. -/
theorem setUp_again_singleAgain :
    (closeFails.Lived ∧ closeFails.bare? 0 = some {} ∧ closeFails.Cycles 0 [.single] (shutAgain.onward 5)) ∧
      State.Resumes 0 { filename := "f" } [.single] singleAgain (singleAgain.onward 7)
        ((singleAgain.onward 7).onward 1) .single := by
  have idle : ∀ {l : State}, l.running.isNone = true → l.running = none := Option.isNone_iff_eq_none.mp
  have hlived : closeFails.Lived := ⟨closeFails, [], .of_new rfl rfl, .start⟩
  have hnone : closeFails.Uses 0 closeFails := ⟨[], .start, List.forall_mem_nil _⟩
  have hfirst : closeFails.Uses 0 singleFirst := hnone.enter rfl trivial
  have hsingle : singleFirst.Completes 0 (.setUp 0 (some { filename := "f" }) .single) (singleFirst.onward 7) :=
    ⟨0, .onward rfl (by decide +kernel) rfl⟩
  have hused : (singleFirst.onward 7).Uses 0 notShut :=
    State.Uses.enter (.onward (by decide +kernel)) (idle (by decide +kernel)) trivial
  have hfails : notShut.Ends 0 (.shutDown 0) (.error (.raised ⟨"OperationalError", "disk I/O error"⟩))
      (notShut.onward 5) := .onward rfl (by decide +kernel) rfl
  have hagain : (notShut.onward 5).Uses 0 shutAgain :=
    State.Uses.enter (.onward (by decide +kernel)) (idle (by decide +kernel)) trivial
  have hshut : shutAgain.Completes 0 (.shutDown 0) (shutAgain.onward 5) := ⟨(), .onward rfl (by decide +kernel) rfl⟩
  have hcyc : closeFails.Cycles 0 [.single] (shutAgain.onward 5) :=
    .cycle .none hfirst hsingle (.fails (.uses hused) hfails hagain) hshut
  have hu : (shutAgain.onward 5).Uses 0 singleAgain :=
    State.Uses.enter (.onward (by decide +kernel)) (idle (by decide +kernel)) trivial
  have hset : singleAgain.Completes 0 (.setUp 0 (some { filename := "f" }) .single) (singleAgain.onward 7) :=
    ⟨0, .onward rfl (by decide +kernel) rfl⟩
  exact ⟨⟨hlived, rfl, hcyc⟩, (setUp_again hlived rfl hcyc hu hset (.onward (by decide +kernel))).1⟩

def newManager : State := { managers := [{}] }

def pooledFirst : State := newManager.enter (.setUp 0 (some { filename := "f" }) .standard)

def thenShut : State := ((pooledFirst.onward 1).onward 1).enter (.shutDown 0)

def thenSingle : State := ((thenShut.onward 3).onward 1).enter (.setUp 0 (some { filename := "f" }) .single)

theorem newManager_lived : newManager.Lived := ⟨newManager, [], .of_new rfl rfl, .start⟩

theorem thenSingle_cycles : newManager.Cycles 0 [.standard] (thenShut.onward 3) ∧
    (thenShut.onward 3).Uses 0 thenSingle ∧
    thenSingle.Completes 0 (.setUp 0 (some { filename := "f" }) .single) (thenSingle.onward 7) ∧
    (thenSingle.onward 7).Uses 0 ((thenSingle.onward 7).onward 1) := by
  have idle : ∀ {l : State}, l.running.isNone = true → l.running = none := Option.isNone_iff_eq_none.mp
  have hnone : newManager.Uses 0 newManager := ⟨[], .start, List.forall_mem_nil _⟩
  have hfirst : newManager.Uses 0 pooledFirst := hnone.enter rfl trivial
  have hpooled : pooledFirst.Completes 0 (.setUp 0 (some { filename := "f" }) .standard) (pooledFirst.onward 1) :=
    ⟨0, .onward rfl (by decide +kernel) rfl⟩
  have hused : (pooledFirst.onward 1).Uses 0 thenShut :=
    State.Uses.enter (.onward (by decide +kernel)) (idle (by decide +kernel)) trivial
  have hshut : thenShut.Completes 0 (.shutDown 0) (thenShut.onward 3) :=
    ⟨(), .onward rfl (by decide +kernel) rfl⟩
  exact ⟨.cycle .none hfirst hpooled (.uses hused) hshut,
    State.Uses.enter (.onward (by decide +kernel)) (idle (by decide +kernel)) trivial,
    ⟨0, .onward rfl (by decide +kernel) rfl⟩, .onward (by decide +kernel)⟩

/-- The manager has been set up with a single connection, which it has opened. It tells that it is pooled, and a
client that asks for a connection is told that the pool is closed. -/
theorem single_after_pool_closed :
    let x := (thenSingle.onward 7).onward 1
    newManager.Cycles 0 [.standard] (thenShut.onward 3) ∧ (thenShut.onward 3).Uses 0 thenSingle ∧
      thenSingle.Completes 0 (.setUp 0 (some { filename := "f" }) .single) (thenSingle.onward 7) ∧
      x.pooled? 0 = some true ∧ x.shared? 0 = some ⟨1, .numbered 1⟩ ∧
      ((x.enter (.borrow 0)).onward 10).point? 3 = some (.ended (u := .borrowed) (.error .poolClosed)) := by
  obtain ⟨hcyc, hu, hset, _⟩ := thenSingle_cycles
  exact ⟨hcyc, hu, hset, rfl, by decide +kernel, rfl⟩

end SqliteAccess.Loop
