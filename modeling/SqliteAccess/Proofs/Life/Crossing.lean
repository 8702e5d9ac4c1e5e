import SqliteAccess.Proofs.Life.Disconnecting
import SqliteAccess.Proofs.Life.SettingUp

/-!
A set-up with one connection that shutdowns cross. What comes of it depends on whether one of them has fallen
into the connect.
-/

namespace SqliteAccess.Loop

open Access (Database)
open SqliteAccess.Pool (Handle Lease)

def Work.Shuts : {u : Shape} → Work u → Prop
  | _, .call (.shutDown _) | _, .back (.poolShut _) _ | _, .back (.singleClosed _) _ => True
  | _, _ => False

/-- Others than the task do nothing with the manager but shut it down. -/
def State.OnlyShut (M t : Nat) (l : State) : Prop :=
  ∀ (i : Nat) (u : Shape) (w : Work u) (k : Stack u), l.running = some (w.on i k) → w.Governs M → i = t ∨ w.Shuts

def attaching (M : Nat) (location : Config.Location) : Stack .handle :=
  .push (.singleOpened M { location }) (.done .manager)

def State.CutOff (t M : Nat) (location : Config.Location) (l : State) : Prop :=
  l.database? M = none ∧ ∃ p, l.point? t = some p ∧ connecting.Within (attaching M location) p

def Brought (t M : Nat) (location : Config.Location) (past : List State) (h : Handle) : Prop :=
  ∃ z ∈ past, z.running = some ⟨t, .handle, .give (.ok h), attaching M location⟩

def Cut (t M : Nat) (location : Config.Location) (past : List State) : Prop := ∃ z ∈ past, z.CutOff t M location

inductive State.Leads (t M : Nat) (location : Config.Location) (past : List State) (m : State) :
    Outcome .manager → Prop
  | serves {i : Nat} {c : Lease} : m.bare? M = some { database := some { location }, single := some c.id } →
      c ∈ m.alone → m.Sealed M → (c.handle ∈ m.engine.closes → m.Disconnects M ∨ CloseFailed M past) →
      Brought t M location past c.handle → ¬ Cut t M location past → State.Leads t M location past m (.ok i)
  | strands {i : Nat} {c : Lease} : m.bare? M = some { single := some c.id } → c ∈ m.alone →
      ¬ m.Disconnects M → c.handle ∉ m.engine.closes → Brought t M location past c.handle →
      Cut t M location past → State.Leads t M location past m (.ok i)
  | closes {i : Nat} {h : Handle} : m.bare? M = some {} → h ∈ m.engine.closes → Brought t M location past h →
      ¬ Cut t M location past → State.Leads t M location past m (.ok i)
  | fails {e : Failure} {d : Option Database} : m.bare? M = some { database := d } →
      State.Leads t M location past m (.error e)

inductive State.Races (t M : Nat) (location : Config.Location) (l : State) : List State → State → Prop
  | begins : State.Races t M location l [] l
  | connects {past : List State} {m : State} {p : Point} {d : Option Database} : m.point? t = some p →
      connecting.Within (attaching M location) p → m.bare? M = some { database := d } → ¬ m.Disconnects M →
      d = none ∨ d = some { location } ∧ ¬ Cut t M location past → State.Races t M location l past m
  | ended {past : List State} {m : State} {p : Point} {o : Outcome .manager} : m.point? t = some p →
      p = .works (.give o) (.done .manager) ∨ p = .ended o → m.Leads t M location past o →
      State.Races t M location l past m

variable {l l' m : State} {M t i : Nat} {u : Shape} {w : Work u} {k : Stack u} {past past₀ : List State}
  {location : Config.Location} {reach : Access.Reach} {d : Option Database} {sg : Option Nat} {h : Handle}
  {o : Outcome .manager}

theorem State.shutSingle_bare (hb : l.bare? M = some { database := d, single := sg }) :
    (l.shutSingle M).1.bare? M = some { database := d, single := sg } ∨
      (d = none ∨ sg = none) ∧ (l.shutSingle M).1.bare? M = some { single := sg } := by
  obtain ⟨k, hk, hd, _, hs⟩ := State.bare?_eq_some hb
  dsimp only at hd hs
  simp only [State.shutSingle, hk]
  split
  next => exact .inl hb
  next hno =>
    refine .inr ⟨?_, ?_⟩
    · rw [hs, Access.Manager.enabled, hd] at hno
      cases d <;> cases sg <;> simp_all
    · rw [State.bare?_modifyManager (g := fun k => { k with database := none }) fun _ => rfl, hb]
      rfl

theorem State.AtWork.shuts (hl : l.AtWork) (hr : l.running = some (w.on i k)) (hg : w.Governs M) (hs : w.Shuts)
    (hb : l.bare? M = some { database := d, single := sg }) :
    (w.perform l).1.bare? M = some { database := d, single := sg } ∨
      (d = none ∨ sg = none) ∧ (w.perform l).1.bare? M = some { single := sg } ∨
      (∃ p, l.point? i = some p ∧ p.Disconnects M ∧ ¬ l.Severs M p) ∧ (w.perform l).1.bare? M = some {} := by
  have single : ∀ {x : Option Access.Manager}, x = some { database := d, single := sg } ∨
      (d = none ∨ sg = none) ∧ x = some { single := sg } →
      x = some { database := d, single := sg } ∨ (d = none ∨ sg = none) ∧ x = some { single := sg } ∨
        (∃ p, l.point? i = some p ∧ p.Disconnects M ∧ ¬ l.Severs M p) ∧ x = some {} := fun h => h.imp_right .inl
  obtain ⟨b, hman, _, hpool, _⟩ := State.bare?_eq_some hb
  cases w with
  | call c =>
    cases c with
    | shutDown m =>
      obtain rfl : m = M := hg
      have hno : (l.manager? m).bind (·.pool) = none := by rw [hman]; exact hpool
      simp only [Work.perform, begin, State.shutDown, hno]
      exact single (State.shutSingle_bare hb)
    | _ => cases hs
  | back f o =>
    cases f with
    | poolShut m =>
      obtain rfl : m = M := hg
      cases o with
      | error => exact .inl hb
      | ok => exact single (State.shutSingle_bare hb)
    | singleClosed m =>
      obtain rfl : m = M := hg
      cases o with
      | error e => exact .inl ((((Tame.refl l).setLock m Access.Lock.release).toUnmoved.bare m).trans hb)
      | ok =>
        refine .inr (.inr ⟨⟨_, State.point?_at hr (hl _ hr), .inl rfl, fun h => ?_⟩, ?_⟩)
        · change l.Severs m (.works (.give (.ok ())) (.push (.singleClosed m) k)) at h
          cases h
        · exact (l.singleClosed_bare m).trans (by rw [hb]; rfl)
    | _ => cases hs

theorem cut_snoc : Cut t M location (past ++ [m]) ↔ Cut t M location past ∨ m.CutOff t M location := by
  simp only [Cut, List.mem_append, List.mem_singleton]
  constructor
  · rintro ⟨z, hz | rfl, h⟩
    · exact .inl ⟨z, hz, h⟩
    · exact .inr h
  · rintro (⟨z, hz, h⟩ | h)
    · exact ⟨z, .inl hz, h⟩
    · exact ⟨m, .inr rfl, h⟩

theorem Brought.snoc (hb : Brought t M location past h) (m : State) : Brought t M location (past ++ [m]) h := by
  obtain ⟨z, hz, hr⟩ := hb
  exact ⟨z, List.mem_append_left _ hz, hr⟩

theorem State.Happens.beside (hs : m.Happens State.Offers l') (hm : m.AtWork) (ho : m.OnlyShut M t)
    (ht : ∀ (u : Shape) (w : Work u) (k : Stack u), m.running = some (w.on t k) → ¬ w.Governs M)
    (hb : m.bare? M = some { database := d, single := sg }) :
    l'.bare? M = some { database := d, single := sg } ∨
      (d = none ∨ sg = none) ∧ l'.bare? M = some { single := sg } ∨
      (∃ i p, m.point? i = some p ∧ p.Disconnects M ∧ ¬ m.Severs M p) ∧ l'.bare? M = some {} := by
  rcases hs.bare (M := M) (by rw [hb]; nofun) with he | ⟨i, u, w, k, hr, hg, rfl⟩
  · exact .inl (he.trans hb)
  · rcases ho i u w k hr hg with rfl | hsh
    · exact absurd hg (ht u w k hr)
    · rw [(State.carryOn_unmoved _ _ _ _).bare]
      exact (hm.shuts hr hg hsh hb).imp_right fun h => h.imp_right fun ⟨hp, hb'⟩ => ⟨⟨i, hp⟩, hb'⟩

theorem Accounts.ended (ha : Accounts past₀ m) {p : Point} (hat : m.point? t = some p)
    (hp : p = .works (.give o) (.done .manager) ∨ p = .ended o) :
    ¬ m.CutOff t M location ∧
      ∀ (u : Shape) (w : Work u) (k : Stack u), m.running ≠ some (w.on t k) := by
  constructor
  · rintro ⟨_, q, hq, hcon⟩
    cases hat.symm.trans hq
    rcases hp with rfl | rfl
    · cases hcon
    · cases hcon
  · intro u w k hr
    have hat' := State.point?_at hr (ha.atWork _ hr)
    rw [Work.on_task, hat, Option.some.injEq] at hat'
    rcases hp with rfl | rfl
    · cases w <;> cases hat'
    · cases hat'

theorem Accounts.pending (ha : Accounts past₀ m) (hs : m.Happens State.Offers l') {c : Lease} (hc : c ∈ m.alone)
    (hb : m.bare? M = some { database := d, single := some c.id })
    (hb' : l'.bare? M = some { database := d, single := some c.id })
    (hold : c.handle ∈ m.engine.closes → m.Disconnects M ∨ CloseFailed M past)
    (hcl : c.handle ∈ l'.engine.closes) : l'.Disconnects M ∨ CloseFailed M (past ++ [m]) := by
  by_cases hwas : c.handle ∈ m.engine.closes
  · rcases hold hwas with hd | hf
    · refine (hd.happens ha.atWork hs).imp_right fun ⟨i, o, k, hr⟩ => ?_
      cases o with
      | error e => exact ⟨m, List.mem_append_right _ (List.mem_singleton_self m), i, e, k, hr⟩
      | ok =>
        have he := hs.works (w := .back (.singleClosed M) (.ok ())) hr
        have hnone : l'.bare? M = some {} := by
          rw [he, (State.carryOn_unmoved _ _ _ _).bare]
          exact (m.singleClosed_bare M).trans (by rw [hb]; rfl)
        cases hnone.symm.trans hb'
    · exact .inr (hf.snoc m)
  · exact .inl (ha.closes_disconnects hs hc (State.singleOf_of_bare hb) hwas hcl)

theorem State.Leads.happens (h : m.Leads t M location past o) (ha : Accounts past₀ m) (ho : m.OnlyShut M t)
    (hs : m.Happens State.Offers l') (hcut : ¬ m.CutOff t M location)
    (ht : ∀ (u : Shape) (w : Work u) (k : Stack u), m.running = some (w.on t k) → ¬ w.Governs M) :
    l'.Leads t M location (past ++ [m]) o := by
  obtain ⟨halone, hcloses⟩ := ha.lasts hs
  cases h with
  | serves hb hc hseal hpend hbr hno =>
    have hM := State.singleOf_of_bare hb
    have hno' : ¬ Cut t M location (past ++ [m]) := fun h => (cut_snoc.mp h).elim hno hcut
    rcases hs.beside ha.atWork ho ht hb with hb' | ⟨hd, _⟩ | ⟨⟨i, p, hp, hd, hsev⟩, hb'⟩
    · have hM' := State.singleOf_of_bare hb'
      exact .serves hb' (halone hc) (ha.seals hs hseal fun j hj => hM.trans (hM'.symm.trans hj))
        (ha.pending hs hc hb hb' hpend) (hbr.snoc m) hno'
    · rcases hd with hd | hd <;> cases hd
    · exact .closes hb' (hcloses ((hseal i p hp hd).resolve_left hsev _ hc hM)) (hbr.snoc m) hno'
  | @strands i c hb hc hnobody hopen hbr hyes =>
    have hM := State.singleOf_of_bare hb
    have hyes' : Cut t M location (past ++ [m]) := cut_snoc.mpr (.inl hyes)
    have same : l'.bare? M = some { single := some c.id } → l'.Leads t M location (past ++ [m]) (.ok i) := fun hb' => by
      have hnobody' := ha.undisturbed_disconnects hs hnobody (.inr (State.database?_of_bare hb'))
      exact .strands hb' (halone hc) hnobody'
        (fun hcl => hnobody' (ha.closes_disconnects hs hc hM hopen hcl)) (hbr.snoc m) hyes'
    rcases hs.beside ha.atWork ho ht hb with hb' | ⟨_, hb'⟩ | ⟨⟨i, p, hp, hd, _⟩, _⟩
    · exact same hb'
    · exact same hb'
    · exact absurd ⟨i, p, hp, hd⟩ hnobody
  | closes hb hcl hbr hno =>
    have hno' : ¬ Cut t M location (past ++ [m]) := fun h => (cut_snoc.mp h).elim hno hcut
    rcases hs.beside ha.atWork ho ht hb with hb' | ⟨_, hb'⟩ | ⟨_, hb'⟩ <;>
      exact .closes hb' (hcloses hcl) (hbr.snoc m) hno'
  | fails hb =>
    rcases hs.beside ha.atWork ho ht hb with hb' | ⟨_, hb'⟩ | ⟨_, hb'⟩ <;> exact .fails hb'

theorem State.Races.comes {p : Point} (ha : Accounts past₀ m) (hs : m.Happens State.Offers l') (hat : m.point? t = some p)
    (hcon : connecting.Within (attaching M location) p) (hb : m.bare? M = some { database := d }) (hnobody : ¬ m.Disconnects M)
    (hd : d = none ∨ d = some { location } ∧ ¬ Cut t M location past) {r : Outcome .handle}
    (hr : m.running = some ((Work.back (.singleOpened M { location }) r).on t (.done .manager))) :
    State.Races t M location l (past ++ [m]) l' := by
  have hl' := hs.works (w := .back (.singleOpened M { location }) r) hr
  have hp' := hs.works_point (w := .back (.singleOpened M { location }) r) ha.atWork hr
  cases r with
  | error e =>
    refine .ended hp' (.inl rfl) (.fails (d := d) ?_)
    rw [hl']
    exact hb
  | ok h =>
    have hj := (State.singleOpened_joined (State.bare?_lt (by rw [hb]; nofun)) { location } h).unmoved
      (State.carryOn_unmoved (m.singleOpened M { location } (.ok h)).1 t (.give (.ok M)) (.done .manager))
    have hin : ⟨m.nextConnection, h⟩ ∈ l'.alone := by
      rw [hl']
      exact hj.alone ▸ List.mem_append_right _ (List.mem_singleton_self _)
    have hb' : l'.bare? M = some { database := d, single := some m.nextConnection } := by
      rw [hl', (State.carryOn_unmoved _ _ _ _).bare]
      exact (m.singleOpened_bare M _ h).trans (by rw [hb]; rfl)
    have hbr : Brought t M location (past ++ [m]) h := ⟨m, List.mem_append_right _ (List.mem_singleton_self m), hr⟩
    have hopen : h ∉ l'.engine.closes := by
      obtain ⟨_, hopen⟩ := ha.fresh (h := h) (State.point?_at hr (ha.atWork _ hr))
        (by simp [Work.on, Running.point, Point.holds, Control.holds, arrived]) (by simp [Running.point])
      rw [hl']
      exact hj.closes ▸ hopen
    -- The only task at work is the one that has opened the connection.
    have hnobody' : ¬ l'.Disconnects M := by
      rintro ⟨i, q, hq, hdis⟩
      rcases ha.disconnects hs hq hdis with ⟨q', hq', hdis'⟩ | hsev
      · exact hnobody ⟨i, q', hq', hdis'⟩
      · have hrun : l'.running = some ⟨t, .manager, .give (.ok M), .done .manager⟩ := by rw [hl']; rfl
        cases hsev
        cases hrun.symm.trans ((ha.happens hs).atWork.running_at hq)
    refine .ended hp' (.inl rfl) ?_
    rcases hd with rfl | ⟨rfl, hno⟩
    · exact .strands (c := ⟨m.nextConnection, h⟩) hb' hin hnobody' hopen hbr
        (cut_snoc.mpr (.inr ⟨State.database?_of_bare hb, p, hat, hcon⟩))
    · refine .serves (c := ⟨m.nextConnection, h⟩) hb' hin (fun i q hq hdis => absurd ⟨i, q, hq, hdis⟩ hnobody')
        (fun hcl => absurd hcl hopen) hbr fun hcut => ?_
      rcases cut_snoc.mp hcut with hcut | ⟨hnone, _⟩
      · exact hno hcut
      · rw [State.database?_of_bare hb] at hnone
        cases hnone

theorem State.setUp_connects (hb : l.bare? M = some {}) (hs : reach.settings? = none) :
    l.setUp M (some location) reach =
      (l.modifyManager M fun k => { k with database := some { location } },
        .call (.connect { location } false) (.singleOpened M { location })) := by
  obtain ⟨k, hk, hd, _⟩ := State.bare?_eq_some hb
  dsimp only at hd
  simp [State.setUp, hk, Access.Manager.enabled, hd, hs]

theorem State.Races.happens (h : State.Races t M location l past m) (ha : Accounts past₀ m)
    (hr : l.running = some ⟨t, .manager, .call (.setUp M (some location) reach), .done .manager⟩)
    (hreach : reach.settings? = none) (hnew : l.bare? M = some {}) (hquiet : ¬ l.Disconnects M)
    (ho : m.OnlyShut M t) (hs : m.Happens State.Offers l') : State.Races t M location l (past ++ [m]) l' := by
  cases h with
  | begins =>
    have hat := State.point?_at hr (ha.atWork _ hr)
    have hcut : ¬ l.CutOff t M location := by
      rintro ⟨_, q, hq, hcon⟩
      cases hat.symm.trans hq
      exact hcon.1
    have he := hs.works (w := .call (.setUp M (some location) reach)) hr
    have hp' := hs.works_point (w := .call (.setUp M (some location) reach)) ha.atWork hr
    simp only [Work.perform, begin, State.setUp_connects hnew hreach] at he hp'
    have hb' : l'.bare? M = some { database := some { location } } := by
      rw [he, (State.carryOn_unmoved _ _ _ _).bare,
        State.bare?_modifyManager (g := fun k => { k with database := some { location } }) fun _ => rfl, hnew]
      rfl
    refine .connects hp' ⟨trivial, .base⟩ hb'
      (ha.undisturbed_disconnects hs hquiet (.inl (State.singleOf_of_bare hb'))) (.inr ⟨rfl, fun h => ?_⟩)
    · rcases cut_snoc.mp h with ⟨z, hz, _⟩ | h
      · cases hz
      · exact hcut h
  | @connects past m p d hat hcon hb hnobody hd =>
    have still : ∀ {d}, l'.bare? M = some { database := d } → ¬ l'.Disconnects M := fun hb' =>
      ha.undisturbed_disconnects hs hnobody (.inl (State.singleOf_of_bare hb'))
    rcases connecting_closed.happens hs ha.atWork hat hcon with ⟨p', hp', hcon', ht⟩ | ⟨r, hr'⟩
    · rcases hs.beside ha.atWork ho (ht M) hb with hb' | ⟨_, hb'⟩ | ⟨⟨i, q, hq, hdis, _⟩, _⟩
      · refine .connects hp' hcon' hb' (still hb') (hd.imp_right fun h => ⟨h.1, fun hcut => ?_⟩)
        obtain ⟨he, hno⟩ := h
        rcases cut_snoc.mp hcut with hcut | ⟨hnone, _⟩
        · exact hno hcut
        · rw [State.database?_of_bare hb, he] at hnone
          cases hnone
      · exact .connects hp' hcon' hb' (still hb') (.inl rfl)
      · exact absurd ⟨i, q, hq, hdis⟩ hnobody
    · exact .comes ha hs hat hcon hb hnobody hd hr'
  | @ended past m p o hat hp hleads =>
    obtain ⟨(hcut : ¬ m.CutOff t M location), hno⟩ := ha.ended hat hp
    obtain ⟨p', hp', hgets⟩ := hs.gets ha.atWork hat
    have hleads' := hleads.happens ha ho hs hcut fun u w k hr' => absurd hr' (hno u w k)
    cases hgets with
    | stays => exact .ended hp' hp hleads'
    | works hr' => exact absurd hr' (hno _ _ _)
    | ends hr' =>
      refine .ended hp' (.inr ?_) hleads'
      rcases hp with hp | hp <;> cases hp
      rfl
    | goesOn => rcases hp with hp | hp <;> cases hp

theorem Course.races (hc : Course State.Offers l past m) (ha : Accounts past₀ l)
    (hr : l.running = some ⟨t, .manager, .call (.setUp M (some location) reach), .done .manager⟩)
    (hreach : reach.settings? = none) (hnew : l.bare? M = some {}) (hquiet : ¬ l.Disconnects M)
    (ho : ∀ z ∈ past, z.OnlyShut M t) :
    Accounts (past₀ ++ past) m ∧ State.Races t M location l past m := by
  induction hc with
  | start => exact ⟨by rwa [List.append_nil], .begins⟩
  | @step past m m' hc hs ih =>
    obtain ⟨hacc, hraces⟩ := ih fun z hz => ho z (List.mem_append_left _ hz)
    have hin : m ∈ past ++ [m] := List.mem_append_right _ (List.mem_singleton_self m)
    exact ⟨List.append_assoc past₀ past [m] ▸ hacc.happens hs,
      hraces.happens hacc hr hreach hnew hquiet (ho m hin) hs⟩

/-- How a set-up ends that shutdowns may have crossed. -/
inductive State.Crossed (t M : Nat) (location : Config.Location) (past : List State) (m : State) :
    Outcome .manager → Prop
  /-- The manager has its connection, and nobody has shut it down. -/
  | served {i : Nat} {c : Lease} : m.database? M = some { location } → m.shared? M = some c →
      c.handle ∉ m.engine.closes → Brought t M location past c.handle → ¬ Cut t M location past →
      State.Crossed t M location past m (.ok i)
  /-- A shutdown that came after the connect waits for the close of the connection, or its close has failed. -/
  | closing {i : Nat} {c : Lease} : m.database? M = some { location } → m.shared? M = some c →
      c.handle ∈ m.engine.closes → m.Disconnects M ∨ CloseFailed M past → Brought t M location past c.handle →
      ¬ Cut t M location past → State.Crossed t M location past m (.ok i)
  /-- A shutdown that came after the connect has closed the connection. -/
  | closed {i : Nat} {h : Handle} : m.database? M = none → m.singleOf M = none → h ∈ m.engine.closes →
      Brought t M location past h → ¬ Cut t M location past → State.Crossed t M location past m (.ok i)
  /-- A shutdown has fallen into the connect. No shutdown has closed the connection, and none is about to. -/
  | stranded {i : Nat} {c : Lease} : m.database? M = none → m.shared? M = some c → ¬ m.Disconnects M →
      c.handle ∉ m.engine.closes → Brought t M location past c.handle → Cut t M location past →
      State.Crossed t M location past m (.ok i)
  | failed {e : Failure} : m.singleOf M = none → State.Crossed t M location past m (.error e)

theorem State.Leads.crossed (h : m.Leads t M location past o) (ha : Accounts past₀ m) :
    State.Crossed t M location past m o := by
  cases h with
  | @serves _ c hb hc _ hpend hbr hno =>
    have hd := State.database?_of_bare hb
    have hi := (State.shared?_iff ha.singled).mpr ⟨hc, State.singleOf_of_bare hb⟩
    by_cases hcl : c.handle ∈ m.engine.closes
    · exact .closing hd hi hcl (hpend hcl) hbr hno
    · exact .served hd hi hcl hbr hno
  | strands hb hc hnobody hopen hbr hyes =>
    exact .stranded (State.database?_of_bare hb)
      ((State.shared?_iff ha.singled).mpr ⟨hc, State.singleOf_of_bare hb⟩) hnobody hopen hbr hyes
  | closes hb hcl hbr hno =>
    exact .closed (State.database?_of_bare hb) (State.singleOf_of_bare hb) hcl hbr hno
  | fails hb => exact .failed (State.singleOf_of_bare hb)

theorem State.borrow_single {b : Access.Manager} (hb : l.bare? M = some b) (hp : b.pool = none) :
    (∃ i, l.singleOf M = some i) ∧ l.borrow M = (l, .call (.lock M) (.lockedToUse M)) ∨
      l.singleOf M = none ∧ l.borrow M = (l, .give (.ok none)) := by
  obtain ⟨k, hk, _, hkp, hks⟩ := State.bare?_eq_some hb
  obtain ⟨database, pool, single, lock⟩ := k
  obtain rfl : pool = none := hkp.trans hp
  cases single with
  | none => exact .inr ⟨by rw [State.singleOf, hk]; rfl, by simp only [State.borrow, hk]⟩
  | some i => exact .inl ⟨⟨i, by rw [State.singleOf, hk]; rfl⟩, by simp only [State.borrow, hk]⟩

/-- A new manager is set up with one connection while others shut it down as often as they like, at any time.
Once the set-up has ended, the manager is disabled with its connection attached and open exactly if one of the
shutdowns has fallen into the connect; then no shutdown closes the connection, and the manager goes on to hand
it out. -/
theorem setUp_crossed {blank : State} (hblank : blank.Blank) (h₀ : Course State.Offers blank past₀ l)
    (hr : l.running = some ⟨t, .manager, .call (.setUp M (some location) reach), .done .manager⟩)
    (hreach : reach.settings? = none) (hnew : l.bare? M = some {}) (hquiet : ¬ l.Disconnects M)
    (hc : Course State.Offers l past m) (ho : ∀ z ∈ past, z.OnlyShut M t) (hm : m.running = none)
    (hend : m.point? t = some (.ended o)) :
    State.Crossed t M location past m o ∧
      ((∃ c, m.shared? M = some c) ∧ m.borrow M = (m, .call (.lock M) (.lockedToUse M)) ∨
        m.singleOf M = none ∧ m.borrow M = (m, .give (.ok none))) := by
  obtain ⟨ha, hraces⟩ := hc.races (h₀.accounts hblank) hr hreach hnew hquiet ho
  cases hraces with
  | begins => cases hr.symm.trans hm
  | connects hat hcon =>
    cases hend.symm.trans hat
    cases hcon
  | ended hat hp hleads =>
    cases hend.symm.trans hat
    rcases hp with hp | hp <;> cases hp
    refine ⟨hleads.crossed ha, ?_⟩
    have hpool : ∃ b, m.bare? M = some b ∧ b.pool = none := by
      cases hleads with
      | serves hb | strands hb | closes hb | fails hb => exact ⟨_, hb, rfl⟩
    obtain ⟨b, hb, hp⟩ := hpool
    refine (State.borrow_single hb hp).imp_left fun ⟨⟨i, hi⟩, he⟩ => ⟨?_, he⟩
    obtain ⟨c, hc, rfl⟩ := ha.singled.held M i hi
    exact ⟨c, (State.shared?_iff ha.singled).mpr ⟨hc, hi⟩⟩

def slowSetUp : State := slowEngine.enter (.setUp 0 (some { filename := "f" }) .single)

theorem slowSetUp_quiet : Course State.Offers slowEngine [slowEngine] slowSetUp ∧ ¬ slowSetUp.Disconnects 0 := by
  have h₀ : Course State.Offers slowEngine [slowEngine] slowSetUp := Course.start.step (.enter rfl trivial)
  refine ⟨h₀, h₀.undisturbed_disconnects slowEngine_blank fun z hz => ?_⟩
  rcases List.mem_pair.mp hz with rfl | rfl <;> rfl

def crossedOnce : List State × State :=
  let x := State.calling (State.track [] slowSetUp 10) (.shutDown 0) 10
  State.track (x.1 ++ [x.2]) (x.2.answerHeld 0) 20

def crossedLater : List State × State :=
  let x := State.track [] slowSetUp 10
  State.calling (State.track (x.1 ++ [x.2]) (x.2.answerHeld 0) 20) (.shutDown 0) 10

theorem crossedOnce_course : Course State.Offers slowSetUp crossedOnce.1 crossedOnce.2 := by
  have hstart : Course State.Offers slowSetUp [] slowSetUp := .start
  have hshut := (hstart.track 10).calling rfl (c := .shutDown 0) trivial 10
  exact (hshut.step (.answer (t := 0) rfl rfl rfl)).track 20

theorem crossedLater_course : Course State.Offers slowSetUp crossedLater.1 crossedLater.2 := by
  have hstart : Course State.Offers slowSetUp [] slowSetUp := .start
  have hset := ((hstart.track 10).step (.answer (t := 0) rfl rfl rfl)).track 20
  exact hset.calling rfl (c := .shutDown 0) trivial 10

def Running.setsUpOnly (t : Nat) : Running → Bool
  | ⟨i, _, .call (.setUp _ _ _), _⟩ | ⟨i, _, .give _, .push (.singleOpened _ _) _⟩ => i = t
  | _ => true

theorem State.OnlyShut.of_setsUpOnly (h : (m.running.map (Running.setsUpOnly t)).getD true = true) :
    m.OnlyShut M t := by
  intro i u w k hr hg
  rw [hr, Option.map_some, Option.getD_some] at h
  cases w with
  | call c =>
    cases c with
    | setUp => exact .inl (of_decide_eq_true h)
    | shutDown => exact .inr trivial
    | _ => cases hg
  | back f o =>
    cases f with
    | singleOpened => exact .inl (of_decide_eq_true h)
    | poolShut | singleClosed => exact .inr trivial
    | _ => cases hg

theorem crossedLater_only : ∀ z ∈ crossedLater.1, z.OnlyShut 0 0 := by
  have hall : (crossedLater.1.all fun z => (z.running.map (Running.setsUpOnly 0)).getD true) = true := by
    decide +kernel
  exact fun z hz => .of_setsUpOnly (List.all_eq_true.mp hall z hz)

/-- The shutdown waits for the close. Its manager is enabled, and keeps the connection until the close has come back. -/
theorem setUp_crossed_crossedLater :
    (Course State.Offers slowSetUp crossedLater.1 crossedLater.2 ∧ ¬ slowSetUp.Disconnects 0 ∧
        ∀ z ∈ crossedLater.1, z.OnlyShut 0 0) ∧
      (crossedLater.2.engine.closes = [.numbered 1] ∧ crossedLater.2.shared? 0 = some ⟨1, .numbered 1⟩) ∧
      ∃ o, crossedLater.2.point? 0 = some (.ended o) ∧
        State.Crossed 0 0 { filename := "f" } crossedLater.1 crossedLater.2 o := by
  have hidle : crossedLater.2.running = none := Option.isNone_iff_eq_none.mp (by decide +kernel)
  have hend : crossedLater.2.point? 0 = some (.ended (u := .manager) (.ok 0)) := rfl
  exact ⟨⟨crossedLater_course, slowSetUp_quiet.2, crossedLater_only⟩, ⟨by decide +kernel, by decide +kernel⟩,
    .ok 0, hend, (setUp_crossed slowEngine_blank slowSetUp_quiet.1 rfl rfl rfl slowSetUp_quiet.2 crossedLater_course
      crossedLater_only hidle hend).1⟩

/-- The shutdown has fallen into the connect: the set-up succeeds, and leaves the manager disabled with an open
connection. A client gets the connection, and a further shutdown does not close it. -/
theorem shutdown_strands_connection :
    let x := State.calling crossedOnce (.borrow 0) 20
    let y := State.calling x (.shutDown 0) 20
    Course State.Offers slowSetUp y.1 y.2 ∧ crossedOnce.2.database? 0 = none ∧
      (crossedOnce.2.isFinished 0 && crossedOnce.2.isFinished 1) = true ∧
      crossedOnce.2.shared? 0 = some ⟨1, .numbered 1⟩ ∧ x.2.lease? 2 = some ⟨1, .numbered 1⟩ ∧
      y.2.isFinished 3 = true ∧ y.2.shared? 0 = some ⟨1, .numbered 1⟩ ∧ y.2.engine.closes = [] := by
  have hidle : crossedOnce.2.running = none := Option.isNone_iff_eq_none.mp (by decide +kernel)
  have hx := crossedOnce_course.calling hidle (c := .borrow 0) trivial 20
  have hidle' : (State.calling crossedOnce (.borrow 0) 20).2.running = none :=
    Option.isNone_iff_eq_none.mp (by decide +kernel)
  exact ⟨hx.calling hidle' (c := .shutDown 0) trivial 20, Option.isNone_iff_eq_none.mp (by decide +kernel),
    by decide +kernel, by decide +kernel, by decide +kernel, by decide +kernel, by decide +kernel,
    by decide +kernel⟩

end SqliteAccess.Loop
