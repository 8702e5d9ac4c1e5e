import SqliteAccess.Proofs.Life.Circle
import SqliteAccess.Proofs.Life.Openings

/-!
Setting a manager up with one connection. The manager has its database from the first step on, whatever
comes of the connect.
-/

namespace SqliteAccess.Loop

open Access (Database)
open SqliteAccess.Pool (Handle)

def Call.Connects : {s : Shape} → Call s → Prop
  | _, .connect _ _ | _, .dial _ | _, .send _ _ => True
  | _, _ => False

def Frame.Connects : {s t : Shape} → Frame s t → Prop
  | _, _, .dialled _ | _, _, .connected _ _ | _, _, .foreignKeysSet _ _ _ | _, _, .journalSet _ _
  | _, _, .sent _ => True
  | _, _, _ => False

def connecting : Circle where
  call := Call.Connects
  frame := Frame.Connects

variable {may : {s : Shape} → State → Call s → Prop} {l l' m : State} {M t i : Nat} {u v : Shape} {w : Work u}
  {k : Stack u} {base : Stack v} {past : List State} {p : Point} {n : Next u}

theorem connecting_not_governs (w : Work u) (M : Nat) (hw : connecting.work w) : ¬ w.Governs M := by
  cases w with
  | call c => cases c <;> first | exact id | cases hw
  | back f o => cases f <;> first | exact id | cases hw

theorem connecting_next (w : Work u) (l : State) (hw : connecting.work w) :
    connecting.next (w.perform l).2 := by
  cases w with
  | call c =>
    cases c with
    | connect => exact ⟨trivial, trivial⟩
    | dial d =>
      simp only [Work.perform, begin, State.dial]
      split
      · trivial
      · unfold State.endDial
        split <;> trivial
    | send h s =>
      simp only [Work.perform, begin, State.send]
      split <;> trivial
    | _ => cases hw
  | back f o =>
    cases f with
    | dialled fault =>
      cases o with
      | error => trivial
      | ok => cases fault <;> trivial
    | connected =>
      cases o with
      | error => trivial
      | ok => exact ⟨trivial, trivial⟩
    | foreignKeysSet d h wal =>
      cases o with
      | error => trivial
      | ok => cases wal <;> trivial
    | journalSet => cases o <;> trivial
    | sent => cases o <;> trivial
    | _ => cases hw

theorem connecting_closed : connecting.Closed := ⟨connecting_next, connecting_not_governs⟩

/-- Nobody but the task sets the manager up or shuts it down. -/
def State.Governed (M t : Nat) (l : State) : Prop :=
  ∀ (i : Nat) (u : Shape) (w : Work u) (k : Stack u), l.running = some (w.on i k) → w.Governs M → i = t

/-- The manager has a new database, and all else that it had. -/
def State.Renamed (M : Nat) (location : Config.Location) (l m : State) : Prop :=
  m.bare? M = (l.bare? M).map fun k => { k with database := some { location } }

def State.LeftUnset (M : Nat) (location : Config.Location) (reach : Access.Reach) (l m : State) : Prop :=
  (l.bare? M = none ∨ l.database? M ≠ none) ∧ m.bare? M = l.bare? M ∨
    reach.settings? = none ∧ l.bare? M ≠ none ∧ l.database? M = none ∧ l.Renamed M location m

inductive State.Attains (may : {s : Shape} → State → Call s → Prop) (M : Nat) (location : Config.Location)
    (reach : Access.Reach) (l m : State) : Prop
  | pooled {settings : Config.PoolSettings} : reach.settings? = some settings → l.database? M = none →
      (m.bare? M = (l.bare? M).map fun k =>
        { k with database := some { location }, pool := some l.pools.length }) →
      m.pool? l.pools.length = some { settings, source := .database { location } } →
      State.Attains may M location reach l m
  | single {past : List State} {z : State} {h : Handle} : reach.settings? = none → l.database? M = none →
      Course may l past z → l.Renamed M location z → z.Happens may m →
      (∃ t k, z.running = some ((Work.back (.singleOpened M { location }) (.ok h)).on t k)) →
      State.Attains may M location reach l m

inductive State.SetsUp (may : {s : Shape} → State → Call s → Prop) (t M : Nat) (location : Config.Location)
    (reach : Access.Reach) (k : Stack .manager) (l : State) : State → Prop
  | begins : State.SetsUp may t M location reach k l l
  | connects {m : State} {p : Point} : reach.settings? = none → l.bare? M ≠ none → l.database? M = none →
      l.Renamed M location m → m.point? t = some p →
      connecting.Within (.push (.singleOpened M { location }) k) p → State.SetsUp may t M location reach k l m
  | fails {m : State} {e : Failure} : m.running = some ⟨t, .manager, .give (.error e), k⟩ →
      l.LeftUnset M location reach m → State.SetsUp may t M location reach k l m
  | succeeds {m : State} {i : Nat} : m.running = some ⟨t, .manager, .give (.ok i), k⟩ →
      l.Attains may M location reach m → State.SetsUp may t M location reach k l m

variable {location : Config.Location} {reach : Access.Reach} {k : Stack .manager}

theorem State.usePool_bare (l : State) (M : Nat) (d : Database) (s : Config.PoolSettings) :
    (l.usePool M d s).bare? M = (l.bare? M).map fun k => { k with pool := some l.pools.length } := by
  rw [State.usePool, ((Tame.refl _).report _).toUnmoved.bare]
  exact State.bare?_modifyManager fun _ => rfl

theorem State.usePool_pool (l : State) (M : Nat) (d : Database) (s : Config.PoolSettings) :
    (l.usePool M d s).pool? l.pools.length = some { settings := s, source := .database d } :=
  List.getElem?_concat_length

theorem State.singleOpened_bare (l : State) (M : Nat) (d : Database) (h : Handle) :
    (l.singleOpened M d (.ok h)).1.bare? M = (l.bare? M).map fun k => { k with single := some l.nextConnection } := by
  dsimp only [State.singleOpened]
  rw [((Tame.refl _).report _).toUnmoved.bare]
  exact State.bare?_modifyManager fun _ => rfl

theorem State.setUp_step (hr : l.running = some ⟨t, .manager, .call (.setUp M (some location) reach), k⟩)
    (hw : l.AtWork) :
    l.SetsUp may t M location reach k ((l.setUp M (some location) reach).1.carryOn t
      (l.setUp M (some location) reach).2 k) := by
  have hx := hw _ hr
  cases hb : l.manager? M with
  | none =>
    have hnone : l.bare? M = none := by rw [State.bare?, hb]; rfl
    simp only [State.setUp, hb]
    exact .fails rfl (.inl ⟨.inl hnone, rfl⟩)
  | some b =>
    have hbare : l.bare? M = some { b with lock := {} } := by rw [State.bare?, hb]; rfl
    have hdata : l.database? M = b.database := by rw [State.database?, hb]; rfl
    simp only [State.setUp, hb]
    split
    next he =>
      refine .fails rfl (.inl ⟨.inr ?_, rfl⟩)
      rw [hdata]
      exact Option.isSome_iff_ne_none.mp he
    next he =>
      have hdis : l.database? M = none := by
        rw [hdata]
        simpa [Access.Manager.enabled] using he
      split
      next hs =>
        have hat := State.carryOn_point (t := t)
          (m := l.modifyManager M fun b => { b with database := some { location } }) hx
          (.call (.connect { location } false) (.singleOpened M { location })) k
        refine .connects hs (by simp [hbare]) hdis ?_ hat ⟨trivial, .base⟩
        exact State.bare?_modifyManager fun _ => rfl
      next s hs =>
        have hbare' : ((l.modifyManager M fun k => { k with database := some { location } }).usePool M
            { location } s).bare? M = (l.bare? M).map fun k =>
              { k with database := some { location }, pool := some l.pools.length } := by
          rw [State.usePool_bare,
            State.bare?_modifyManager (g := fun k => { k with database := some { location } }) fun _ => rfl,
            Option.map_map]
          rfl
        exact .succeeds rfl (.pooled hs hdis hbare' (State.usePool_pool _ M _ s))

theorem State.SetsUp.happens (h : l.SetsUp may t M location reach k m) (hc : Course may l past m) (hl : l.AtWork)
    (hr : l.running = some ⟨t, .manager, .call (.setUp M (some location) reach), k⟩)
    (hback : ∀ o, m.running ≠ some ⟨t, .manager, .give o, k⟩) (hg : m.Governed M t) (hs : m.Happens may l') :
    l.SetsUp may t M location reach k l' := by
  have hw := hc.atWork hl
  cases h with
  | begins => exact hs.works (w := .call (.setUp M (some location) reach)) hr ▸ State.setUp_step hr hl
  | connects hset hb hd hren hat hcon =>
    rcases connecting_closed.happens hs hw hat hcon with ⟨p', hp', hcon', hno⟩ | ⟨o, hr'⟩
    · have hbare : m.bare? M ≠ none := by
        rw [hren]
        exact mt Option.map_eq_none_iff.mp hb
      refine .connects hset hb hd ?_ hp' hcon'
      rcases hs.bare hbare with he | ⟨i, u, w, k', hr', hgov, _⟩
      · exact he.trans hren
      · obtain rfl := hg i u w k' hr' hgov
        exact absurd hgov (hno M u w k' hr')
    · have he := hs.works (w := .back (.singleOpened M { location }) o) hr'
      cases o with
      | ok h => exact .succeeds (by rw [he]; rfl) (.single hset hd hc hren hs ⟨t, k, hr'⟩)
      | error e =>
        refine .fails (by rw [he]; rfl) (.inr ⟨hset, hb, hd, ?_⟩)
        rw [he]
        exact hren
  | fails hr' => exact absurd hr' (hback _)
  | succeeds hr' => exact absurd hr' (hback _)

theorem Course.setsUp (hc : Course may l past m) (hl : l.AtWork)
    (hr : l.running = some ⟨t, .manager, .call (.setUp M (some location) reach), k⟩)
    (hfirst : ∀ z ∈ past, ∀ o, z.running ≠ some ⟨t, .manager, .give o, k⟩) (hg : ∀ z ∈ past, z.Governed M t) :
    l.SetsUp may t M location reach k m := by
  induction hc with
  | start => exact .begins
  | @step past m m' hc hs ih =>
    have hin : m ∈ past ++ [m] := List.mem_append_right _ (List.mem_singleton_self m)
    have hold := ih (fun z hz => hfirst z (List.mem_append_left _ hz)) fun z hz => hg z (List.mem_append_left _ hz)
    exact hold.happens hc hl hr (hfirst m hin) (hg m hin) hs

/-- Nobody shuts the manager down in the step that comes, and no connect comes back for it. -/
def State.Leaves (M : Nat) (l : State) : Prop :=
  ∀ (i : Nat) (u : Shape) (w : Work u) (k : Stack u), l.running = some (w.on i k) → w.Governs M →
    ∃ location reach k', w.on i k = ⟨i, .manager, .call (.setUp M location reach), k'⟩

theorem State.setUp_enabled (hd : l.database? M ≠ none) (location : Config.Location) (reach : Access.Reach) :
    l.setUp M (some location) reach = (l, .give (.error .alreadyInitialized)) := by
  obtain ⟨b, hb, hdb⟩ := Option.bind_eq_some_iff.mp (Option.ne_none_iff_exists'.mp hd).choose_spec
  simp [State.setUp, hb, Access.Manager.enabled, hdb]

theorem Course.left (hc : Course may l past m) (hd : l.database? M ≠ none) (hg : ∀ z ∈ past, z.Leaves M) :
    m.bare? M = l.bare? M := by
  have hbare : l.bare? M ≠ none := fun hn => hd (by rw [State.database?_eq, hn]; rfl)
  induction hc with
  | start => rfl
  | @step past m m' hc hs ih =>
    have hold := ih fun z hz => hg z (List.mem_append_left _ hz)
    have hin : m ∈ past ++ [m] := List.mem_append_right _ (List.mem_singleton_self m)
    have hd' : m.database? M ≠ none := by rwa [State.database?_eq, hold, ← State.database?_eq]
    rcases hs.bare (hold ▸ hbare) with he | ⟨i, u, w, k, hr, hgov, rfl⟩
    · exact he.trans hold
    · obtain ⟨location, reach, k', he⟩ := hg m hin i u w k hr hgov
      cases w with
      | back => cases he
      | call c =>
        cases he
        rw [((State.carryOn_unmoved _ _ _ _).bare M), ← hold]
        cases location with
        | none => exact ((Tame.refl m).report _).toUnmoved.bare M
        | some location =>
          have hset := State.setUp_enabled hd' location reach
          simp only [Work.perform, begin]
          rw [hset]

/-- A set-up that fails has been refused, and then it has changed nothing; or the manager has kept the new
database. Then all further set-ups are refused, until the manager is shut down. -/
theorem failed_setUp_keeps_database {e : Failure} (hl : l.AtWork)
    (hr : l.running = some ⟨t, .manager, .call (.setUp M (some location) reach), k⟩) (hc : Course may l past m)
    (hfirst : ∀ z ∈ past, ∀ o, z.running ≠ some ⟨t, .manager, .give o, k⟩) (hg : ∀ z ∈ past, z.Governed M t)
    (hback : m.running = some ⟨t, .manager, .give (.error e), k⟩) :
    (l.bare? M = none ∨ l.database? M ≠ none) ∧ m.bare? M = l.bare? M ∨
      (reach.settings? = none ∧ l.database? M = none ∧ l.Renamed M location m) ∧
        ∀ past' m', Course may m past' m' → (∀ z ∈ past', z.Leaves M) →
          m'.bare? M = m.bare? M ∧ ∀ location' reach',
            m'.setUp M (some location') reach' = (m', .give (.error .alreadyInitialized)) := by
  cases hc.setsUp hl hr hfirst hg with
  | begins => cases hr.symm.trans hback
  | connects _ _ _ _ hat hcon =>
    cases hat.symm.trans (State.point?_at hback (hc.atWork hl _ hback))
    exact absurd (Circle.Above.size hcon) (by simp)
  | succeeds hr' => cases hr'.symm.trans hback
  | fails _ hf =>
    rcases hf with ⟨hno, he⟩ | ⟨hset, hb, hd, hren⟩
    · exact .inl ⟨hno, he⟩
    · refine .inr ⟨⟨hset, hd, hren⟩, fun past' m' hc' hleft => ?_⟩
      obtain ⟨b, hb⟩ := Option.ne_none_iff_exists'.mp hb
      have hdata : m.database? M ≠ none := by
        rw [State.database?_eq, hren, hb]
        exact nofun
      have hkept := hc'.left hdata hleft
      refine ⟨hkept, State.setUp_enabled ?_⟩
      rwa [State.database?_eq, hkept, ← State.database?_eq]

def refusesOnce : State :=
  { managers := [{}]
    engine := { openings := [{ fault := some ⟨"OperationalError", "unable to open database file"⟩ }] } }

def settingUp : State := refusesOnce.enter (.setUp 0 (some { filename := "f" }) .single)

def openRefused : List State × State := State.track [] settingUp 5

theorem openRefused_course : Course State.Offers settingUp openRefused.1 openRefused.2 := Course.start.track 5

theorem openRefused_alone : ∀ z ∈ openRefused.1, z.Governed 0 0 ∧
    ∀ o, z.running ≠ some ⟨0, .manager, .give o, .done .manager⟩ := by
  have htask : (openRefused.1.all fun z => (z.running.map (·.task)).getD 0 = 0) = true := by decide +kernel
  have hback : (openRefused.1.all fun z => (z.running.map fun r =>
      match r.control with
      | .give _ => r.shape ≠ .manager
      | .call _ => true).getD true) = true := by decide +kernel
  intro z hz
  have htask := List.all_eq_true.mp htask z hz
  have hback := List.all_eq_true.mp hback z hz
  refine ⟨fun i u w k hr _ => ?_, fun o hr => ?_⟩
  · simpa [hr] using htask
  · simp [hr] at hback

theorem failed_setUp_keeps_database_refused :
    (∃ e, openRefused.2.running = some ⟨0, .manager, .give (.error e), .done .manager⟩) ∧
      Course State.Offers settingUp openRefused.1 openRefused.2 ∧
      openRefused.2.setUp 0 (some { filename := "f" }) .single =
        (openRefused.2, .give (.error .alreadyInitialized)) := by
  have hl : settingUp.AtWork := fun r hr => by cases hr; exact ⟨_, rfl, rfl⟩
  have hback : ∃ e, openRefused.2.running = some ⟨0, .manager, .give (.error e), .done .manager⟩ := ⟨_, rfl⟩
  obtain ⟨e, he⟩ := hback
  rcases failed_setUp_keeps_database hl rfl openRefused_course (fun z hz => (openRefused_alone z hz).2)
      (fun z hz => (openRefused_alone z hz).1) he with ⟨hno, _⟩ | ⟨_, hlater⟩
  · rcases hno with hno | hno
    · cases hno
    · exact absurd rfl hno
  · have hagain := (hlater [] openRefused.2 .start fun z hz => (List.not_mem_nil hz).elim).2
    exact ⟨⟨e, he⟩, openRefused_course, hagain { filename := "f" } .single⟩

/-- The first set-up fails. It leaves the manager with a database that it did not have, and so the second one
is refused. -/
theorem second_setUp_refused :
    let x := State.calling ([], refusesOnce) (.setUp 0 (some { filename := "f" }) .single) 20
    let y := State.calling x (.setUp 0 (some { filename := "f" }) .single) 20
    Course State.Offers refusesOnce y.1 y.2 ∧ refusesOnce.database? 0 = none ∧
      (x.2.database? 0).isSome = true ∧
      x.2.endOf 0 = .error (.cannotOpen "f" "unable to open database file") ∧
      y.2.endOf 1 = .error .alreadyInitialized := by
  have hx : Course State.Offers refusesOnce _ _ :=
    Course.start.calling rfl (c := .setUp 0 (some { filename := "f" }) .single) trivial 20
  have hidle : (State.calling ([], refusesOnce) (.setUp 0 (some { filename := "f" }) .single) 20).2.running = none :=
    Option.isNone_iff_eq_none.mp (by decide +kernel)
  exact ⟨hx.calling hidle (c := .setUp 0 (some { filename := "f" }) .single) trivial 20, rfl, by decide +kernel,
    by decide +kernel, by decide +kernel⟩

end SqliteAccess.Loop
