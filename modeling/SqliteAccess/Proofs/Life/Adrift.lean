import SqliteAccess.Proofs.Life.Accounts

/-!
Handles that stay open with nobody to close them. Only two things lead to that: a connect that fails after
the engine has opened the handle, and a manager that loses its single connection to another one, or to a shutdown
that has closed another one.
-/

namespace SqliteAccess.Loop

open SqliteAccess.Pool (Handle Lease)

namespace State

/-- Nothing has been called or opened yet. -/
structure Blank (l : State) : Prop where
  tasks : l.tasks = []
  running : l.running = none
  pools : l.pools = []
  standalone : l.standalone = []
  single : ∀ M, l.singleOf M = none
  opened : l.engine.opened = 0
  requests : l.engine.requests = []

/-- A connect is at work on the handle, or has come back with it. -/
def InHand (l : State) (h : Handle) : Prop := ∃ i p, l.point? i = some p ∧ p.holds h ≠ 0

/-- The handle is that of a connection which belongs to a pool. -/
def Pooled (l : State) (h : Handle) : Prop := ∃ s ∈ l.pools, ∃ c ∈ s.live, c.handle = h

/-- The handle is that of the single connection of a manager. -/
def Single (l : State) (h : Handle) : Prop := ∃ M c, l.shared? M = some c ∧ c.handle = h

end State

variable {l l' m : State} {h g : Handle} {u : Shape} {t n : Nat} {past : List State}

def State.Pauses (l : State) : Prop :=
  l.running = none ∨ ∃ (t : Nat) (v : Shape) (o : Outcome v), l.running = some ⟨t, v, .give o, .done v⟩

theorem State.Pauses.none (hq : l.Pauses) :
    l.loses? = none ∧ l.spills? = none ∧
      ∀ h t k, l.running ≠ some ⟨t, .unit, .call (.hangUp h), k⟩ := by
  rcases hq with hr | ⟨t, v, o, hr⟩
  · simp [State.loses?, State.spills?, hr]
  · rw [State.loses?, State.spills?, hr]
    cases o <;> exact ⟨rfl, rfl, fun _ _ _ h => by cases h⟩

namespace Accounts

variable (ha : Accounts past l)

include ha in
theorem apt_pausing (hq : l.Pauses) {i : Nat} {p : Point} (hp : l.point? i = some p) : p.Apt l := by
  refine (ha.apt i p hp).resolve_right fun ⟨M, hs⟩ => ?_
  have hworks : ∃ r, l.running = some r ∧ r.task = i := by
    cases hs
    exact State.point?_works hp
  obtain ⟨r, hr, rfl⟩ := hworks
  rcases hq with hr' | ⟨t, v, o, hr'⟩
  · cases hr.symm.trans hr'
  · cases hr.symm.trans hr'
    cases hp.symm.trans (State.point?_at hr (ha.atWork _ hr))
    cases hs

include ha in
theorem passes (hq : l.Pauses) (hs : Unmoved l l') (hw : l'.AtWork) (hspare : Spared (· = t) l l')
    (hover : ∀ (v : Shape) (o : Outcome v), l.point? t ≠ some (.ended o))
    (hpt : ∀ p, l'.point? t = some p → p.Apt l) (hh : ∀ g, l'.handOf g t = l.handOf g t)
    (hmade : ∀ i p, l.tasks.length ≤ i → i ≠ t → l'.point? i = some p → ∀ x : State, p.Apt x) :
    Accounts (past ++ [l]) l' := by
  obtain ⟨hloses, hspill, hclose⟩ := hq.none
  have hwid : Widens l l' :=
    ⟨hs.pools.length_eq.le, hs.managers.ge, fun h hm => hm.imp (fun hd => hs.departed ▸ hd) fun hr =>
      hspare.returned ha.atWork hover hr⟩
  refine ⟨hw, fun i p hp => .inl ?_, hs.sourced ha.sourced, fun h hd => .inl ?_, fun h hc => ?_, ?_, fun h => ?_⟩
  · by_cases hi : i = t
    · subst hi
      exact hwid.point (hpt p hp)
    · rcases hspare i hi with he | ⟨hle, _⟩
      · exact hwid.point (ha.apt_pausing hq (he.symm.trans hp))
      · exact hmade i p hle hi hp l'
  · rw [hs.departed] at hd
    rw [hs.closes]
    exact (ha.departed h hd).resolve_right fun ⟨t', k, hr⟩ => hclose h t' k hr
  · rw [hs.closes] at hc
    rw [hs.faithful.alone]
    exact (ha.closes h hc).imp_left (hwid.closes h)
  · rw [lost_snoc, hloses, Option.toList_none, List.append_nil]
    exact ha.singled.keep hs.faithful fun c _ _ => by rw [hs.closes]
  · have hsum := hspare.hands ha.atWork hw h
    have hspilt : spilt (past ++ [l]) = spilt past := by
      rw [spilt_snoc, hspill]
      exact List.append_nil _
    rw [hspilt, hs.registered, hs.given]
    have := ha.counts h
    have := hh h
    omega

include ha in
theorem rests (hr : l.running = none) (ht : Tame l l') : Accounts (past ++ [l]) l' := by
  have hr' : l'.running = none := ht.undisturbed.running.trans hr
  have hlen := ht.undisturbed.length
  have hw : l'.AtWork := .of_none hr'
  have hnone : l.point? l'.tasks.length = none :=
    State.point?_of_le (fun r h => nomatch hr.symm.trans h) hlen
  have hnone' : l'.point? l'.tasks.length = none :=
    State.point?_of_le (fun r h => nomatch hr'.symm.trans h) (Nat.le_refl _)
  refine ha.passes (.inl hr) ht.toUnmoved hw (t := l'.tasks.length) (fun i _ => ht.undisturbed.spared i id)
    (fun v o h => nomatch hnone.symm.trans h) (fun p h => nomatch hnone'.symm.trans h)
    (fun g => ?_) fun i p hi _ hp x => ?_
  · rw [State.handOf, State.handOf, hnone, hnone']
  · rw [State.point?_idle hr'] at hp
    exact ht.toPlacid.apt_made hi hp

include ha in
theorem ends {o : Outcome u} (hr : l.running = some ⟨t, u, .give o, .done u⟩) (ht : Tame (l.lay t o) l') :
    Accounts (past ++ [l]) l' := by
  have hx := ha.atWork _ hr
  have hat := State.point?_at hr hx
  obtain ⟨hp, hspare⟩ := State.lay_point hr hx
  have hr' : l'.running = none := ht.undisturbed.running
  have hlen : (l.lay t o).tasks.length = l.tasks.length := by simp [State.lay, State.modifyTask]
  have hp' : l'.point? t = some (.ended o) := by
    rcases ht.undisturbed.spared t id with he | ⟨hle, _⟩
    · exact he.trans hp
    · have := ha.atWork.lt hr
      dsimp only at this
      omega
  have hs : Unmoved l l' := Unmoved.trans (m := l.lay t o) (.of rfl rfl rfl rfl rfl) ht.toUnmoved
  refine ha.passes (.inr ⟨t, u, o, hr⟩) hs (.of_none hr')
    (hspare.then ht.undisturbed.spared hlen.ge) (fun v o' h => by cases hat.symm.trans h)
    (fun p h => ?_) (fun g => ?_) fun i p hi _ hp x => ?_
  · cases hp'.symm.trans h
    trivial
  · rw [State.handOf, State.handOf, hp', hat]
    simp [Running.point, Point.holds, Control.holds, Stack.holds]
  · rw [State.point?_idle hr'] at hp
    exact ht.toPlacid.apt_made (hlen.le.trans hi) hp

include ha in
theorem goesOn {signal : Option Failure} {st : Stack .unit} {x : Task} (hr : l.running = none)
    (hres : Resumed l l' t signal st x) : Accounts (past ++ [l]) l' := by
  have hat : l.point? t = some (.waits st) := by
    rw [State.point?_idle hr, hres.task, Option.bind_some, hres.ready]
    rfl
  have hat' : l'.point? t = some (.works (.give (x.answer signal)) st) := by
    simp [State.point?, hres.running, hres.tasks, hres.task, Status.point?, Running.point]
  have hw : l'.AtWork := fun r hr' => by
    cases hres.running.symm.trans hr'
    exact ⟨_, by rw [hres.tasks, List.getElem?_modify_eq, hres.task]; rfl, rfl⟩
  have hothers : ∀ i, i ≠ t → l'.point? i = l.point? i := by
    intro i hi
    rw [State.point?_of_ne hres.running (Ne.symm hi), State.point?_idle hr, hres.tasks,
      List.getElem?_modify_ne _ _ (Ne.symm hi)]
  have hs : Unmoved l l' := .of (by rw [State.outer, hres.managers, hres.engine]; rfl) (by rw [hres.engine])
    hres.standalone hres.next hres.pools
  refine ha.passes (.inl hr) hs hw (t := t) (fun i hi => .inl (hothers i hi))
    (fun v o h => by cases hat.symm.trans h) (fun p h => ?_) (fun g => ?_) fun i p hi hne hp x => ?_
  · cases hat'.symm.trans h
    exact ⟨trivial, ha.apt_pausing (.inl hr) hat⟩
  · rw [State.handOf, State.handOf, hat, hat']
    simp [Point.holds, Control.holds, arrived]
  · rw [hothers i hne, State.point?_of_le (fun r h => by cases hr.symm.trans h) hi] at hp
    cases hp

include ha in
theorem calls {s : Shape} {c : Call s} (hr : l.running = none) (hc : l.Offers c)
    (hl' : l' = l.enter c ∨ l' = (l.spawn c []).1) : Accounts (past ++ [l]) l' := by
  have hcapt : c.Apt l := by
    cases c with
    | askOpen => exact hc
    | hangUp h => exact .inr hc
    | _ => trivial
  have hnone : l.point? l.tasks.length = none :=
    State.point?_of_le (fun r h => by cases hr.symm.trans h) (Nat.le_refl _)
  have hw : l'.AtWork := by
    rcases hl' with rfl | rfl
    · intro r hr'
      cases hr'
      exact ⟨{ status := .running, context := l.context }, by simp [State.enter], rfl⟩
    · exact .of_none hr
  have hs : Unmoved l l' := by
    rcases hl' with rfl | rfl <;> exact .of rfl rfl rfl rfl rfl
  have hlen : l'.tasks.length = l.tasks.length + 1 := by
    rcases hl' with rfl | rfl <;> simp [State.enter, State.spawn, State.enqueue]
  have hat : ∃ p : Point, l'.point? l.tasks.length = some p ∧ p.Apt l ∧ ∀ g, p.holds g = 0 := by
    rcases hl' with rfl | rfl
    · refine ⟨.works (.call c) (.done s), ?_, ⟨hcapt, trivial⟩, fun _ => rfl⟩
      simp [State.enter, State.point?, Status.point?, Running.point]
    · refine ⟨.waits (.push (.start c) (.done s)), ?_, ⟨hcapt, trivial⟩, fun _ => rfl⟩
      have hr' : (l.spawn c []).1.running = none := hr
      rw [State.point?_idle hr']
      simp [State.spawn, State.enqueue, Status.point?]
  have hspare : Spared (· = l.tasks.length) l l' := by
    have harr : Arrival l l' := by
      rcases hl' with rfl | rfl
      · exact State.enter_arrival hr c
      · exact State.spawn_arrival hr c
    cases harr with
    | enters _ _ _ hs | spawns _ _ _ hs => exact hs
    | rests _ hs => exact fun i _ => hs i id
  obtain ⟨p, hp, hpapt, hholds⟩ := hat
  refine ha.passes (.inl hr) hs hw (t := l.tasks.length) hspare
    (fun v o h => by cases hnone.symm.trans h) (fun q h => ?_) (fun g => ?_) fun i q hi hne hq x => ?_
  · cases hp.symm.trans h
    exact hpapt
  · rw [State.handOf, State.handOf, hnone, hp, Option.map_some, Option.getD_some, hholds]
    rfl
  · have hle : l'.tasks.length ≤ i := by omega
    rw [State.point?_of_le (fun r h => hw.lt h) hle] at hq
    cases hq

include ha in
theorem step (hl : l.step? = some l') : Accounts (past ++ [l]) l' := by
  cases State.step_turn hl with
  | @works t u w k hr =>
    have hat := State.point?_at hr (ha.atWork _ hr)
    rcases ha.apt _ _ hat with hapt | ⟨M, hsev⟩
    · obtain ⟨hw, hk⟩ := (Work.apt_point t k).mp hapt
      exact ha.works hr hw hk
    · exact ha.severs hr hsev
  | ends hr ht => exact ha.ends hr ht
  | goesOn hr hres => exact ha.goesOn hr hres
  | rests hr ht => exact ha.rests hr ht

include ha in
theorem happens (hs : l.Happens State.Offers l') : Accounts (past ++ [l]) l' := by
  rcases hs.cases with hl | ⟨hr, ⟨s, c, hc, hl'⟩ | ht⟩
  · exact ha.step hl
  · exact ha.calls hr hc hl'
  · exact ha.rests hr ht

end Accounts

theorem State.Blank.accounts (hl : l.Blank) : Accounts [] l := by
  have hpoint : ∀ i, l.point? i = none := fun i =>
    State.point?_of_le (fun r h => by cases hl.running.symm.trans h) (by simp [hl.tasks])
  have halone : l.alone = [] := by rw [State.alone, hl.standalone]; rfl
  have hpools : ∀ s, s ∉ l.pools := by simp [hl.pools]
  refine ⟨.of_none hl.running, fun i p hp => (by cases (hpoint i).symm.trans hp), fun s hs => absurd hs (hpools s),
    fun h hd => ?_, fun h hc => ?_, ?_, fun h => ?_⟩
  · simp [State.departed, hl.pools] at hd
  · simp [Engine.State.closes, hl.requests] at hc
  · refine ⟨by simp [halone], by simp [halone], fun M i hi => ?_, fun M _ i hi => ?_, by simp [lost],
      by simp [halone]⟩
    · cases (hl.single M).symm.trans hi
    · cases (hl.single M).symm.trans hi
  · have hgiven : l.given h = 0 := by
      cases h with
      | stray => rfl
      | numbered n =>
        rw [State.given, hl.opened]
        exact if_neg (by omega)
    simp [State.hands, hl.tasks, State.registered, hl.pools, hl.standalone, spilt, hgiven]

theorem Course.accounts (hc : Course State.Offers l past m) (hl : l.Blank) : Accounts past m :=
  hc.induct (P := Accounts) hl.accounts fun _ _ _ _ ih hs => ih.happens hs

namespace Accounts

variable (ha : Accounts past l)

include ha in
theorem inHand_iff : l.InHand h ↔ l.hands h ≠ 0 := by
  constructor
  · rintro ⟨i, p, hp, hh⟩ hz
    have hle := State.handOf_le ha.atWork h i
    rw [State.handOf, hp] at hle
    exact hh (Nat.eq_zero_of_le_zero (hle.trans hz.le))
  · intro hh
    obtain ⟨i, _, hi⟩ := Finset.exists_ne_zero_of_sum_ne_zero hh
    cases hp : l.point? i with
    | none =>
      rw [State.handOf, hp] at hi
      exact absurd rfl hi
    | some p =>
      rw [State.handOf, hp] at hi
      exact ⟨i, p, hp, hi⟩

include ha in
theorem closing (hc : l.Closing h) : l.MayClose h ∨ ∃ c ∈ l.alone, c.handle = h ∧
    (h ∈ l.engine.closes ∨ ∃ M, l.singleOf M = some c.id) := by
  rcases hc with hc | ⟨t, k, hr⟩
  · refine (ha.closes h hc).imp_right fun hin => ?_
    obtain ⟨c, hc', rfl⟩ := List.mem_map.mp hin
    exact ⟨c, hc', rfl, .inl hc⟩
  · have hat := State.point?_at hr (ha.atWork _ hr)
    rcases ha.apt _ _ hat with hapt | ⟨M, hsev⟩
    · exact .inl hapt.1
    · cases hsev with
      | asks _ hc hM _ => exact .inr ⟨_, hc, rfl, .inr ⟨_, hM⟩⟩

include ha in
theorem belongs (hg : l.given h = 1) (hh : l.hands h = 0) (hs : h ∉ spilt past) (hd : h ∉ lost past) :
    l.Pooled h ∨ l.Single h ∨ l.Closing h := by
  have hcount := ha.counts h
  have hreg := l.registered_count h
  rw [List.count_eq_zero_of_not_mem hs] at hcount
  by_cases hin : h ∈ l.pools.flatMap fun s => s.leases.map (·.handle)
  · obtain ⟨s, hp, hin⟩ := List.mem_flatMap.mp hin
    obtain ⟨c, hc, rfl⟩ := List.mem_map.mp hin
    rcases List.mem_append.mp (s.leases_perm.mem_iff.mp hc) with hc | hc
    · obtain ⟨z, hz, rfl⟩ := List.mem_map.mp hc
      exact .inl ⟨s, hp, z, hz, rfl⟩
    · exact .inr (.inr (ha.departed _ (List.mem_flatMap.mpr ⟨s, hp, List.mem_map_of_mem hc⟩)))
  · rw [List.count_eq_zero_of_not_mem hin] at hreg
    have halone : h ∈ l.alone.map (·.handle) := List.count_pos_iff.mp (by omega)
    obtain ⟨c, hc, rfl⟩ := List.mem_map.mp halone
    by_cases hcl : c.handle ∈ l.engine.closes
    · exact .inr (.inr (.inl hcl))
    · have hM : ∃ M, l.singleOf M = some c.id := by
        by_contra hno
        exact hd ((ha.singled.fate c hc).mpr ⟨hcl, fun M hM => hno ⟨M, hM⟩⟩)
      obtain ⟨M, hM⟩ := hM
      exact .inr (.inl ⟨M, c, (State.shared?_iff ha.singled).mpr ⟨hc, hM⟩, rfl⟩)

include ha in
theorem not_of_spilt (hs : h ∈ spilt past) :
    ¬ l.InHand h ∧ ¬ l.Pooled h ∧ ¬ l.Single h ∧ ¬ l.Closing h := by
  have hone := ha.once h
  have hpos := List.count_pos_iff.mpr hs
  have hreg := l.registered_count h
  have hhand : ¬ l.InHand h := fun hh => ha.inHand_iff.mp hh (by omega)
  have halone : h ∉ l.alone.map (·.handle) := fun hin => by
    have := List.count_pos_iff.mpr hin
    omega
  refine ⟨hhand, fun ⟨s, hs, c, hc, he⟩ => ?_, fun ⟨M, c, hc, he⟩ => ?_, fun hc => ?_⟩
  · have hin : h ∈ l.pools.flatMap fun s => s.leases.map (·.handle) :=
      List.mem_flatMap.mpr ⟨s, hs, he ▸ List.mem_map_of_mem (f := (·.handle))
        (s.leases_perm.mem_iff.mpr (List.mem_append_left _ (List.mem_map_of_mem hc)))⟩
    have := List.count_pos_iff.mpr hin
    omega
  · exact halone (he ▸ List.mem_map_of_mem ((State.shared?_iff ha.singled).mp hc).1)
  · rcases ha.closing hc with (hd | hr) | ⟨c, hin, rfl, _⟩
    · have := List.count_pos_iff.mpr (State.departed_mem hd)
      omega
    · obtain ⟨i, hi, hpos⟩ := hr.handOf
      have := State.handOf_le ha.atWork h i
      omega
    · exact halone (List.mem_map_of_mem hin)

include ha in
theorem not_of_lost (hd : h ∈ lost past) :
    ¬ l.InHand h ∧ ¬ l.Pooled h ∧ ¬ l.Single h ∧ ¬ l.Closing h := by
  have hone := ha.once h
  have hreg := l.registered_count h
  have hin := ha.singled.among h hd
  have hpos := List.count_pos_iff.mpr hin
  obtain ⟨c, hc, rfl⟩ := List.mem_map.mp hin
  obtain ⟨hopen, hno⟩ := (ha.singled.fate c hc).mp hd
  refine ⟨fun hh => ha.inHand_iff.mp hh (by omega), fun ⟨s, hs, z, hz, he⟩ => ?_, fun ⟨M, z, hz, he⟩ => ?_,
    fun hcl => ?_⟩
  · have hin : c.handle ∈ l.pools.flatMap fun s => s.leases.map (·.handle) :=
      List.mem_flatMap.mpr ⟨s, hs, he ▸ List.mem_map_of_mem (f := (·.handle))
        (s.leases_perm.mem_iff.mpr (List.mem_append_left _ (List.mem_map_of_mem hz)))⟩
    have := List.count_pos_iff.mpr hin
    omega
  · obtain ⟨hz, hM⟩ := (State.shared?_iff ha.singled).mp hz
    cases Singled.handle_unique ha.handles_nodup hz hc he
    exact hno M hM
  · rcases ha.closing hcl with hm | ⟨z, hz, he, hM⟩
    · exact ha.apart hm hin
    · cases Singled.handle_unique ha.handles_nodup hz hc he
      rcases hM with hcl | ⟨M, hM⟩
      · exact hopen hcl
      · exact hno M hM

end Accounts

/-- Whatever happens, a handle that the engine has opened is in the hands of a connect or of the client whose
connect has come back with it, or belongs to a pool, or is the single connection of a manager, or the engine has been
asked to close it, except for those that a connect has let go of by failing and those that managers have lost: with
these it never happens again. -/
theorem handle_adrift_iff (hl : l.Blank) (hc : Course State.Offers l past m) (hn : 1 ≤ n)
    (ho : n ≤ m.engine.opened) :
    .numbered n ∈ spilt past ∨ .numbered n ∈ lost past ↔
      ¬ (m.InHand (.numbered n) ∨ m.Pooled (.numbered n) ∨ m.Single (.numbered n) ∨ m.Closing (.numbered n)) := by
  have ha := hc.accounts hl
  constructor
  · rintro (hs | hd)
    · obtain ⟨h₁, h₂, h₃, h₄⟩ := ha.not_of_spilt hs
      exact fun h => h.elim h₁ fun h => h.elim h₂ fun h => h.elim h₃ h₄
    · obtain ⟨h₁, h₂, h₃, h₄⟩ := ha.not_of_lost hd
      exact fun h => h.elim h₁ fun h => h.elim h₂ fun h => h.elim h₃ h₄
  · intro hno
    by_contra hneither
    obtain ⟨hs, hd⟩ := not_or.mp hneither
    have hgiven : m.given (.numbered n) = 1 := if_pos ⟨hn, ho⟩
    by_cases hh : m.hands (.numbered n) = 0
    · exact hno (.inr (ha.belongs hgiven hh hs hd))
    · exact hno (.inl (ha.inHand_iff.mpr hh))

theorem State.Blank.of_new {e : Engine.State} (ho : e.opened = 0) (hr : e.requests = []) :
    ({ managers := [{}], engine := e } : State).Blank := by
  refine ⟨rfl, rfl, rfl, rfl, fun M => ?_, ho, hr⟩
  match M with
  | 0 => rfl
  | n + 1 => rfl

def slowEngine : State :=
  { managers := [{}], engine := { openings := [{ hold := true }], closings := [{ hold := true }] } }

def takenAway : List State × State :=
  let x := State.calling ([], slowEngine) (.setUp 0 (some { filename := "f" }) .single) 10
  let x := State.calling x (.shutDown 0) 10
  let x := State.calling x (.setUp 0 (some { filename := "f" }) .single) 20
  let x := State.calling x (.shutDown 0) 10
  let x := State.track (x.1 ++ [x.2]) (x.2.answerHeld 0) 20
  State.track (x.1 ++ [x.2]) (x.2.answerHeld 3) 10

theorem slowEngine_blank : slowEngine.Blank := .of_new rfl rfl

theorem takenAway_course : Course State.Offers slowEngine takenAway.1 takenAway.2 := by
  have hstart : Course State.Offers slowEngine [] slowEngine := .start
  have hfirst := hstart.calling rfl (c := .setUp 0 (some { filename := "f" }) .single) trivial 10
  have hshut := hfirst.calling rfl (c := .shutDown 0) trivial 10
  have hsecond := hshut.calling rfl (c := .setUp 0 (some { filename := "f" }) .single) trivial 20
  have hcloses := hsecond.calling rfl (c := .shutDown 0) trivial 10
  exact ((hcloses.step (.answer (t := 0) rfl rfl rfl)).track 20 |>.step (.answer (t := 3) rfl rfl rfl)).track 10

/-- The connection of the second set-up has been closed, and the shutdown has taken away that of the first. -/
theorem handle_adrift_iff_takenAway :
    (slowEngine.Blank ∧ Course State.Offers slowEngine takenAway.1 takenAway.2 ∧ 2 ≤ takenAway.2.engine.opened) ∧
      (.numbered 2 ∈ lost takenAway.1 ∧ takenAway.2.engine.closes = [.numbered 1]) ∧
      ¬ (takenAway.2.InHand (.numbered 2) ∨ takenAway.2.Pooled (.numbered 2) ∨
        takenAway.2.Single (.numbered 2) ∨ takenAway.2.Closing (.numbered 2)) := by
  have ho : 2 ≤ takenAway.2.engine.opened := by decide +kernel
  have hd : .numbered 2 ∈ lost takenAway.1 := by decide +kernel
  exact ⟨⟨slowEngine_blank, takenAway_course, ho⟩, ⟨hd, by decide +kernel⟩,
    (handle_adrift_iff slowEngine_blank takenAway_course (by decide) ho).mp (.inr hd)⟩

def failsPragma : State :=
  { engine := { rules := [{ start := "PRAGMA foreign_keys", fault := some ⟨"OperationalError", "disk I/O error"⟩ }] } }

def refused : List State × State :=
  State.calling ([], failsPragma) (.connect { location := { filename := "f" } } false) 20

/-- The connect has failed. Nobody has the handle that the engine has opened, and it is not closed. -/
theorem failed_connect_leaves_handle_open :
    failsPragma.Blank ∧ Course State.Offers failsPragma refused.1 refused.2 ∧
      (refused.2.isFinished 0 = true ∧ refused.2.engine.opened = 1) ∧
      ¬ refused.2.InHand (.numbered 1) ∧ ¬ refused.2.Pooled (.numbered 1) ∧ ¬ refused.2.Single (.numbered 1) ∧
      ¬ refused.2.Closing (.numbered 1) := by
  have hb : failsPragma.Blank := ⟨rfl, rfl, rfl, rfl, fun _ => rfl, rfl, rfl⟩
  have hc : Course State.Offers failsPragma refused.1 refused.2 :=
    Course.start.calling rfl (c := .connect { location := { filename := "f" } } false) trivial 20
  have hs : .numbered 1 ∈ spilt refused.1 := by decide +kernel
  exact ⟨hb, hc, ⟨by decide +kernel, by decide +kernel⟩, (hc.accounts hb).not_of_spilt hs⟩

end SqliteAccess.Loop
