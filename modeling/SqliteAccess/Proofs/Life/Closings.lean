import SqliteAccess.Proofs.Life.Openings

/-!
Which handles the engine is asked to close: those of connections that have left their pools, those of
single connections, and those that clients have opened by themselves.
-/

namespace SqliteAccess.Loop

open SqliteAccess.Pool (Handle)

def Work.Closes (h : Handle) : {u : Shape} → Work u → Prop
  | _, .call (.hangUp h') => h' = h
  | _, _ => False

def Next.Closes (h : Handle) {u : Shape} : Next u → Prop
  | .call (.hangUp h') _ => h' = h
  | _ => False

def Next.Severs (l : State) : {u : Shape} → Next u → Prop
  | _, .call (.hangUp h) (.singleClosed M) => ∃ k id, l.manager? M = some k ∧ k.single = some id ∧
      k.database ≠ none ∧ h = ((l.standalone? id).map (·.handle)).getD .stray
  | _, _ => False

def State.Sourced (l : State) : Prop := ∀ s ∈ l.pools, (∃ d, s.source = .database d) ∧
  (s.connections.map (·.id)).Nodup ∧ ∀ i ∈ s.connections.map (·.id), i < l.nextConnection

structure Parts (l : State) {u : Shape} (w : Work u) (x : State × Next u) : Prop where
  pools : l.pools.length ≤ x.1.pools.length
  managers : l.managers.length ≤ x.1.managers.length
  departed : ∀ h, (h ∈ l.departed → h ∈ x.1.departed) ∧
    (h ∈ x.1.departed → h ∈ l.departed ∨ x.2.Closes h)
  sources : x.1.Sourced
  closes : ∀ h, h ∈ x.1.engine.closes ↔ h ∈ l.engine.closes ∨ w.Closes h
  next : x.2.Apt x.1 ∨ x.2.Severs x.1

variable {l m : State} {h : Handle} {u : Shape} {w : Work u} {n : Next u} {k : Stack u}

theorem Unmoved.departed (hs : Unmoved l m) : m.departed = l.departed := by
  have hp : m.pools.map Pool.State.departed = l.pools.map Pool.State.departed := by
    refine List.ext_getElem (by simp [hs.pools.length_eq]) fun i hi hi' => ?_
    have hr := (hs.pools.get (by simpa using hi') (by simpa using hi)).roll
    simp only [List.get_eq_getElem] at hr
    rw [List.getElem_map, List.getElem_map, Pool.State.departed_eq, Pool.State.departed_eq, hr]
  have hf : ∀ l : State, l.departed = (l.pools.map Pool.State.departed).flatMap (·.map (·.handle)) := by
    intro l
    simp [State.departed, List.flatMap_map]
  rw [hf, hf, hp]

theorem Unmoved.managers (hs : Unmoved l m) : m.managers.length = l.managers.length := by
  have ho := congrArg (fun o => o.1.length) hs.outer
  simpa [State.outer] using ho

theorem Pool.State.ids_eq (s : Pool.State) : s.connections.map (·.id) = s.roll.map (·.1.id) := by
  simp [Pool.State.roll, Function.comp_def, Pool.Connection.lease]

theorem Unmoved.sourced (hs : Unmoved l m) (h : l.Sourced) : m.Sourced := by
  intro s hs'
  obtain ⟨i, hi, rfl⟩ := List.getElem_of_mem hs'
  have hi' : i < l.pools.length := hs.pools.length_eq ▸ hi
  have ha := hs.pools.get hi' hi
  simp only [List.get_eq_getElem] at ha
  obtain ⟨hd, ho, hk⟩ := h _ (List.getElem_mem hi')
  rw [Pool.State.ids_eq] at ho hk ⊢
  rw [ha.source, ha.roll, hs.next]
  exact ⟨hd, ho, hk⟩

theorem Parts.unmoved (hl : l.Sourced) (hs : Unmoved l m) (hc : ∀ h, ¬ w.Closes h) (ha : n.Apt m) :
    Parts l w (m, n) :=
  ⟨hs.pools.length_eq.le, hs.managers.ge, fun h => hs.departed ▸ ⟨id, .inl⟩, hs.sourced hl,
    fun h => by simp [hs.closes, hc h], .inl ha⟩

theorem Parts.aside (hl : l.Sourced) (hp : m.pools = l.pools) (hk : l.managers.length ≤ m.managers.length)
    (hn : l.nextConnection ≤ m.nextConnection) (he : m.engine.closes = l.engine.closes)
    (hc : ∀ h, ¬ w.Closes h) (ha : n.Apt m ∨ n.Severs m) : Parts l w (m, n) := by
  have hd : m.departed = l.departed := by rw [State.departed, hp]; rfl
  refine ⟨by rw [hp], hk, fun h => hd ▸ ⟨id, .inl⟩, fun s hs => ?_, fun h => by simp [he, hc h], ha⟩
  rw [hp] at hs
  obtain ⟨hd, ho, hk⟩ := hl s hs
  exact ⟨hd, ho, fun i hi => Nat.lt_of_lt_of_le (hk i hi) hn⟩

theorem Parts.quiet (hl : l.Sourced) (hp : m.pools = l.pools) (hk : m.managers.length = l.managers.length)
    (hn : m.nextConnection = l.nextConnection) (he : m.engine.closes = l.engine.closes)
    (hc : ∀ h, ¬ w.Closes h) (ha : n.Apt m) : Parts l w (m, n) := .aside hl hp hk.ge hn.ge he hc (.inl ha)

theorem Parts.report (hp : Parts l w (m, n)) (r : Log.Record) (ha : n.Apt (m.report r)) :
    Parts l w (m.report r, n) := by
  have hs := ((Tame.refl m).report r).toUnmoved
  exact ⟨hp.pools.trans hs.pools.length_eq.le, hp.managers.trans hs.managers.ge, fun h => hs.departed ▸ hp.departed h,
    hs.sourced hp.sources, fun h => hs.closes ▸ hp.closes h, .inl ha⟩

theorem State.departed_modifyPool {p : Nat} {s : Pool.State} {f : Pool.State → Pool.State} {X : Handle → Prop}
    (hs : l.pool? p = some s) (hin : ∀ h ∈ s.departed.map (·.handle), h ∈ (f s).departed.map (·.handle))
    (hout : ∀ h ∈ (f s).departed.map (·.handle), h ∈ s.departed.map (·.handle) ∨ X h) (h : Handle) :
    (h ∈ l.departed → h ∈ (l.modifyPool p f).departed) ∧
      (h ∈ (l.modifyPool p f).departed → h ∈ l.departed ∨ X h) := by
  obtain ⟨before, after, hl, hm⟩ := l.modifyPool_split hs f
  have hd : l.departed = before.flatMap (fun s => s.departed.map (·.handle)) ++
      (s.departed.map (·.handle) ++ after.flatMap fun s => s.departed.map (·.handle)) := by
    rw [State.departed, hl, List.flatMap_append, List.flatMap_cons]
  have hd' : (l.modifyPool p f).departed = before.flatMap (fun s => s.departed.map (·.handle)) ++
      ((f s).departed.map (·.handle) ++ after.flatMap fun s => s.departed.map (·.handle)) := by
    rw [State.departed, hm, List.flatMap_append, List.flatMap_cons]
  rw [hd, hd']
  simp only [List.mem_append]
  refine ⟨fun hh => ?_, fun hh => ?_⟩
  · rcases hh with hh | hh | hh
    · exact .inl hh
    · exact .inr (.inl (hin h hh))
    · exact .inr (.inr hh)
  · rcases hh with hh | hh | hh
    · exact .inl (.inl hh)
    · exact (hout h hh).imp_left fun hh => .inr (.inl hh)
    · exact .inl (.inr (.inr hh))

theorem State.sourced_modifyPool {p : Nat} {s : Pool.State} {f : Pool.State → Pool.State} (hl : l.Sourced)
    (hs : l.pool? p = some s) (hf : (∃ d, (f s).source = .database d) ∧ ((f s).connections.map (·.id)).Nodup ∧
      ∀ i ∈ (f s).connections.map (·.id), i < m.nextConnection)
    (hp : m.pools = l.pools.modify p f) (hn : l.nextConnection ≤ m.nextConnection) : m.Sourced := by
  intro x hx
  rw [hp] at hx
  obtain ⟨i, hi⟩ := List.getElem?_of_mem hx
  by_cases hip : p = i
  · subst hip
    rw [List.getElem?_modify_eq, show l.pools[p]? = some s from hs] at hi
    cases hi
    exact hf
  · rw [List.getElem?_modify_ne _ _ hip] at hi
    obtain ⟨hd, ho, hk⟩ := hl x (List.mem_of_getElem? hi)
    exact ⟨hd, ho, fun j hj => Nat.lt_of_lt_of_le (hk j hj) hn⟩

theorem State.destroy_parts (hl : l.Sourced) (p i : Nat) :
    Parts l (.call (.destroy p i)) (l.destroy p i) := by
  have same : Parts l (.call (.destroy p i)) (l, .give (.ok ())) :=
    .quiet hl rfl rfl rfl rfl (fun _ => id) trivial
  unfold State.destroy
  split
  · exact same
  next s hs =>
    obtain ⟨⟨d, hd⟩, ho, hk⟩ := hl s (List.mem_of_getElem? hs)
    split
    · exact same
    next s' h' hr =>
      obtain ⟨c, hc, rfl, rfl⟩ := Pool.State.remove?_find hr
      have hdep := (Pool.State.departed_without ho hc).map (·.handle)
      have hclose : State.closeHandle (s.without i) c.handle = .hangUp c.handle := by
        rw [State.closeHandle, show (s.without i).source = s.source from rfl, hd]
      have hids : (s.without i).connections.map (·.id) = s.connections.map (·.id) :=
        Pool.State.update_ids s i fun _ => rfl
      rw [hclose]
      have hall := State.departed_modifyPool (f := fun _ => s.without i) (X := fun h => c.handle = h) hs
        (fun h hh => hdep.mem_iff.mpr (List.mem_cons_of_mem _ hh)) fun h hh => by
          rcases List.mem_cons.mp (hdep.mem_iff.mp hh) with rfl | hh
          · exact .inr rfl
          · exact .inl hh
      refine ⟨by simp [State.modifyPool], Nat.le_refl _, hall,
        State.sourced_modifyPool hl hs ⟨⟨d, hd⟩, hids ▸ ho, hids ▸ hk⟩ rfl (Nat.le_refl _),
        fun h => ⟨.inl, fun hh => hh.resolve_right id⟩, .inl ⟨.inl ?_, trivial⟩⟩
      refine List.mem_flatMap.mpr ⟨s.without i, ?_, hdep.mem_iff.mpr List.mem_cons_self⟩
      refine List.mem_of_getElem? (i := p) ?_
      simp [State.modifyPool, show l.pools[p]? = some s from hs]

theorem State.registering_parts (hl : l.Sourced) {p : Nat} (hp : p < l.pools.length) (o : Outcome .handle) :
    Parts l (.back (.registering p) o) (l.registering p o) := by
  have hs : l.pool? p = some l.pools[p] := List.getElem?_eq_getElem hp
  obtain ⟨hd, ho, hk⟩ := hl _ (List.getElem_mem hp)
  cases o with
  | error e =>
    exact ⟨by simp [State.registering, State.modifyPool], Nat.le_refl _,
      State.departed_modifyPool hs (fun _ => id) fun _ => .inl,
      State.sourced_modifyPool hl hs ⟨hd, ho, hk⟩ rfl (Nat.le_refl _),
      fun h => ⟨.inl, fun hh => hh.resolve_right id⟩, .inl trivial⟩
  | ok h' =>
    let joined : Pool.State → Pool.State := fun s => s.freeSlot.register l.nextConnection h' l.clock
    have hids : (joined l.pools[p]).connections.map (·.id) =
        l.pools[p].connections.map (·.id) ++ [l.nextConnection] := by
      simp [joined, Pool.State.register, Pool.State.freeSlot]
    have hdep : (joined l.pools[p]).departed = l.pools[p].departed := by
      simp [joined, Pool.State.departed, Pool.State.register, Pool.State.freeSlot]
    simp only [State.registering]
    split
    next hnone => simp [State.pool?, State.modifyPool, hp] at hnone
    next =>
      refine Parts.report ?_ _ trivial
      have hall := State.departed_modifyPool (X := fun _ => False) hs (f := joined)
        (fun h hh => by rwa [hdep]) fun h hh => .inl (by rwa [hdep] at hh)
      have hm : (l.pools.modify p Pool.State.freeSlot).modify p
          (fun s => s.register l.nextConnection h' l.clock) = l.pools.modify p joined :=
        List.modify_modify_eq ..
      refine ⟨by simp [State.modifyPool], Nat.le_refl _, fun h => ?_,
        State.sourced_modifyPool hl hs (f := joined) ⟨hd, ?_, ?_⟩ hm (Nat.le_succ _),
        fun h => ⟨.inl, fun hh => hh.resolve_right id⟩, .inl trivial⟩
      · have := hall h
        simp only [State.departed, State.modifyPool, hm] at this ⊢
        exact ⟨this.1, fun hh => .inl ((this.2 hh).resolve_right id)⟩
      · rw [hids]
        refine List.nodup_append.mpr ⟨ho, List.nodup_singleton _, fun a ha b hb => ?_⟩
        rw [List.mem_singleton.mp hb]
        exact Nat.ne_of_lt (hk a ha)
      · rw [hids]
        intro i hi
        rcases List.mem_append.mp hi with hi | hi
        · exact Nat.lt_succ_of_lt (hk i hi)
        · rw [List.mem_singleton.mp hi]
          exact Nat.lt_succ_self _

theorem State.setUp_parts (hl : l.Sourced) (M : Nat) (location : Option Config.Location)
    (reach : Access.Reach) : Parts l (.call (.setUp M location reach)) (l.setUp M location reach) := by
  unfold State.setUp
  split
  · exact .unmoved hl ((Tame.refl l).report _).toUnmoved (fun _ => id) trivial
  · exact .quiet hl rfl rfl rfl rfl (fun _ => id) trivial
  next k hk =>
    split
    · exact .quiet hl rfl rfl rfl rfl (fun _ => id) trivial
    · dsimp only
      split
      · refine .quiet hl rfl (by simp [State.modifyManager]) rfl rfl (fun _ => id) ⟨trivial, ?_⟩
        simpa [Frame.Apt, State.modifyManager] using (List.getElem?_eq_some_iff.mp hk).1
      · refine Parts.report ?_ _ trivial
        refine ⟨by simp [State.modifyManager], by simp [State.modifyManager], fun h => ?_, fun s hs => ?_,
          fun h => ⟨.inl, fun hh => hh.resolve_right id⟩, .inl trivial⟩
        · refine ⟨fun hh => ?_, fun hh => .inl ?_⟩ <;>
            simpa [State.departed, State.modifyManager, Pool.State.departed] using hh
        · rcases List.mem_append.mp hs with hs | hs
          · exact hl s hs
          · rw [List.mem_singleton.mp hs]
            exact ⟨⟨_, rfl⟩, List.nodup_nil, fun i hi => (List.not_mem_nil hi).elim⟩

theorem State.shutSingle_parts {w : Work .unit} (hl : l.Sourced) (M : Nat) (hc : ∀ h, ¬ w.Closes h) :
    Parts l w (l.shutSingle M) := by
  unfold State.shutSingle
  split
  · exact .quiet hl rfl rfl rfl rfl hc trivial
  · split
    · exact .quiet hl rfl rfl rfl rfl hc ⟨trivial, trivial⟩
    · exact .quiet hl rfl (by simp [State.modifyManager]) rfl rfl hc trivial

theorem State.endDial_parts {w : Work .handle} (hl : l.Sourced) (fault : Option Fault) {e : Engine.State}
    (he : e.closes = l.engine.closes) (hc : ∀ h, ¬ w.Closes h) :
    Parts l w (({ l with engine := e } : State).endDial fault) := by
  cases fault with
  | some f => exact .quiet hl rfl rfl rfl he hc trivial
  | none => exact .quiet hl rfl rfl rfl he hc trivial

theorem Work.parts (w : Work u) (ha : w.Apt l ∨ w.Hangs) (hl : l.Sourced) : Parts l w (w.perform l) := by
  by_cases hw : w.Singular
  · cases w with
    | call c =>
      cases c with
      | askOpen => exact (ha.resolve_right id).elim
      | dial d =>
        have he : (l.engine.record (.open d.location.filename d.timeout)).nextOpening.2.closes =
            l.engine.closes := by
          simp
        simp only [Work.perform, begin, State.dial]
        split
        · exact .quiet hl rfl rfl rfl he (fun _ => id) trivial
        · exact State.endDial_parts hl _ he (fun _ => id)
      | hangUp h =>
        have hsame : ∀ {e : Engine.State} {n : Next .unit}, e.requests = l.engine.requests ++ [.close h] →
            n.Apt { l with engine := e } → Parts l (.call (.hangUp h)) ({ l with engine := e }, n) := by
          refine fun he hn =>
            ⟨Nat.le_refl _, Nat.le_refl _, fun _ => ⟨id, .inl⟩, fun s hs => hl s hs, fun h' => ?_, .inl hn⟩
          have hc : Work.Closes h' (.call (.hangUp h)) ↔ h = h' := .rfl
          simp [Engine.State.closes, he, Engine.Request.closes?, hc, eq_comm]
        obtain ⟨e, ⟨hr, _⟩, ⟨_, he⟩ | ⟨_, he⟩⟩ := l.hangUp_cases h <;> simp only [Work.perform, begin, he]
        · exact hsame hr trivial
        · exact hsame hr trivial
      | openSlot p =>
        simp only [Work.perform, begin, State.openSlot]
        split
        · exact .quiet hl rfl rfl rfl rfl (fun _ => id) trivial
        next s hs =>
          obtain ⟨⟨d, hd⟩, _⟩ := hl s (List.mem_of_getElem? hs)
          rw [hd]
          exact .quiet hl rfl rfl rfl rfl (fun _ => id) ⟨trivial, (List.getElem?_eq_some_iff.mp hs).1⟩
      | destroy p id => exact State.destroy_parts hl p id
      | setUp M location reach => exact State.setUp_parts hl M location reach
      | shutDown M =>
        simp only [Work.perform, begin, State.shutDown]
        split
        · exact .quiet hl rfl rfl rfl rfl (fun _ => id) ⟨trivial, trivial⟩
        · exact State.shutSingle_parts hl M (fun _ => id)
      | bootstrap url =>
        simp only [Work.perform, begin, State.bootstrap]
        split
        · exact .quiet hl rfl rfl rfl rfl (fun _ => id) trivial
        · exact .aside hl rfl (by simp) (Nat.le_refl _) rfl (fun _ => id) (.inl ⟨trivial, trivial⟩)
      | _ => cases hw
    | back f o =>
      cases f with
      | start c =>
        cases o with
        | error e => exact .quiet hl rfl rfl rfl rfl (fun _ => id) trivial
        | ok => exact .quiet hl rfl rfl rfl rfl (fun _ => id) (ha.resolve_right id)
      | askedOpen => exact (ha.resolve_right id).elim
      | dialled fault =>
        cases o with
        | error => exact .quiet hl rfl rfl rfl rfl (fun _ => id) trivial
        | ok => exact State.endDial_parts (e := l.engine) hl fault rfl (fun _ => id)
      | connected d wal =>
        cases o with
        | error => exact .quiet hl rfl rfl rfl rfl (fun _ => id) trivial
        | ok => exact .quiet hl rfl rfl rfl rfl (fun _ => id) ⟨trivial, trivial⟩
      | foreignKeysSet d h wal =>
        cases o with
        | error => exact .quiet hl rfl rfl rfl rfl (fun _ => id) trivial
        | ok =>
          cases wal with
          | true => exact .quiet hl rfl rfl rfl rfl (fun _ => id) ⟨trivial, trivial⟩
          | false => exact .unmoved hl ((Tame.refl l).report _).toUnmoved (fun _ => id) trivial
      | journalSet d h =>
        cases o with
        | error => exact .quiet hl rfl rfl rfl rfl (fun _ => id) trivial
        | ok => exact .unmoved hl ((Tame.refl l).report _).toUnmoved (fun _ => id) trivial
      | registering p => exact State.registering_parts hl (ha.resolve_right id) o
      | singleOpened M d =>
        cases o with
        | error => exact .quiet hl rfl rfl rfl rfl (fun _ => id) trivial
        | ok h =>
          refine Parts.report ?_ _ trivial
          exact .aside hl rfl (by simp [State.modifyManager]) (Nat.le_succ _) rfl (fun _ => id) (.inl trivial)
      | poolShut M =>
        cases o with
        | error => exact .quiet hl rfl rfl rfl rfl (fun _ => id) trivial
        | ok => exact State.shutSingle_parts hl M (fun _ => id)
      | lockedToClose M =>
        cases o with
        | error => exact .quiet hl rfl rfl rfl rfl (fun _ => id) trivial
        | ok =>
          simp only [Work.perform, resume, State.lockedToClose]
          split
          next hk =>
            exact .aside hl rfl (Nat.le_refl _) (Nat.le_refl _) rfl (fun _ => id) (.inr ⟨_, _, hk, rfl, by simp, rfl⟩)
          next => exact .unmoved hl ((Tame.refl l).setLock M Access.Lock.release).toUnmoved (fun _ => id) trivial
      | singleClosed M =>
        have hu := ((Tame.refl l).setLock M Access.Lock.release).toUnmoved
        cases o with
        | error e => exact .unmoved hl hu (fun _ => id) trivial
        | ok =>
          have hx : Parts l (.back (.singleClosed M) (.ok ())) (l.unlock M, .give (.ok ())) :=
            .unmoved hl hu (fun _ => id) trivial
          refine ⟨hx.pools, ?_, hx.departed, hx.sources, hx.closes, hx.next⟩
          simpa [Work.perform, resume, State.singleClosed, State.modifyManager, State.unlock] using hu.managers.ge
      | _ => cases hw
  · have hm := Work.mild hw l
    refine .unmoved hl hm.tame.toUnmoved (fun h hh => ?_) hm.plain.apt
    cases w with
    | call c => cases c <;> first | exact hw trivial | exact hh
    | back => exact hh

end SqliteAccess.Loop
