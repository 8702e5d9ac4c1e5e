import SqliteAccess.Proofs.Life.Course

/-!
What a manager has is changed only by steps that set it up or shut it down, and each task gets further by
its own steps only.
-/

namespace SqliteAccess.Loop

def Work.Governs (M : Nat) : {u : Shape} → Work u → Prop
  | _, .call (.setUp m _ _) | _, .call (.shutDown m) | _, .back (.poolShut m) _
  | _, .back (.singleOpened m _) _ | _, .back (.singleClosed m) _ => m = M
  | _, _ => False

inductive Gets (t : Nat) (l l' : State) : Point → Point → Prop
  | stays {p : Point} : (∀ r, l.running = some r → r.task ≠ t) → Gets t l l' p p
  | works {u : Shape} {w : Work u} {k : Stack u} : l.running = some (w.on t k) →
      l' = (w.perform l).1.carryOn t (w.perform l).2 k → Gets t l l' (w.on t k).point ((w.perform l).2.point k)
  | ends {u : Shape} {o : Outcome u} : l.running = some ⟨t, u, .give o, .done u⟩ →
      Gets t l l' (.works (.give o) (.done u)) (.ended o)
  | goesOn {k : Stack .unit} {o : Outcome .unit} : l.running = none → l'.running = some ⟨t, .unit, .give o, k⟩ →
      Gets t l l' (.waits k) (.works (.give o) k)

variable {may : {s : Shape} → State → Call s → Prop} {l l' m : State} {M t i : Nat} {u : Shape} {w : Work u}
  {k : Stack u} {past : List State} {p : Point} {b : Access.Manager}

theorem State.bare?_modifyManager {f g : Access.Manager → Access.Manager}
    (hf : ∀ k, { f k with lock := {} } = g { k with lock := {} }) :
    (l.modifyManager M f).bare? M = (l.bare? M).map g := by
  simp only [State.bare?, State.manager?, State.modifyManager, List.getElem?_modify_eq, Option.map_map]
  cases l.managers[M]? with
  | none => rfl
  | some k => exact congrArg some (hf k)

theorem State.bare?_modifyManager_of_ne {f : Access.Manager → Access.Manager} (hi : i ≠ M) :
    (l.modifyManager i f).bare? M = l.bare? M := by
  simp [State.bare?, State.manager?, State.modifyManager, hi]

theorem State.bare?_lt (hM : l.bare? M ≠ none) : M < l.managers.length := by
  rw [Ne, State.bare?, Option.map_eq_none_iff] at hM
  exact (List.getElem?_eq_some_iff.mp (Option.ne_none_iff_exists'.mp hM).choose_spec).1

theorem State.bare?_eq_some (hb : l.bare? M = some b) :
    ∃ k, l.manager? M = some k ∧ k.database = b.database ∧ k.pool = b.pool ∧ k.single = b.single := by
  obtain ⟨k, hk, rfl⟩ := Option.map_eq_some_iff.mp hb
  exact ⟨k, hk, rfl, rfl, rfl⟩

theorem State.singleOf_of_bare (hb : l.bare? M = some b) : l.singleOf M = b.single := by
  obtain ⟨k, hk, _, _, hs⟩ := State.bare?_eq_some hb
  rw [State.singleOf, hk]
  exact hs

theorem State.database?_of_bare (hb : l.bare? M = some b) : l.database? M = b.database := by
  rw [State.database?_eq, hb]
  rfl

theorem State.lock_of_bare (hb : l.bare? M = some b) : b.lock = {} := by
  obtain ⟨k, _, rfl⟩ := Option.map_eq_some_iff.mp hb
  rfl

theorem Unmoved.bare (hs : Unmoved l m) (M : Nat) : m.bare? M = l.bare? M := State.bare?_congr hs.outer

theorem Work.governs_of_eq {v : Shape} {w' : Work v} {k' : Stack v} (he : w.on t k = w'.on i k')
    (hw : w'.Governs M) : w.Governs M := by
  cases w <;> cases w' <;> cases he <;> exact hw

theorem Work.bare_eq (hw : ¬ w.Governs M) (hM : l.bare? M ≠ none) : (w.perform l).1.bare? M = l.bare? M := by
  have same : ∀ {m : State}, m.managers = l.managers → m.bare? M = l.bare? M := fun hk => by
    rw [State.bare?, State.manager?, hk]
    rfl
  have report : ∀ {m : State}, m.bare? M = l.bare? M → ∀ r, (m.report r).bare? M = l.bare? M := fun hm r =>
    (((Tame.refl _).report r).toUnmoved.bare M).trans hm
  have shut : ∀ {i}, i ≠ M → (l.shutSingle i).1.bare? M = l.bare? M := by
    intro i hi
    unfold State.shutSingle
    split
    · rfl
    · split
      · rfl
      · exact State.bare?_modifyManager_of_ne hi
  by_cases hs : w.Singular
  · cases w with
    | call c =>
      cases c with
      | askOpen =>
        simp only [Work.perform, begin, State.askOpen]
        split <;> exact same rfl
      | dial d =>
        simp only [Work.perform, begin, State.dial]
        split
        · exact same rfl
        · unfold State.endDial
          split <;> exact same rfl
      | hangUp h => exact same (l.hangUp_managers h)
      | openSlot p =>
        simp only [Work.perform, begin, State.openSlot]
        split
        · exact same rfl
        · split <;> exact same rfl
      | destroy p id =>
        simp only [Work.perform, begin, State.destroy]
        split
        · exact same rfl
        · split <;> exact same rfl
      | setUp i location reach =>
        simp only [Work.perform, begin, State.setUp]
        split
        · dsimp only
          exact report rfl _
        · rfl
        · split
          · rfl
          · split
            · exact State.bare?_modifyManager_of_ne hw
            · dsimp only [State.usePool]
              refine report ?_ _
              rw [State.bare?_modifyManager_of_ne hw]
              exact State.bare?_modifyManager_of_ne hw
      | shutDown i =>
        simp only [Work.perform, begin, State.shutDown]
        split
        · rfl
        · exact shut hw
      | bootstrap url =>
        simp only [Work.perform, begin, State.bootstrap]
        split
        · rfl
        · simp [State.bare?, State.manager?, List.getElem?_append_left (State.bare?_lt hM)]
      | _ => cases hs
    | back f o =>
      cases f with
      | start c => cases o <;> rfl
      | askedOpen => rfl
      | dialled fault =>
        cases o with
        | error => rfl
        | ok => cases fault <;> exact same rfl
      | connected => cases o <;> rfl
      | foreignKeysSet d h wal =>
        cases o with
        | error => rfl
        | ok =>
          cases wal with
          | true => rfl
          | false => exact report rfl _
      | journalSet =>
        cases o with
        | error => rfl
        | ok => exact report rfl _
      | registering p =>
        cases o with
        | error => exact same rfl
        | ok h =>
          simp only [Work.perform, resume, State.registering]
          split
          · exact same rfl
          · dsimp only
            refine report ?_ _
            exact same rfl
      | singleOpened i d =>
        cases o with
        | error => rfl
        | ok =>
          dsimp only [Work.perform, resume, State.singleOpened]
          refine report ?_ _
          exact (State.bare?_modifyManager_of_ne hw).trans (same rfl)
      | poolShut i =>
        cases o with
        | error => rfl
        | ok => exact shut hw
      | lockedToClose i =>
        cases o with
        | error => rfl
        | ok =>
          simp only [Work.perform, resume, State.lockedToClose]
          split
          · rfl
          · exact ((Tame.refl l).setLock i Access.Lock.release).toUnmoved.bare M
      | singleClosed i =>
        have hu := ((Tame.refl l).setLock i Access.Lock.release).toUnmoved.bare M
        cases o with
        | error e => exact hu
        | ok => exact (State.bare?_modifyManager_of_ne hw).trans hu
      | _ => cases hs
  · exact (Work.mild hs l).tame.toUnmoved.bare M

theorem State.Happens.bare (hs : l.Happens may l') (hM : l.bare? M ≠ none) :
    l'.bare? M = l.bare? M ∨
      ∃ (t : Nat) (u : Shape) (w : Work u) (k : Stack u), l.running = some (w.on t k) ∧ w.Governs M ∧
        l' = (w.perform l).1.carryOn t (w.perform l).2 k := by
  rcases hs.unmoved with ⟨t, u, w, k, hr, rfl⟩ | hst
  · by_cases hw : w.Governs M
    · exact .inr ⟨t, u, w, k, hr, hw, rfl⟩
    · exact .inl (((State.carryOn_unmoved _ _ _ _).bare M).trans (Work.bare_eq hw hM))
  · exact .inl (hst.bare M)

theorem State.Happens.works (hs : l.Happens may l') (hr : l.running = some (w.on t k)) :
    l' = (w.perform l).1.carryOn t (w.perform l).2 k := by
  rcases hs.cases with hl | ⟨hn, _⟩
  · exact (State.step_running hr hl).trans (State.advance_on l w t k)
  · cases hn.symm.trans hr

theorem State.Happens.works_point (hs : l.Happens may l') (hl : l.AtWork) (hr : l.running = some (w.on t k)) :
    l'.point? t = some ((w.perform l).2.point k) := by
  have hx := hl _ hr
  rw [Work.on_task] at hx
  rw [hs.works hr]
  exact State.carryOn_point ((w.placid l).undisturbed.running_at hx) _ k

theorem Spared.point {S : Nat → Prop} (hs : Spared S l l') (hl : l.AtWork) (ht : ¬ S t)
    (hp : l.point? t = some p) : l'.point? t = some p := by
  rcases hs t ht with he | ⟨hle, _⟩
  · exact he.trans hp
  · rw [State.point?_of_le (fun r h => hl.lt h) hle] at hp
    cases hp

theorem State.Happens.gets (hs : l.Happens may l') (hl : l.AtWork) (hp : l.point? t = some p) :
    ∃ p', l'.point? t = some p' ∧ Gets t l l' p p' := by
  have idle : l.running = none → ∀ {S : Nat → Prop}, Spared S l l' → ¬ S t →
      ∃ p', l'.point? t = some p' ∧ Gets t l l' p p' := fun hr S hspare ht =>
    ⟨p, hspare.point hl ht hp, .stays fun r h => nomatch hr.symm.trans h⟩
  have hlt : t ≠ l.tasks.length := by
    rintro rfl
    rw [State.point?_of_le (fun r h => hl.lt h) (Nat.le_refl _)] at hp
    cases hp
  rcases hs.arrival with hstep | ⟨hr, harr⟩
  · cases hl.stride hstep with
    | @works i u w k _ hr he hp' hspare =>
      by_cases hi : t = i
      · subst hi
        have hat := State.point?_at hr (hl _ hr)
        rw [Work.on_task] at hat
        cases hp.symm.trans hat
        exact ⟨_, hp', .works hr he⟩
      · refine ⟨p, hspare.point hl hi hp, .stays fun r h => ?_⟩
        cases hr.symm.trans h
        rw [Work.on_task]
        exact Ne.symm hi
    | @ends i u o _ hr hr' hp' hspare =>
      by_cases hi : t = i
      · subst hi
        have hat := State.point?_at hr (hl _ hr)
        cases hp.symm.trans hat
        exact ⟨_, hp', .ends hr⟩
      · refine ⟨p, hspare.point hl hi hp, .stays fun r h => ?_⟩
        cases hr.symm.trans h
        exact Ne.symm hi
    | @goesOn i o k _ hr hat hr' hp' hspare =>
      by_cases hi : t = i
      · subst hi
        cases hp.symm.trans hat
        exact ⟨_, hp', .goesOn hr hr'⟩
      · exact idle hr hspare hi
    | rests hr _ hspare => exact idle hr hspare id
  · cases harr with
    | enters _ _ _ hspare | spawns _ _ _ hspare => exact idle hr hspare hlt
    | rests _ hspare => exact idle hr hspare id

end SqliteAccess.Loop
