import SqliteAccess.Proofs.Life.Closings

/-!
What becomes of single connections. Each is that of one manager from when it is made, until it is closed
or the manager gets another one in its place.
-/

namespace SqliteAccess.Loop

open SqliteAccess.Pool (Handle Lease)

namespace State

def alone (l : State) : List Lease := l.standalone.map (·.lease)

def unclosed? (l : State) (M : Nat) : Option Handle :=
  ((l.shared? M).map (·.handle)).filter (· ∉ l.engine.closes)

def loses? (l : State) : Option Handle :=
  match l.running with
  | some ⟨_, _, .give (.ok _), .push (.singleOpened M _) _⟩
  | some ⟨_, _, .give (.ok _), .push (.singleClosed M) _⟩ => l.unclosed? M
  | _ => none

end State

/-- The handles of the single connections that managers have lost. -/
def lost (past : List State) : List Handle := past.filterMap State.loses?

def Work.Binds : {u : Shape} → Work u → Prop
  | _, .back (.singleOpened _ _) (.ok _) | _, .back (.singleClosed _) (.ok _) => True
  | _, _ => False

structure Faithful (l m : State) : Prop where
  alone : m.alone = l.alone
  single : ∀ M, m.singleOf M = l.singleOf M
  next : l.nextConnection ≤ m.nextConnection

structure Singled (gone : List Handle) (l : State) : Prop where
  nodup : (l.alone.map (·.id)).Nodup
  fresh : ∀ c ∈ l.alone, c.id < l.nextConnection
  held : ∀ M i, l.singleOf M = some i → ∃ c ∈ l.alone, c.id = i
  own : ∀ M M' i, l.singleOf M = some i → l.singleOf M' = some i → M = M'
  among : ∀ h ∈ gone, h ∈ l.alone.map (·.handle)
  fate : ∀ c ∈ l.alone, c.handle ∈ gone ↔ c.handle ∉ l.engine.closes ∧ ∀ M, l.singleOf M ≠ some c.id

def State.Loses (l : State) (M : Nat) (gone gone' : List Handle) : Prop :=
  ∀ g, g ∈ gone' ↔ g ∈ gone ∨ ∃ c ∈ l.alone, l.singleOf M = some c.id ∧ c.handle ∉ l.engine.closes ∧ c.handle = g

variable {l m : State} {h : Handle} {u : Shape} {w : Work u} {M t : Nat} {k : Stack u} {gone gone' : List Handle}

namespace Faithful

theorem of (ha : m.standalone = l.standalone) (hs : ∀ M, m.singleOf M = l.singleOf M)
    (hn : m.nextConnection = l.nextConnection) : Faithful l m := ⟨by rw [State.alone, ha]; rfl, hs, hn.ge⟩

theorem refl (l : State) : Faithful l l := .of rfl (fun _ => rfl) rfl

theorem trans {n : State} (h : Faithful l m) (h' : Faithful m n) : Faithful l n :=
  ⟨h'.alone.trans h.alone, fun M => (h'.single M).trans (h.single M), h.next.trans h'.next⟩

end Faithful

theorem Unmoved.faithful (hs : Unmoved l m) : Faithful l m :=
  ⟨hs.standalone, fun _ => State.singleOf_outer hs.outer, hs.next.ge⟩

theorem State.singleOf_modifyManager (M : Nat) {f : Access.Manager → Access.Manager}
    (hf : ∀ k, (f k).single = k.single) (i : Nat) : (l.modifyManager M f).singleOf i = l.singleOf i := by
  simp only [State.singleOf, State.manager?, State.modifyManager, List.getElem?_modify]
  split
  · cases l.managers[i]? <;> simp [hf]
  · cases l.managers[i]? <;> rfl

theorem Faithful.report (hf : Faithful l m) (r : Log.Record) : Faithful l (m.report r) :=
  hf.trans ((Tame.refl m).report r).toUnmoved.faithful

theorem Faithful.modifyManager (M : Nat) {f : Access.Manager → Access.Manager}
    (hf : ∀ k, (f k).single = k.single) : Faithful l (l.modifyManager M f) :=
  .of rfl (State.singleOf_modifyManager M hf) rfl

theorem State.shutSingle_faithful (l : State) (M : Nat) : Faithful l (l.shutSingle M).1 := by
  unfold State.shutSingle
  split
  · exact .refl l
  · split
    · exact .refl l
    · exact .modifyManager M fun _ => rfl

theorem State.setUp_faithful (l : State) (M : Nat) (location : Option Config.Location) (reach : Access.Reach) :
    Faithful l (l.setUp M location reach).1 := by
  unfold State.setUp
  split
  · dsimp only
    exact (Faithful.refl l).report _
  · exact .refl l
  · split
    · exact .refl l
    · have hd : ∀ d, Faithful l (l.modifyManager M fun k => { k with database := some d }) :=
        fun d => .modifyManager M fun _ => rfl
      dsimp only
      split
      · exact hd _
      · dsimp only [State.usePool]
        refine .report ?_ _
        exact (hd _).trans (.of rfl (State.singleOf_modifyManager M fun _ => rfl) rfl)

theorem Work.faithful (hw : ¬ w.Binds) (l : State) : Faithful l (w.perform l).1 := by
  have same : ∀ {m : State}, m.managers = l.managers → m.standalone = l.standalone →
      m.nextConnection = l.nextConnection → Faithful l m := fun hk ha hn =>
    .of ha (fun M => by rw [State.singleOf, State.manager?, hk]; rfl) hn
  by_cases hs : w.Singular
  · cases w with
    | call c =>
      cases c with
      | askOpen =>
        simp only [Work.perform, begin, State.askOpen]
        split <;> exact same rfl rfl rfl
      | dial d =>
        simp only [Work.perform, begin, State.dial]
        split
        · exact same rfl rfl rfl
        · unfold State.endDial
          split <;> exact same rfl rfl rfl
      | hangUp h => exact same (l.hangUp_managers h) (l.hangUp_standalone h) (l.hangUp_nextConnection h)
      | openSlot p =>
        simp only [Work.perform, begin, State.openSlot]
        split
        · exact same rfl rfl rfl
        · split <;> exact same rfl rfl rfl
      | destroy p id =>
        simp only [Work.perform, begin, State.destroy]
        split
        · exact same rfl rfl rfl
        · split <;> exact same rfl rfl rfl
      | setUp M location reach => exact l.setUp_faithful M location reach
      | shutDown M =>
        simp only [Work.perform, begin, State.shutDown]
        split
        · exact same rfl rfl rfl
        · exact l.shutSingle_faithful M
      | bootstrap url =>
        simp only [Work.perform, begin, State.bootstrap]
        split
        · exact same rfl rfl rfl
        · refine .of rfl (fun M => ?_) rfl
          simp only [State.singleOf, State.manager?, List.getElem?_append]
          split
          · rfl
          next hM =>
            rw [List.getElem?_eq_none (Nat.le_of_not_lt hM)]
            cases hi : [({} : Access.Manager)][M - l.managers.length]? with
            | none => rfl
            | some k =>
              rw [List.mem_singleton.mp (List.mem_of_getElem? hi)]
              rfl
      | _ => cases hs
    | back f o =>
      cases f with
      | start c => cases o <;> exact same rfl rfl rfl
      | askedOpen => exact same rfl rfl rfl
      | dialled fault =>
        cases o with
        | error => exact same rfl rfl rfl
        | ok => cases fault <;> exact same rfl rfl rfl
      | connected => cases o <;> exact same rfl rfl rfl
      | foreignKeysSet d h wal =>
        cases o with
        | error => exact same rfl rfl rfl
        | ok =>
          cases wal with
          | true => exact same rfl rfl rfl
          | false =>
            simp only [Work.perform, resume, State.foreignKeysSet, Bool.false_eq_true, if_false,
              State.endConnect]
            exact (Faithful.refl l).report _
      | journalSet =>
        cases o with
        | error => exact same rfl rfl rfl
        | ok =>
          dsimp only [Work.perform, resume, State.journalSet, State.endConnect]
          exact (Faithful.refl l).report _
      | registering p =>
        cases o with
        | error => exact same rfl rfl rfl
        | ok h =>
          simp only [Work.perform, resume, State.registering]
          split
          · exact ⟨rfl, fun _ => rfl, Nat.le_succ _⟩
          · dsimp only
            refine .report ?_ _
            exact ⟨rfl, fun _ => rfl, Nat.le_succ _⟩
      | singleOpened M d =>
        cases o with
        | error => exact same rfl rfl rfl
        | ok => exact absurd trivial hw
      | poolShut M =>
        cases o with
        | error => exact same rfl rfl rfl
        | ok => exact l.shutSingle_faithful M
      | lockedToClose M =>
        cases o with
        | error => exact same rfl rfl rfl
        | ok =>
          simp only [Work.perform, resume, State.lockedToClose]
          split
          · exact same rfl rfl rfl
          · exact ((Tame.refl l).setLock M Access.Lock.release).toUnmoved.faithful
      | singleClosed M =>
        cases o with
        | error e => exact ((Tame.refl l).setLock M Access.Lock.release).toUnmoved.faithful
        | ok => exact absurd trivial hw
      | _ => cases hs
  · exact (Work.mild hs l).tame.toUnmoved.faithful

namespace Singled

theorem handle_unique (hu : (l.alone.map (·.handle)).Nodup) {c c' : Lease} (hc : c ∈ l.alone)
    (hc' : c' ∈ l.alone) (he : c.handle = c'.handle) : c = c' :=
  List.inj_on_of_nodup_map hu hc hc' he

variable (hl : Singled gone l)

include hl in
theorem id_unique {c c' : Lease} (hc : c ∈ l.alone) (hc' : c' ∈ l.alone) (he : c.id = c'.id) : c = c' :=
  List.inj_on_of_nodup_map hl.nodup hc hc' he

include hl in
theorem keep (hf : Faithful l m)
    (he : ∀ c ∈ l.alone, (∀ M, l.singleOf M ≠ some c.id) → (c.handle ∈ m.engine.closes ↔ c.handle ∈ l.engine.closes)) :
    Singled gone m := by
  refine ⟨hf.alone ▸ hl.nodup, fun c hc => ?_, fun M i hi => ?_, fun M M' i hi hi' => ?_, hf.alone ▸ hl.among,
    fun c hc => ?_⟩
  · rw [hf.alone] at hc
    exact Nat.lt_of_lt_of_le (hl.fresh c hc) hf.next
  · rw [hf.single] at hi
    rw [hf.alone]
    exact hl.held M i hi
  · rw [hf.single] at hi hi'
    exact hl.own M M' i hi hi'
  · rw [hf.alone] at hc
    simp only [hf.single]
    rw [hl.fate c hc]
    exact and_congr_left fun hno => not_congr (he c hc hno).symm

include hl in
theorem fate_loses (hu : (l.alone.map (·.handle)).Nodup) (hg : l.Loses M gone gone') {c : Lease} (hc : c ∈ l.alone) :
    c.handle ∈ gone' ↔ c.handle ∉ l.engine.closes ∧ ∀ M', M' ≠ M → l.singleOf M' ≠ some c.id := by
  rw [hg, hl.fate c hc]
  by_cases hi : l.singleOf M = some c.id
  · constructor
    · rintro (⟨_, hno⟩ | ⟨c', hc', _, hopen, heq⟩)
      · exact absurd hi (hno M)
      · exact ⟨heq ▸ hopen, fun M' hM' hi' => hM' (hl.own M' M c.id hi' hi)⟩
    · exact fun ⟨hopen, _⟩ => .inr ⟨c, hc, hi, hopen, rfl⟩
  · constructor
    · rintro (⟨hopen, hno⟩ | ⟨c', hc', hi', _, heq⟩)
      · exact ⟨hopen, fun M' _ => hno M'⟩
      · cases handle_unique hu hc' hc heq
        exact absurd hi' hi
    · refine fun ⟨hopen, hno⟩ => .inl ⟨hopen, fun M' hi' => ?_⟩
      by_cases hM' : M' = M
      · exact hi (hM' ▸ hi')
      · exact hno M' hM' hi'

include hl in
theorem loses_among (hg : l.Loses M gone gone') : ∀ g ∈ gone', g ∈ l.alone.map (·.handle) := by
  intro g hgone
  rcases (hg g).mp hgone with hgone | ⟨c, hc, _, _, rfl⟩
  · exact hl.among g hgone
  · exact List.mem_map_of_mem hc

include hl in
theorem severed (hu : (l.alone.map (·.handle)).Nodup) (ha : m.alone = l.alone)
    (hn : l.nextConnection ≤ m.nextConnection) (hM : m.singleOf M = none) (hne : ∀ M', M' ≠ M → m.singleOf M' = l.singleOf M')
    (he : m.engine.closes = l.engine.closes) (hg : l.Loses M gone gone') : Singled gone' m := by
  have hother : ∀ {M' i}, m.singleOf M' = some i → M' ≠ M ∧ l.singleOf M' = some i := by
    intro M' i hi'
    by_cases hM' : M' = M
    · subst hM'
      exact nomatch hM.symm.trans hi'
    · exact ⟨hM', hne M' hM' ▸ hi'⟩
  refine ⟨ha ▸ hl.nodup, fun c hc => ?_, fun M' i hi => ?_, fun M M' i hi hi' => ?_, ha ▸ hl.loses_among hg,
    fun c hc => ?_⟩
  · rw [ha] at hc
    exact Nat.lt_of_lt_of_le (hl.fresh c hc) hn
  · rw [ha]
    exact hl.held M' i (hother hi).2
  · exact hl.own M M' i (hother hi).2 (hother hi').2
  · rw [ha] at hc
    rw [he, hl.fate_loses hu hg hc]
    refine and_congr_right fun _ => ⟨fun hno M' hi => hno M' (hother hi).1 (hother hi).2, fun hno M' hM' hi => ?_⟩
    exact hno M' (hne M' hM' ▸ hi)

include hl in
theorem joins (hu : (l.alone.map (·.handle)).Nodup) (ha : m.alone = l.alone ++ [⟨l.nextConnection, h⟩])
    (hn : m.nextConnection = l.nextConnection + 1) (hM : m.singleOf M = some l.nextConnection)
    (hne : ∀ M', M' ≠ M → m.singleOf M' = l.singleOf M') (he : m.engine.closes = l.engine.closes)
    (hnew : h ∉ l.alone.map (·.handle)) (hg : l.Loses M gone gone') : Singled gone' m := by
  have hlt : ∀ {M' i}, l.singleOf M' = some i → i < l.nextConnection := by
    intro M' i hi
    obtain ⟨c, hc, rfl⟩ := hl.held M' i hi
    exact hl.fresh c hc
  have hcases : ∀ {M' i}, m.singleOf M' = some i →
      M' = M ∧ i = l.nextConnection ∨ M' ≠ M ∧ l.singleOf M' = some i := by
    intro M' i hi
    by_cases hM' : M' = M
    · subst hM'
      exact .inl ⟨rfl, Option.some.inj (hi.symm.trans hM)⟩
    · exact .inr ⟨hM', hne M' hM' ▸ hi⟩
  have hin : ∀ {c}, c ∈ m.alone ↔ c ∈ l.alone ∨ c = ⟨l.nextConnection, h⟩ := by
    intro c
    rw [ha, List.mem_append, List.mem_singleton]
  refine ⟨?_, fun c hc => ?_, fun M' i hi => ?_, fun M₁ M₂ i h₁ h₂ => ?_, fun g hgone => ?_, fun c hc => ?_⟩
  · rw [ha, List.map_append]
    refine List.nodup_append.mpr ⟨hl.nodup, List.nodup_singleton _, fun a ha b hb => ?_⟩
    obtain ⟨c, hc, rfl⟩ := List.mem_map.mp ha
    rw [List.mem_singleton.mp hb]
    exact Nat.ne_of_lt (hl.fresh c hc)
  · rw [hn]
    rcases hin.mp hc with hc | rfl
    · exact Nat.lt_succ_of_lt (hl.fresh c hc)
    · exact Nat.lt_succ_self _
  · rcases hcases hi with ⟨rfl, rfl⟩ | ⟨_, hi⟩
    · exact ⟨_, hin.mpr (.inr rfl), rfl⟩
    · obtain ⟨c, hc, hi⟩ := hl.held M' i hi
      exact ⟨c, hin.mpr (.inl hc), hi⟩
  · rcases hcases h₁ with ⟨rfl, rfl⟩ | ⟨_, h₁⟩ <;> rcases hcases h₂ with ⟨rfl, he⟩ | ⟨_, h₂⟩
    · rfl
    · exact absurd (hlt h₂) (Nat.lt_irrefl _)
    · exact absurd (he ▸ hlt h₁) (Nat.lt_irrefl _)
    · exact hl.own M₁ M₂ i h₁ h₂
  · rw [ha, List.map_append]
    exact List.mem_append_left _ (hl.loses_among hg g hgone)
  · rw [he]
    rcases hin.mp hc with hc | rfl
    · rw [hl.fate_loses hu hg hc]
      refine and_congr_right fun _ => ⟨fun hno M' hi => ?_, fun hno M' hM' hi => hno M' ((hne M' hM').trans hi)⟩
      rcases hcases hi with ⟨_, hi⟩ | ⟨hM', hi⟩
      · exact absurd (hi ▸ hl.fresh c hc) (Nat.lt_irrefl _)
      · exact hno M' hM' hi
    · exact ⟨fun hgone => absurd (hl.loses_among hg _ hgone) hnew, fun ⟨_, hno⟩ => absurd hM (hno M)⟩

end Singled

end SqliteAccess.Loop
