import SqliteAccess.Proofs.Life.Singles

/-!
Where each handle is that the engine has given out, whatever happens: a connect has it in hand, or it is
that of one connection, or a connect has let go of it by failing.
-/

namespace SqliteAccess.Loop

open SqliteAccess.Pool (Handle Lease)

namespace State

/-- The engine has been asked to close the handle, or is asked in the step that comes. -/
def Closing (l : State) (h : Handle) : Prop :=
  h ∈ l.engine.closes ∨ ∃ t k, l.running = some ⟨t, .unit, .call (.hangUp h), k⟩

inductive Severs (l : State) (M : Nat) : Point → Prop
  | asks {c : Lease} {k : Stack .unit} : k.Apt l → c ∈ l.alone → l.singleOf M = some c.id →
      l.database? M ≠ none → Severs l M (.works (.call (.hangUp c.handle)) (.push (.singleClosed M) k))

end State

structure Accounts (past : List State) (l : State) : Prop where
  atWork : l.AtWork
  apt : ∀ i p, l.point? i = some p → p.Apt l ∨ ∃ M, l.Severs M p
  sourced : l.Sourced
  departed : ∀ h ∈ l.departed, l.Closing h
  closes : ∀ h ∈ l.engine.closes, l.MayClose h ∨ h ∈ l.alone.map (·.handle)
  singled : Singled (lost past) l
  counts : ∀ h, l.hands h + l.registered.count h + (spilt past).count h = l.given h

variable {l l' m : State} {h g : Handle} {u : Shape} {w : Work u} {n : Next u} {t i j : Nat} {k : Stack u}
  {past : List State}

theorem State.handOf_of_le (hl : l.AtWork) (hi : l.tasks.length ≤ i) : l.handOf g i = 0 := by
  rw [State.handOf, State.point?_of_le (fun r hr => hl.lt hr) hi]
  rfl

theorem State.hands_within (hl : l.AtWork) {N : Nat} (hN : l.tasks.length ≤ N) (g : Handle) :
    l.hands g = ∑ i ∈ Finset.range N, l.handOf g i := by
  refine Finset.sum_subset (Finset.range_subset_range.mpr hN) fun i _ hi => ?_
  exact State.handOf_of_le hl (by simpa using hi)

theorem State.handOf_le (hl : l.AtWork) (g : Handle) (i : Nat) : l.handOf g i ≤ l.hands g := by
  rw [State.hands_within hl (Nat.le_max_left _ (i + 1)) g]
  exact Finset.single_le_sum (f := l.handOf g) (fun _ _ => Nat.zero_le _) (by simp)

theorem State.handOf_add_le (hl : l.AtWork) (g : Handle) (hij : i ≠ j) :
    l.handOf g i + l.handOf g j ≤ l.hands g := by
  rw [State.hands_within hl (Nat.le_max_left _ (i + j + 1)) g]
  exact Finset.add_le_sum (f := l.handOf g) (fun _ _ => Nat.zero_le _) (Finset.mem_range.mpr (by omega))
    (Finset.mem_range.mpr (by omega)) hij

theorem Spared.handOf {S : Nat → Prop} (hs : Spared S l l') (hl : l.AtWork) (hi : ¬ S i) :
    l'.handOf g i = l.handOf g i := by
  rcases hs i hi with he | ⟨hle, c, hc⟩
  · rw [State.handOf, he]
    rfl
  · rw [State.handOf_of_le hl hle, State.handOf, hc]
    rfl

theorem Spared.hands (hs : Spared (· = t) l l') (hl : l.AtWork) (hl' : l'.AtWork) (g : Handle) :
    l'.hands g + l.handOf g t = l.hands g + l'.handOf g t := by
  let N := l.tasks.length + l'.tasks.length + t + 1
  have ht : t ∈ Finset.range N := Finset.mem_range.mpr (by omega)
  rw [State.hands_within hl (show _ ≤ N by omega) g, State.hands_within hl' (show _ ≤ N by omega) g,
    ← Finset.add_sum_erase _ _ ht, ← Finset.add_sum_erase _ (l.handOf g) ht,
    Finset.sum_congr rfl fun i hi => hs.handOf hl (Finset.ne_of_mem_erase hi)]
  omega

theorem State.Returned.handOf (hr : l.Returned h) : ∃ i, l.point? i = some (.ended (u := .handle) (.ok h)) ∧
    1 ≤ l.handOf h i := by
  obtain ⟨i, hi⟩ := hr
  exact ⟨i, hi, by simp [State.handOf, hi, Point.holds, arrived]⟩

theorem Spared.returned (hs : Spared (· = t) l l') (hl : l.AtWork)
    (ht : ∀ (v : Shape) (o : Outcome v), l.point? t ≠ some (.ended o)) (hr : l.Returned h) : l'.Returned h := by
  obtain ⟨i, hi⟩ := hr
  refine ⟨i, ?_⟩
  have hit : i ≠ t := by
    rintro rfl
    exact ht _ _ hi
  rcases hs i hit with he | ⟨hle, _⟩
  · exact he.trans hi
  · rw [State.point?_of_le (fun r hr => hl.lt hr) hle] at hi
    cases hi

theorem State.point?_works {x : Control u} (hp : l.point? i = some (.works x k)) :
    ∃ r, l.running = some r ∧ r.task = i := by
  rw [State.point?, Option.or_eq_some_iff] at hp
  rcases hp with hp | ⟨_, hp⟩
  · obtain ⟨y, _, hy⟩ := Option.bind_eq_some_iff.mp hp
    generalize y.status = s at hy
    cases s <;> cases hy
  · obtain ⟨r, hr, hp⟩ := Option.bind_eq_some_iff.mp hp
    split at hp
    next hi => exact ⟨r, hr, hi⟩
    next => cases hp

theorem State.AtWork.running_at {x : Control u} (hl : l.AtWork)
    (hp : l.point? i = some (.works x k)) : l.running = some ⟨i, u, x, k⟩ := by
  obtain ⟨r, hr, rfl⟩ := State.point?_works hp
  cases (State.point?_at hr (hl _ hr)).symm.trans hp
  exact hr

theorem Placid.apt_made (h : Placid l m) (hi : l.tasks.length ≤ i) {p : Point}
    (hp : (m.tasks[i]?).bind (fun k => k.status.point?) = some p) : p.Apt l' := by
  obtain ⟨y, hy, hp⟩ := Option.bind_eq_some_iff.mp hp
  obtain ⟨c, hc, hs⟩ := h.made i y hi hy
  rw [hs] at hp
  cases hp
  cases hc <;> exact ⟨trivial, trivial⟩

theorem State.given_le (l : State) (h : Handle) : l.given h ≤ 1 := by
  cases h with
  | stray => exact Nat.zero_le _
  | numbered n =>
    rw [State.given]
    split <;> omega

theorem State.registered_count (l : State) (h : Handle) : l.registered.count h =
    (l.pools.flatMap fun s => s.leases.map (·.handle)).count h + (l.alone.map (·.handle)).count h := by
  simp [State.registered, State.alone, List.count_append, Function.comp_def]

theorem State.departed_mem (hd : h ∈ l.departed) : h ∈ l.pools.flatMap fun s => s.leases.map (·.handle) := by
  obtain ⟨s, hs, hd⟩ := List.mem_flatMap.mp hd
  obtain ⟨c, hc, rfl⟩ := List.mem_map.mp hd
  exact List.mem_flatMap.mpr ⟨s, hs, List.mem_map_of_mem (s.leases_perm.mem_iff.mpr (List.mem_append_right _ hc))⟩

namespace Accounts

variable (ha : Accounts past l)

include ha in
theorem once (h : Handle) : l.hands h + l.registered.count h + (spilt past).count h ≤ 1 :=
  (ha.counts h).trans_le (l.given_le h)

include ha in
theorem handles_nodup : (l.alone.map (·.handle)).Nodup := by
  refine List.nodup_iff_count_le_one.mpr fun h => ?_
  have := ha.once h
  have := l.registered_count h
  omega

include ha in
theorem pooled_not_alone (hp : h ∈ l.pools.flatMap fun s => s.leases.map (·.handle)) :
    h ∉ l.alone.map (·.handle) := by
  intro hin
  have hone := ha.once h
  have hcount := l.registered_count h
  have hpool := List.count_pos_iff.mpr hp
  have halone := List.count_pos_iff.mpr hin
  omega

include ha in
theorem apart (hm : l.MayClose h) : h ∉ l.alone.map (·.handle) := by
  rcases hm with hd | hr
  · exact ha.pooled_not_alone (State.departed_mem hd)
  · intro hin
    have hone := ha.once h
    have hcount := l.registered_count h
    have halone := List.count_pos_iff.mpr hin
    obtain ⟨i, _, hi⟩ := hr.handOf
    have := State.handOf_le ha.atWork h i
    omega

include ha in
theorem fresh {p : Point} (hp : l.point? t = some p) (hh : 1 ≤ p.holds h)
    (hover : ∀ (v : Shape) (o : Outcome v), p ≠ .ended o) :
    h ∉ l.alone.map (·.handle) ∧ h ∉ l.engine.closes := by
  have hone := ha.once h
  have hcount := l.registered_count h
  have hand : l.handOf h t = p.holds h := by rw [State.handOf, hp]; rfl
  have hle := State.handOf_le ha.atWork h t
  have halone : h ∉ l.alone.map (·.handle) := fun hin => by
    have := List.count_pos_iff.mpr hin
    omega
  refine ⟨halone, fun hc => ?_⟩
  rcases (ha.closes h hc).resolve_right halone with hd | hr
  · have := List.count_pos_iff.mpr (State.departed_mem hd)
    omega
  · obtain ⟨i, hi, hpos⟩ := hr.handOf
    have hit : t ≠ i := by
      rintro rfl
      exact hover _ _ (Option.some.inj (hp.symm.trans hi))
    have := State.handOf_add_le ha.atWork h hit
    omega

end Accounts

theorem State.shared?_iff {gone : List Handle} (hl : Singled gone l) {M : Nat} {c : Lease} :
    l.shared? M = some c ↔ c ∈ l.alone ∧ l.singleOf M = some c.id := by
  have hfind : ∀ i z, l.standalone? i = some z → z.lease ∈ l.alone ∧ z.lease.id = i := by
    intro i z hz
    exact ⟨List.mem_map_of_mem (List.mem_of_find?_eq_some hz),
      by simpa [Pool.Connection.lease] using List.find?_some hz⟩
  constructor
  · intro hc
    obtain ⟨z, hz, rfl⟩ := Option.map_eq_some_iff.mp hc
    obtain ⟨i, hi, hz⟩ := Option.bind_eq_some_iff.mp hz
    obtain ⟨hin, rfl⟩ := hfind i z hz
    exact ⟨hin, hi⟩
  · rintro ⟨hc, hi⟩
    obtain ⟨z, hz, rfl⟩ := List.mem_map.mp hc
    cases hf : l.standalone? z.lease.id with
    | none =>
      have := List.find?_eq_none.mp hf z hz
      simp [Pool.Connection.lease] at this
    | some z' =>
      obtain ⟨hin, hid⟩ := hfind _ z' hf
      rw [State.shared?, hi, Option.bind_some, hf, Option.map_some, hl.id_unique hin hc hid]

theorem Work.closes_of_on {t' : Nat} {k' : Stack .unit} (he : w.on t k = ⟨t', .unit, .call (.hangUp h), k'⟩) :
    w.Closes h := by
  cases w with
  | call c =>
    cases he
    rfl
  | back => cases he

theorem Next.Closes.carryOn (hn : n.Closes h) :
    ∃ t' k', (m.carryOn t n k).running = some ⟨t', .unit, .call (.hangUp h), k'⟩ := by
  cases n with
  | call c f =>
    cases c with
    | hangUp h' =>
      cases hn
      exact ⟨t, _, rfl⟩
    | _ => cases hn
  | _ => cases hn

theorem spilt_snoc (past : List State) (l : State) : spilt (past ++ [l]) = spilt past ++ l.spills?.toList := by
  rw [spilt, List.filterMap_append, ← spilt, List.filterMap_cons]
  cases l.spills? <;> rfl

theorem Accounts.advance (ha : Accounts past l) (hr : l.running = some (w.on t k)) (hw : w.Apt l ∨ w.Hangs)
    (hapt : Widens l ((w.perform l).1.carryOn t (w.perform l).2 k) →
      ((w.perform l).2.point k).Apt ((w.perform l).1.carryOn t (w.perform l).2 k) ∨
        ∃ M, State.Severs ((w.perform l).1.carryOn t (w.perform l).2 k) M ((w.perform l).2.point k))
    (hclosed : ∀ h, w.Closes h → l.MayClose h ∨ h ∈ l.alone.map (·.handle))
    (halone : l.alone ⊆ (w.perform l).1.alone)
    (hsingled : Singled (lost (past ++ [l])) ((w.perform l).1.carryOn t (w.perform l).2 k)) :
    Accounts (past ++ [l]) ((w.perform l).1.carryOn t (w.perform l).2 k) := by
  have hx := ha.atWork _ hr
  have hat := State.point?_at hr hx
  rw [Work.on_task] at hx hat
  have hu := (w.placid l).undisturbed
  have hspare := hu.carryOn hr (w.perform l).2
  have hat' := State.carryOn_point (hu.running_at hx) (w.perform l).2 k
  have hst := State.carryOn_unmoved (w.perform l).1 t (w.perform l).2 k
  have hstep : l.step? = some ((w.perform l).1.carryOn t (w.perform l).2 k) := by
    rw [← State.advance_on, State.step?, hr]
  have hparts := w.parts hw ha.sourced
  have hcons : ∀ h, Conserves h l w (w.perform l) := fun h => w.conserves hw
  have hspills := w.spills?_on t k hr
  have hplacid := w.placid l
  have hclosing : ∀ h, (w.perform l).2.Closes h →
      ∃ t' k', ((w.perform l).1.carryOn t (w.perform l).2 k).running = some ⟨t', .unit, .call (.hangUp h), k'⟩ :=
    fun _ hc => hc.carryOn
  have hothers : ∀ i p, t ≠ i → ((w.perform l).1.carryOn t (w.perform l).2 k).point? i = some p →
      l.point? i = some p ∨ ∀ x : State, p.Apt x := by
    intro i p hi hp
    rcases hspare i (Ne.symm hi) with he | ⟨hle, _⟩
    · exact .inl (he.symm.trans hp)
    · rw [State.carryOn_point_of_ne _ _ hi] at hp
      exact .inr fun x => hplacid.apt_made hle hp
  have hover : ∀ (v : Shape) (o : Outcome v), l.point? t ≠ some (.ended o) := fun v o he =>
    by cases hat.symm.trans he
  have hwid : Widens l ((w.perform l).1.carryOn t (w.perform l).2 k) :=
    ⟨hparts.pools.trans hst.pools.length_eq.le, hparts.managers.trans hst.managers.ge,
      fun h hm => hm.imp (fun hd => hst.departed ▸ (hparts.departed h).1 hd) fun hr =>
        hspare.returned ha.atWork hover hr⟩
  generalize (w.perform l).1.carryOn t (w.perform l).2 k = l' at *
  refine ⟨ha.atWork.step hstep, fun i p hp => ?_, hst.sourced hparts.sources, fun h hd => ?_, fun h hc => ?_,
    hsingled, fun h => ?_⟩
  · by_cases hi : t = i
    · subst hi
      cases hat'.symm.trans hp
      exact hapt hwid
    · rcases hothers i p hi hp with hp | hp
      · refine .inl (hwid.point ((ha.apt i p hp).resolve_right fun hsev => hi ?_))
        have hworks : ∃ r, l.running = some r ∧ r.task = i := by
          obtain ⟨M, hs⟩ := hsev
          cases hs
          exact State.point?_works hp
        obtain ⟨r, hr', rfl⟩ := hworks
        cases hr.symm.trans hr'
        exact (w.on_task t k).symm
      · exact .inl (hp l')
  · rw [hst.departed] at hd
    rcases (hparts.departed h).2 hd with hd | hn
    · refine .inl (hst.closes ▸ (hparts.closes h).mpr ?_)
      rcases ha.departed h hd with hc | ⟨t', k', hr'⟩
      · exact .inl hc
      · exact .inr (Work.closes_of_on (Option.some.inj (hr.symm.trans hr')))
    · exact .inr (hclosing h hn)
  · rw [hst.closes] at hc
    have hin : h ∈ l.alone.map (·.handle) → h ∈ l'.alone.map (·.handle) := fun hin => by
      rw [hst.faithful.alone]
      exact List.map_subset _ halone hin
    rcases (hparts.closes h).mp hc with hc | hc
    · exact (ha.closes h hc).imp (hwid.closes h) hin
    · exact (hclosed h hc).imp (hwid.closes h) hin
  · have hsum := hspare.hands ha.atWork (ha.atWork.step hstep) h
    have hhold : l.handOf h t = w.holds h + k.holds h := by
      rw [State.handOf, hat]
      exact w.holds_point t k h
    have hhold' : l'.handOf h t = (w.perform l).2.holds h + k.holds h := by
      rw [State.handOf, hat']
      exact Next.holds_point _ k h
    have hspilt : (spilt (past ++ [l])).count h = (spilt past).count h + w.spills?.toList.count h := by
      rw [spilt_snoc, hspills, List.count_append]
    have hold := ha.counts h
    have hstepped := hcons h
    rw [Conserves] at hstepped
    rw [hspilt, hst.registered, hst.given]
    omega

theorem Work.loses?_on (w : Work u) (hr : l.running = some (w.on t k)) (hw : ¬ w.Binds) : l.loses? = none := by
  rw [State.loses?, hr]
  cases w with
  | call => rfl
  | back f o =>
    cases f with
    | singleOpened | singleClosed =>
      cases o with
      | error => rfl
      | ok => exact absurd trivial hw
    | start c => cases u <;> cases o <;> rfl
    | _ => cases o <;> rfl

theorem lost_snoc (past : List State) (l : State) : lost (past ++ [l]) = lost past ++ l.loses?.toList := by
  rw [lost, List.filterMap_append, ← lost, List.filterMap_cons]
  cases l.loses? <;> rfl

theorem State.unclosed?_iff {gone : List Handle} (hl : Singled gone l) {M : Nat} :
    l.unclosed? M = some h ↔
      ∃ c ∈ l.alone, l.singleOf M = some c.id ∧ c.handle ∉ l.engine.closes ∧ c.handle = h := by
  simp only [State.unclosed?, Option.filter_eq_some_iff, Option.map_eq_some_iff, State.shared?_iff hl,
    decide_eq_true_eq]
  constructor
  · rintro ⟨⟨c, ⟨hc, hi⟩, rfl⟩, hopen⟩
    exact ⟨c, hc, hi, hopen, rfl⟩
  · rintro ⟨c, hc, hi, hopen, rfl⟩
    exact ⟨⟨c, ⟨hc, hi⟩, rfl⟩, hopen⟩

theorem Singled.loses {M : Nat} (hl : Singled (lost past) l) (he : l.loses? = l.unclosed? M) :
    l.Loses M (lost past) (lost (past ++ [l])) := by
  intro g
  rw [lost_snoc, he, List.mem_append, Option.mem_toList, State.unclosed?_iff hl]

theorem Next.Severs.point {gone : List Handle} (hn : n.Severs m) (hs : Singled gone (m.carryOn t n k))
    (hk : k.Apt (m.carryOn t n k)) : ∃ M, State.Severs (m.carryOn t n k) M (n.point k) := by
  cases n with
  | call c f =>
    cases c with
    | hangUp h =>
      cases f with
      | singleClosed M =>
        obtain ⟨b, i, hb, hi, hd, rfl⟩ := hn
        have hsingle : (m.carryOn t (.call (.hangUp (((m.standalone? i).map (·.handle)).getD .stray))
            (.singleClosed M)) k).singleOf M = some i := by
          rw [State.singleOf_carryOn, State.singleOf, hb]
          exact hi
        obtain ⟨c, hc, rfl⟩ := hs.held M i hsingle
        have hshared := (State.shared?_iff hs).mpr ⟨hc, hsingle⟩
        rw [State.shared?, hsingle, Option.bind_some] at hshared
        obtain ⟨z, hz, hzc⟩ := Option.map_eq_some_iff.mp hshared
        have hz : m.standalone? c.id = some z := hz
        have hh : ((m.standalone? c.id).map (·.handle)).getD .stray = c.handle := by
          rw [hz, ← hzc]
          rfl
        rw [hh] at hk hc hsingle ⊢
        refine ⟨M, .asks hk hc hsingle ?_⟩
        change (m.manager? M).bind (·.database) ≠ none
        rw [hb]
        exact hd
      | _ => cases hn
    | _ => cases hn
  | _ => cases hn

structure Joined (M : Nat) (h : Handle) (l m : State) : Prop where
  alone : m.alone = l.alone ++ [⟨l.nextConnection, h⟩]
  next : m.nextConnection = l.nextConnection + 1
  single : m.singleOf M = some l.nextConnection
  others : ∀ i, i ≠ M → m.singleOf i = l.singleOf i
  closes : m.engine.closes = l.engine.closes

theorem Joined.unmoved {M : Nat} (hj : Joined M h l m) (hs : Unmoved m l') : Joined M h l l' :=
  ⟨hs.faithful.alone.trans hj.alone, hs.next.trans hj.next, (hs.faithful.single M).trans hj.single,
    fun i hi => (hs.faithful.single i).trans (hj.others i hi), hs.closes.trans hj.closes⟩

theorem State.singleOpened_joined {M : Nat} (hM : M < l.managers.length) (d : Access.Database) (h : Handle) :
    Joined M h l (l.singleOpened M d (.ok h)).1 := by
  have hj : Joined M h l
      ((l.addStandalone h).1.modifyManager M fun k => { k with single := some l.nextConnection }) := by
    refine ⟨?_, rfl, ?_, fun i hi => ?_, rfl⟩
    · simp [State.alone, State.addStandalone, State.modifyManager, Pool.Connection.lease]
    · simp [State.singleOf, State.manager?, State.addStandalone, State.modifyManager, hM]
    · simp [State.singleOf, State.manager?, State.addStandalone, State.modifyManager, Ne.symm hi]
  dsimp only [State.singleOpened]
  exact hj.unmoved ((Tame.refl _).report _).toUnmoved

theorem Accounts.opens {M : Nat} {d : Access.Database} (ha : Accounts past l) {k : Stack .manager}
    (hr : l.running = some ((Work.back (.singleOpened M d) (.ok h)).on t k)) (hM : M < l.managers.length)
    (hk : k.Apt l) : Accounts (past ++ [l])
      (((Work.back (.singleOpened M d) (.ok h)).perform l).1.carryOn t (.give (.ok M)) k) := by
  have hat := State.point?_at hr (ha.atWork _ hr)
  obtain ⟨hnew, _⟩ := ha.fresh hat (h := h)
    (by simp [Work.on, Running.point, Point.holds, Control.holds, arrived]) fun v o h => by cases h
  have hj := State.singleOpened_joined hM d h
  refine ha.advance hr (.inl hM) (fun hwid => .inl ⟨trivial, hwid.stack hk⟩) (fun _ => False.elim)
    (fun c hc => hj.alone ▸ List.mem_append_left _ hc) ?_
  have hj' := hj.unmoved (State.carryOn_unmoved _ t (.give (.ok M)) k)
  refine ha.singled.joins ha.handles_nodup hj'.alone hj'.next hj'.single hj'.others hj'.closes hnew
    (ha.singled.loses ?_)
  rw [State.loses?, hr]
  rfl

structure Severed (M : Nat) (l m : State) : Prop where
  alone : m.alone = l.alone
  next : l.nextConnection ≤ m.nextConnection
  single : m.singleOf M = none
  others : ∀ i, i ≠ M → m.singleOf i = l.singleOf i
  closes : m.engine.closes = l.engine.closes

theorem Severed.unmoved {M : Nat} (hv : Severed M l m) (hs : Unmoved m l') : Severed M l l' :=
  ⟨hs.faithful.alone.trans hv.alone, hv.next.trans hs.faithful.next, (hs.faithful.single M).trans hv.single,
    fun i hi => (hs.faithful.single i).trans (hv.others i hi), hs.closes.trans hv.closes⟩

theorem State.singleClosed_severed (l : State) (M : Nat) : Severed M l (l.singleClosed M (.ok ())).1 := by
  have hu := ((Tame.refl l).setLock M Access.Lock.release).toUnmoved
  refine ⟨hu.faithful.alone, hu.faithful.next, ?_, fun i hi => ?_, hu.closes⟩
  · simp only [State.singleClosed, State.singleOf, State.manager?, State.modifyManager, List.getElem?_modify_eq]
    cases (l.unlock M).managers[M]? <;> rfl
  · rw [← hu.faithful.single]
    simp [State.singleClosed, State.singleOf, State.manager?, State.modifyManager, Ne.symm hi, State.unlock]

theorem Accounts.severed {M : Nat} (ha : Accounts past l) {k : Stack .unit}
    (hr : l.running = some ((Work.back (.singleClosed M) (.ok ())).on t k)) (hk : k.Apt l) :
    Accounts (past ++ [l])
      (((Work.back (.singleClosed M) (.ok ())).perform l).1.carryOn t
        ((Work.back (.singleClosed M) (.ok ())).perform l).2 k) := by
  have hv := l.singleClosed_severed M
  refine ha.advance hr (.inl trivial) (fun hwid => .inl ⟨trivial, hwid.stack hk⟩) (fun _ => False.elim)
    (fun _ h => hv.alone ▸ h) ?_
  have hv := hv.unmoved (State.carryOn_unmoved _ t ((Work.back (.singleClosed M) (.ok ())).perform l).2 k)
  refine ha.singled.severed ha.handles_nodup hv.alone hv.next hv.single hv.others hv.closes (ha.singled.loses ?_)
  rw [State.loses?, hr]
  rfl

theorem Accounts.works (ha : Accounts past l) (hr : l.running = some (w.on t k)) (hw : w.Apt l) (hk : k.Apt l) :
    Accounts (past ++ [l]) ((w.perform l).1.carryOn t (w.perform l).2 k) := by
  have hx := ha.atWork _ hr
  rw [Work.on_task] at hx
  have hu := (w.placid l).undisturbed
  have hst := State.carryOn_unmoved (w.perform l).1 t (w.perform l).2 k
  have hparts := w.parts (.inl hw) ha.sourced
  have hclosed : ∀ h, w.Closes h → l.MayClose h := by
    intro h hc
    cases w with
    | call c =>
      cases c with
      | hangUp h' => cases hc; exact hw
      | _ => cases hc
    | back => cases hc
  have hfrom : Spared (· = t) (w.perform l).1 ((w.perform l).1.carryOn t (w.perform l).2 k) :=
    (Undisturbed.refl _).carryOn (hu.running.trans hr) _
  have hatm : (w.perform l).1.point? t = some (w.on t k).point := by
    have := State.point?_at (hu.running.trans hr) (by rw [Work.on_task]; exact hu.running_at hx)
    rwa [Work.on_task] at this
  have hwm : (w.perform l).1.AtWork := fun r hr' => by
    cases (hu.running.trans hr).symm.trans hr'
    rw [Work.on_task]
    exact hu.running_at hx
  have hwiden : Widens (w.perform l).1 ((w.perform l).1.carryOn t (w.perform l).2 k) :=
    ⟨hst.pools.length_eq.le, hst.managers.ge, fun h hm => hm.imp (fun hd => hst.departed ▸ hd) fun hr =>
      hfrom.returned hwm (fun v o he => nomatch hatm.symm.trans he) hr⟩
  by_cases hb : w.Binds
  · cases w with
    | call => cases hb
    | back f o =>
      cases f with
      | singleOpened M d =>
        cases o with
        | error => cases hb
        | ok h => exact ha.opens hr hw hk
      | singleClosed M =>
        cases o with
        | error => cases hb
        | ok => exact ha.severed hr hk
      | start c => cases u <;> cases o <;> cases hb
      | _ => cases hb
  · have hfaith := (w.faithful hb l).trans hst.faithful
    have hsingled : Singled (lost (past ++ [l])) ((w.perform l).1.carryOn t (w.perform l).2 k) := by
      rw [lost_snoc, w.loses?_on hr hb, Option.toList_none, List.append_nil]
      refine ha.singled.keep hfaith fun c hc _ => ?_
      rw [hst.closes, hparts.closes]
      exact ⟨fun hd => hd.resolve_right fun hd => ha.apart (hclosed _ hd) (List.mem_map_of_mem hc), .inl⟩
    refine ha.advance hr (.inl hw) (fun hwid => ?_) (fun h hc => .inl (hclosed h hc))
      (fun c hc => (w.faithful hb l).alone ▸ hc) hsingled
    rcases hparts.next with hn | hn
    · exact .inl ((hwiden.next hn).point (hwid.stack hk))
    · exact .inr (hn.point hsingled (hwid.stack hk))

theorem Accounts.severs (ha : Accounts past l) (hr : l.running = some (w.on t k))
    {M : Nat} (hs : l.Severs M (w.on t k).point) :
    Accounts (past ++ [l]) ((w.perform l).1.carryOn t (w.perform l).2 k) := by
  cases w with
  | back f o =>
    change l.Severs M (.works (.give o) (.push f k)) at hs
    cases hs
  | call c =>
    change l.Severs M (.works (.call c) k) at hs
    cases hs with
    | @asks c k hk hc hM hd =>
      have hb : ¬ (Work.call (.hangUp c.handle)).Binds := id
      have hfaith := (Work.call (.hangUp c.handle)).faithful hb l
      have hparts := (Work.call (.hangUp c.handle)).parts (.inr trivial) ha.sourced
      have hst := State.carryOn_unmoved ((Work.call (.hangUp c.handle)).perform l).1 t
        ((Work.call (.hangUp c.handle)).perform l).2 (.push (.singleClosed M) k)
      have hn : ∀ x : State, ((Work.call (.hangUp c.handle)).perform l).2.Apt x := by
        intro x
        rcases l.hangUp_snd c.handle with ⟨_, he⟩ | ⟨_, he⟩ <;> simp only [Work.perform, begin, he] <;> trivial
      refine ha.advance hr (.inr trivial)
        (fun hwid => .inl ((hn _).point ⟨trivial, hwid.stack hk⟩)) (fun h hc' => .inr ?_)
        (fun _ h => hfaith.alone ▸ h) ?_
      · cases hc'
        exact List.mem_map_of_mem hc
      · rw [lost_snoc, Work.loses?_on _ hr hb, Option.toList_none, List.append_nil]
        refine ha.singled.keep (hfaith.trans hst.faithful) fun c' hc' hno => ?_
        rw [hst.closes, hparts.closes]
        refine ⟨fun hd => hd.resolve_right fun heq => ?_, .inl⟩
        cases Singled.handle_unique ha.handles_nodup hc hc' heq
        exact hno M hM

end SqliteAccess.Loop
