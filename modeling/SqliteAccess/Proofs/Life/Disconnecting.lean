import SqliteAccess.Proofs.Life.Adrift
import SqliteAccess.Proofs.Life.Governing

/-!
Shutdowns that have come to the close of a single connection. The close may take its time, fail or be cancelled, and
only one that has succeeded takes the connection from its manager.
-/

namespace SqliteAccess.Loop

open SqliteAccess.Pool (Handle Lease)

def Frame.Disconnects (M : Nat) : {s t : Shape} → Frame s t → Prop
  | _, _, .singleClosed m => m = M
  | _, _, _ => False

def Stack.Disconnects (M : Nat) : {s : Shape} → Stack s → Prop
  | _, .done _ => False
  | _, .push f k => f.Disconnects M ∨ Disconnects M k

def Point.Disconnects (M : Nat) : Point → Prop
  | .waits k | .works _ k => k.Disconnects M
  | .ended _ => False

/-- A shutdown of the manager has come to the close of its connection, and is not yet done with that. -/
def State.Disconnects (M : Nat) (l : State) : Prop := ∃ i p, l.point? i = some p ∧ p.Disconnects M

def State.Sealed (M : Nat) (l : State) : Prop :=
  ∀ i p, l.point? i = some p → p.Disconnects M →
    l.Severs M p ∨ ∀ c ∈ l.alone, l.singleOf M = some c.id → c.handle ∈ l.engine.closes

def CloseFailed (M : Nat) (past : List State) : Prop :=
  ∃ z ∈ past, ∃ i e k, z.running = some ⟨i, .unit, .give (.error e), .push (.singleClosed M) k⟩

variable {may : {s : Shape} → State → Call s → Prop} {l l' m : State} {M t i : Nat} {u : Shape} {w : Work u}
  {n : Next u} {k : Stack u} {past : List State} {p q : Point} {c : Lease}

theorem Work.alone_subset (w : Work u) (l : State) : l.alone ⊆ (w.perform l).1.alone := by
  by_cases hb : w.Binds
  · cases w with
    | call => cases hb
    | back f o =>
      cases f with
      | singleOpened m d =>
        cases o with
        | error => cases hb
        | ok h =>
          dsimp only [Work.perform, resume, State.singleOpened]
          rw [((Tame.refl _).report _).toUnmoved.faithful.alone]
          simp [State.alone, State.addStandalone, State.modifyManager]
      | singleClosed m =>
        cases o with
        | error => cases hb
        | ok =>
          have hu := ((Tame.refl l).setLock m Access.Lock.release).toUnmoved.faithful.alone
          exact fun c hc => hu.symm ▸ hc
      | start c => cases u <;> cases o <;> cases hb
      | _ => cases hb
  · rw [(w.faithful hb l).alone]
    exact List.Subset.refl _

theorem Accounts.apt_or_hangs (ha : Accounts past l) (hr : l.running = some (w.on t k)) : w.Apt l ∨ w.Hangs := by
  rcases ha.apt _ _ (State.point?_at hr (ha.atWork _ hr)) with hapt | ⟨M, hsev⟩
  · exact .inl ((Work.apt_point t k).mp hapt).1
  · cases w with
    | call c =>
      change l.Severs M (.works (.call c) k) at hsev
      cases hsev
      exact .inr trivial
    | back f o =>
      change l.Severs M (.works (.give o) (.push f k)) at hsev
      cases hsev

theorem Accounts.lasts (ha : Accounts past l) (hs : l.Happens State.Offers l') :
    l.alone ⊆ l'.alone ∧ l.engine.closes ⊆ l'.engine.closes := by
  rcases hs.unmoved with ⟨t, u, w, k, hr, rfl⟩ | hst
  · have hst := State.carryOn_unmoved (w.perform l).1 t (w.perform l).2 k
    refine ⟨fun c hc => hst.faithful.alone ▸ w.alone_subset l hc, fun h hh => hst.closes ▸ ?_⟩
    exact ((w.parts (ha.apt_or_hangs hr) ha.sourced).closes h).mpr (.inl hh)
  · exact ⟨by rw [hst.faithful.alone]; exact List.Subset.refl _,
      by rw [hst.closes]; exact List.Subset.refl _⟩

theorem CloseFailed.snoc (h : CloseFailed M past) (m : State) : CloseFailed M (past ++ [m]) := by
  obtain ⟨z, hz, hr⟩ := h
  exact ⟨z, List.mem_append_left _ hz, hr⟩

theorem Work.disconnects_on (w : Work u) (t : Nat) (hk : k.Disconnects M) : (w.on t k).point.Disconnects M := by
  cases w with
  | call => exact hk
  | back f o => exact .inr hk

theorem Next.disconnects_point (n : Next u) (hk : k.Disconnects M) : (n.point k).Disconnects M := by
  cases n with
  | give | jump => exact hk
  | call | pause | again => exact .inr hk

theorem Next.Apt.disconnects (hn : n.Apt l) (hd : (n.point k).Disconnects M) : k.Disconnects M := by
  have frame : ∀ {s t : Shape} {f : Frame s t}, f.Apt l → ¬ f.Disconnects M := by
    intro s t f hf hd
    cases f <;> first | exact hd | exact hf
  cases n with
  | give | jump => exact hd
  | call c f => exact hd.resolve_left (frame hn.2)
  | pause _ f | again f => exact hd.resolve_left (frame hn)

theorem State.Severs.hangUp {h : Handle} {k : Stack .unit} (hs : l.Severs M (.works (.call (.hangUp h)) k)) :
    (∃ c ∈ l.alone, c.handle = h ∧ l.singleOf M = some c.id) ∧ k.Disconnects M := by
  cases hs with
  | asks _ hc hM => exact ⟨⟨_, hc, rfl, hM⟩, .inl rfl⟩

theorem State.Happens.disconnects_made (hs : l.Happens may l') (hl : l.AtWork) (hnone : l.point? i = none)
    (hp : l'.point? i = some p) : ¬ p.Disconnects M := by
  have spared : ∀ {S : Nat → Prop}, Spared S l l' → ¬ S i → ¬ p.Disconnects M := by
    intro S hsp hi
    rcases hsp i hi with he | ⟨_, c, hc⟩
    · cases (he.trans hnone).symm.trans hp
    · cases hc.symm.trans hp
      exact fun hd => hd.elim id id
  rcases hs.arrival with hl' | ⟨_, harr⟩
  · cases hl.stride hl' with
    | @works t u w k _ hr _ _ hsp =>
      refine spared hsp ?_
      rintro rfl
      have hat := State.point?_at hr (hl _ hr)
      rw [Work.on_task] at hat
      cases hnone.symm.trans hat
    | @ends t _ _ _ hr _ _ hsp =>
      refine spared hsp ?_
      rintro rfl
      cases hnone.symm.trans (State.point?_at hr (hl _ hr))
    | @goesOn t _ _ _ _ hat _ _ hsp =>
      refine spared hsp ?_
      rintro rfl
      cases hnone.symm.trans hat
    | rests _ _ hsp => exact spared hsp id
  · cases harr with
    | enters c _ hq hsp =>
      by_cases hi : i = l.tasks.length
      · cases (hi ▸ hq).symm.trans hp
        exact id
      · exact spared hsp hi
    | spawns c _ hq hsp =>
      by_cases hi : i = l.tasks.length
      · cases (hi ▸ hq).symm.trans hp
        exact fun hd => hd.elim id id
      · exact spared hsp hi
    | rests _ hsp => exact spared hsp id

theorem State.Disconnects.happens (h : l.Disconnects M) (hl : l.AtWork) (hs : l.Happens may l') :
    l'.Disconnects M ∨ ∃ i o k, l.running = some ((Work.back (.singleClosed M) o).on i k) := by
  obtain ⟨i, p, hp, hd⟩ := h
  obtain ⟨p', hp', hgets⟩ := hs.gets hl hp
  cases hgets with
  | stays | goesOn => exact .inl ⟨i, _, hp', hd⟩
  | ends => exact hd.elim
  | @works u w k hr _ =>
    cases w with
    | call => exact .inl ⟨i, _, hp', Next.disconnects_point _ hd⟩
    | back f o =>
      rcases hd with hf | hk
      · cases f with
        | singleClosed m =>
          cases hf
          exact .inr ⟨i, o, k, hr⟩
        | _ => cases hf
      · exact .inl ⟨i, _, hp', Next.disconnects_point _ hk⟩

namespace Accounts

variable (ha : Accounts past l)

include ha in
theorem disconnects (hs : l.Happens State.Offers l') (hp : l'.point? i = some p) (hd : p.Disconnects M) :
    (∃ q, l.point? i = some q ∧ q.Disconnects M) ∨ l'.Severs M p := by
  cases hq : l.point? i with
  | none => exact absurd hd (hs.disconnects_made ha.atWork hq hp)
  | some q =>
    obtain ⟨p', hp', hgets⟩ := hs.gets ha.atWork hq
    cases hp.symm.trans hp'
    cases hgets with
    | stays | goesOn => exact .inl ⟨_, rfl, hd⟩
    | ends => exact hd.elim
    | @works u w k hr he =>
      rcases (w.parts (ha.apt_or_hangs hr) ha.sourced).next with hn | hn
      · exact .inl ⟨_, rfl, w.disconnects_on i (hn.disconnects hd)⟩
      · obtain ⟨m, hsev⟩ : ∃ m, l'.Severs m ((w.perform l).2.point k) := by
          have ha' := ha.happens hs
          refine (ha'.apt i _ hp).elim (fun hapt => ?_) id
          subst he
          have hk : k.Apt ((w.perform l).1.carryOn i (w.perform l).2 k) := by
            generalize (w.perform l).1.carryOn i (w.perform l).2 k = x at hapt ⊢
            generalize (w.perform l).2 = n at hn hapt
            cases n with
            | call c f => exact hapt.2.2
            | _ => cases hn
          exact hn.point ha'.singled hk
        by_cases hm : m = M
        · exact .inr (hm ▸ hsev)
        · refine .inl ⟨_, rfl, w.disconnects_on i ?_⟩
          generalize (w.perform l).2 = n at hn hsev hd
          cases n with
          | call c f =>
            generalize hx : (Next.call c f).point k = x at hsev
            cases hsev
            cases hx
            exact hd.resolve_left hm
          | _ => cases hn

include ha in
theorem undisturbed_disconnects (hs : l.Happens State.Offers l') (hno : ¬ l.Disconnects M)
    (hb : l'.singleOf M = none ∨ l'.database? M = none) : ¬ l'.Disconnects M := by
  rintro ⟨i, p, hp, hd⟩
  rcases ha.disconnects hs hp hd with ⟨q, hq, hd⟩ | hsev
  · exact hno ⟨i, q, hq, hd⟩
  · cases hsev with
    | asks _ _ hM hdata =>
      rcases hb with hb | hb
      · cases hb.symm.trans hM
      · exact hdata hb

include ha in
theorem alone_same (hs : l.Happens State.Offers l') (hc : c ∈ l'.alone) {j : Nat} (hj : l.singleOf M = some j)
    (hi : j = c.id) : c ∈ l.alone := by
  obtain ⟨c₀, hc₀, rfl⟩ := ha.singled.held M j hj
  exact (ha.happens hs).singled.id_unique ((ha.lasts hs).1 hc₀) hc hi ▸ hc₀

include ha in
theorem seals (hs : l.Happens State.Offers l') (hseal : l.Sealed M)
    (hsame : ∀ j, l'.singleOf M = some j → l.singleOf M = some j) : l'.Sealed M := by
  intro i p' hp' hd'
  refine (ha.disconnects hs hp' hd').elim (fun ⟨p, hp, hd⟩ => .inr fun c hc hM => ?_) .inl
  have hold := hsame _ hM
  have hin := ha.alone_same hs hc hold rfl
  rcases hseal i p hp hd with hsev | hcl
  · cases hsev with
    | @asks c₀ k hk hc₀ hM₀ hdata =>
      have hr := ha.atWork.running_at hp
      have he := hs.works (w := .call (.hangUp c₀.handle)) hr
      have hst := State.carryOn_unmoved ((Work.call (.hangUp c₀.handle)).perform l).1 i
        ((Work.call (.hangUp c₀.handle)).perform l).2 (.push (.singleClosed M) k)
      rw [he, hst.closes, ← ha.singled.id_unique hc₀ hin (Option.some.inj (hM₀.symm.trans hold))]
      exact ((Work.parts (.call (.hangUp c₀.handle)) (.inr trivial) ha.sourced).closes _).mpr (.inr rfl)
  · exact (ha.lasts hs).2 (hcl c hin hold)

include ha in
theorem asks (hs : l.Happens State.Offers l') (hc : c ∈ l.alone) (hM : l.singleOf M = some c.id)
    (hold : c.handle ∉ l.engine.closes) (hnew : c.handle ∈ l'.engine.closes) :
    ∃ t k, l.running = some ⟨t, .unit, .call (.hangUp c.handle), k⟩ ∧
      l.Severs M (.works (.call (.hangUp c.handle)) k) := by
  rcases hs.unmoved with ⟨t, u, w, k, hr, he⟩ | hst
  · have hst := State.carryOn_unmoved (w.perform l).1 t (w.perform l).2 k
    rw [he, hst.closes] at hnew
    have hcl := (((w.parts (ha.apt_or_hangs hr) ha.sourced).closes _).mp hnew).resolve_left hold
    have hat := State.point?_at hr (ha.atWork _ hr)
    cases w with
    | back => cases hcl
    | call d =>
      cases d with
      | hangUp h =>
        cases hcl
        refine ⟨t, k, hr, ?_⟩
        rcases ha.apt _ _ hat with hapt | ⟨m, hsev⟩
        · exact absurd (List.mem_map_of_mem hc) (ha.apart hapt.1)
        · obtain ⟨c₀, hc₀, heq, hm⟩ := (State.Severs.hangUp (k := k) hsev).1
          cases Singled.handle_unique ha.handles_nodup hc₀ hc heq
          exact ha.singled.own M m c.id hM hm ▸ hsev
      | _ => cases hcl
  · exact absurd (hst.closes ▸ hnew) hold

include ha in
theorem closes_disconnects (hs : l.Happens State.Offers l') (hc : c ∈ l.alone) (hM : l.singleOf M = some c.id)
    (hold : c.handle ∉ l.engine.closes) (hnew : c.handle ∈ l'.engine.closes) : l'.Disconnects M := by
  obtain ⟨t, k, hr, hsev⟩ := ha.asks hs hc hM hold hnew
  exact ⟨t, _, hs.works_point (w := .call (.hangUp c.handle)) ha.atWork hr,
    Next.disconnects_point _ (State.Severs.hangUp hsev).2⟩

include ha in
theorem opens_new (hs : l.Happens State.Offers l') (hc : c ∈ l'.alone) (hM : l'.singleOf M = some c.id) :
    c ∈ l.alone ∧ l.singleOf M = some c.id ∨ c.handle ∉ l'.engine.closes := by
  rcases hs.unmoved with ⟨t, u, w, k, hr, he⟩ | hst
  · have hst := State.carryOn_unmoved (w.perform l).1 t (w.perform l).2 k
    rw [he, hst.faithful.alone] at hc
    rw [he, hst.faithful.single] at hM
    rw [he, hst.closes]
    by_cases hb : w.Binds
    · cases w with
      | call => cases hb
      | back f o =>
        have hat := State.point?_at hr (ha.atWork _ hr)
        cases f with
        | singleOpened m d =>
          cases o with
          | error => cases hb
          | ok h =>
            have hm : m < l.managers.length := (ha.apt_or_hangs hr).resolve_right id
            have hj := State.singleOpened_joined hm d h
            have hin : c ∈ l.alone ∨ c = ⟨l.nextConnection, h⟩ := by
              rw [← List.mem_singleton, ← List.mem_append, ← hj.alone]
              exact hc
            by_cases hmM : M = m
            · subst hmM
              have hid : l.nextConnection = c.id := Option.some.inj (hj.single.symm.trans hM)
              rcases hin with hc | rfl
              · exact absurd hid.symm (Nat.ne_of_lt (ha.singled.fresh c hc))
              · refine .inr fun hcl => ?_
                exact (ha.fresh hat (h := h) (by simp [Work.on, Running.point, Point.holds, Control.holds, arrived])
                  fun v o h => by cases h).2 (hj.closes ▸ hcl)
            · have hM : l.singleOf M = some c.id := (hj.others M hmM).symm.trans hM
              obtain ⟨c₀, hc₀, hid⟩ := ha.singled.held M c.id hM
              rcases hin with hc | rfl
              · exact .inl ⟨hc, hM⟩
              · exact absurd hid (Nat.ne_of_lt (ha.singled.fresh c₀ hc₀))
        | singleClosed m =>
          cases o with
          | error => cases hb
          | ok =>
            have hv := l.singleClosed_severed m
            by_cases hmM : M = m
            · subst hmM
              cases hv.single.symm.trans hM
            · exact .inl ⟨hv.alone ▸ hc, (hv.others M hmM).symm.trans hM⟩
        | start c => cases u <;> cases o <;> cases hb
        | _ => cases hb
    · have hf := w.faithful hb l
      exact .inl ⟨hf.alone ▸ hc, hf.single M ▸ hM⟩
  · exact .inl ⟨hst.faithful.alone ▸ hc, hst.faithful.single M ▸ hM⟩

end Accounts

theorem Course.undisturbed_disconnects {blank : State} (hc : Course State.Offers blank past m) (hblank : blank.Blank)
    (hnone : ∀ z ∈ past ++ [m], z.singleOf M = none) : ¬ m.Disconnects M := by
  induction hc with
  | start =>
    rintro ⟨i, p, hp, _⟩
    rw [State.point?_of_le (fun r h => nomatch hblank.running.symm.trans h) (by simp [hblank.tasks])] at hp
    cases hp
  | @step past m m' hc hs ih =>
    have hno := ih fun z hz => hnone z (List.mem_append_left _ hz)
    exact (hc.accounts hblank).undisturbed_disconnects hs hno
      (.inl (hnone m' (List.mem_append_right _ (List.mem_singleton_self m'))))

theorem State.singleClosed_bare (l : State) (M : Nat) :
    (l.singleClosed M (.ok ())).1.bare? M = (l.bare? M).map fun b => { pool := b.pool } := by
  have hu := ((Tame.refl l).setLock M Access.Lock.release).toUnmoved.bare M
  refine (State.bare?_modifyManager (g := fun k => { k with single := none, database := none }) fun _ => rfl).trans ?_
  rw [State.unlock, hu, State.bare?, Option.map_map, Option.map_map]
  rfl

end SqliteAccess.Loop
