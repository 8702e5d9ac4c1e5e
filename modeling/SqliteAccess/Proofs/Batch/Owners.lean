import SqliteAccess.Proofs.Access.Settling
import SqliteAccess.Proofs.Life.Accounts
import SqliteAccess.Proofs.Life.Governing

/-!
Whose connection a client's own statement runs on: whoever begins the statement has the connection, or is
inside a block that has, and keeps it until the engine is sent the statement.
-/

namespace SqliteAccess.Loop

open Access (Database Mode)
open Sql (Statement)
open SqliteAccess.Pool (Handle Lease)

inductive Point.Plans (h : Handle) : Point → Prop
  | plans (d : Database) (s : Statement) (m : Mode) :
      Point.Plans h (.waits (.push (.start (.run d h s m)) (.done .answer)))

inductive Point.Begins (h : Handle) : Point → Prop
  | starts (o : Outcome .unit) (d : Database) (s : Statement) (m : Mode) :
      Point.Begins h (.works (.give o) (.push (.start (.run d h s m)) (.done .answer)))
  | runs (d : Database) (s : Statement) (m : Mode) : Point.Begins h (.works (.call (.run d h s m)) (.done .answer))
  | sends (s : Statement) (d : Database) (sql : String) (m : Mode) (start : Float) :
      Point.Begins h (.works (.call (.send h s)) (.push (.ran d sql m start) (.done .answer)))

inductive Point.Keeps (h : Handle) : Point → Prop
  | keeps {c : Lease} : c.handle = h → Point.Keeps h (.ended (u := .borrowed) (.ok (some c)))

inductive Point.Owns (M : Nat) (h : Handle) : Point → Prop
  | keeps {q : Point} : q.Keeps h → Point.Owns M h q
  | inside {c : Lease} {fail : Bool} {k : Stack .sighting} : c.handle = h →
      Point.Owns M h (.waits (.push (.blockHeld M (some c) fail) k))

def Desk.Somebody (x : Desk) (P : Point → Prop) : Prop :=
  ∃ o q, o ∉ x.returned ∧ x.loop.point? o = some q ∧ P q

structure Desk.Entitled (M : Nat) (x : Desk) : Prop where
  plans : ∀ i q h, x.loop.point? i = some q → q.Plans h → x.Somebody (Point.Keeps h)
  begins : ∀ i q h, x.loop.point? i = some q → q.Begins h → x.Somebody (Point.Owns M h)

variable {M t i : Nat} {way : Route} {l l' : State} {u : Shape} {w : Work u} {k : Stack u} {n : Next u}
  {d : Call u} {c : Lease} {x y : Desk} {q q' : Point} {h : Handle} {S : Nat → Prop} {careless : Prop}

theorem Work.Exchanges.continues (hx : w.Exchanges) (hw : w.PartOf M .single d) (hk : k.Bears M .single d)
    (l : State) : (w.perform l).2.Continues M .single d := by
  cases w with
  | call e =>
    cases e with
    | lock m =>
      cases hw
      obtain rfl : m = M := by
        cases hk with
        | done hs => cases hs
        | push hf _ => cases hf <;> rfl
      simp only [Work.perform, begin, State.lock]
      split
      · exact .give _ _
      · split
        · exact .give _ _
        · exact .pause .letIn
    | _ => cases hx
  | back f o =>
    cases f with
    | leased => exact .give _ _
    | letIn m => cases o <;> exact .give _ _
    | lockedToUse m =>
      cases o with
      | error e => exact .give _ _
      | ok _ =>
        simp only [Work.perform, resume, State.lockedToUse]
        split
        · exact .give _ _
        · exact .give _ _
    | lockedToClose m =>
      cases o with
      | error e => exact .give _ _
      | ok _ =>
        cases hw with
        | back _ hf =>
          cases hf with
          | paused hf => cases hf
          | called hf =>
            cases hf
            simp only [Work.perform, resume, State.lockedToClose]
            split
            · exact .call (.singleClosed _)
            · exact .give _ _
    | singleClosed m => cases o <;> exact .give _ _
    | _ => cases hx

theorem Desk.Managed.continues (hm : x.Managed careless M way) (hr : x.loop.running = some (w.on t k))
    (hw : w.PartOf M way d) (hk : k.Bears M way d) : (w.perform x.loop).2.Continues M way d := by
  cases hm with
  | pool hm =>
    obtain ⟨_, _, _, hn, _⟩ := hm.toGrounded.performs hr hw hk fun a hret => by
      refine (hm.used (t := t) ?_).check
      rw [hm.lease_on hr, hret.lease]
      rfl
    exact hn
  | single hm =>
    by_cases hx : w.Exchanges
    · exact hx.continues hw hk x.loop
    · rcases Work.perform_does hw hk hm.manager (hw.unpooled hk) hx with hd | ⟨lease, hg⟩
      · exact hd.deed.continues hw
      · obtain ⟨o, ho⟩ := hg.next
        rw [ho]
        exact .give o d

theorem Next.Continues.begins (hn : (w.perform l).2.Continues M way d) (hw : w.PartOf M way d)
    (hk : k.Bears M way d) (hq : ((w.perform l).2.point k).Begins h) : (w.on t k).point.Begins h := by
  generalize hp : (w.perform l).2 = n at hn hq
  have hrun : ∀ {e : Database} {z : Statement} {m : Mode} {w : Work .answer} {k : Stack .answer} {n : Next .answer},
      w.PartOf M way (.run e h z m) → k = .done .answer → (w.perform l).2 = n → (∀ o, n ≠ .give o) →
      (w.on t k).point.Begins h := by
    rintro e z m w k n hw rfl hp hne
    cases hw with
    | call => exact .runs e z m
    | back o hf =>
      cases hf with
      | start => exact .starts o e z m
      | called hf =>
        cases hf
        cases o <;> exact absurd hp.symm (hne _)
      | paused hf => cases hf
  cases n with
  | give o =>
    cases hq
    cases hk with
    | push hf _ => cases hf
  | pause | again => cases hq
  | jump c =>
    generalize hc : (Next.jump c).point k = q at hq
    cases hq with
    | starts => cases hc
    | runs =>
      cases hc
      cases hn with
      | jump => exact hrun hw rfl hp (by simp)
    | sends =>
      cases hc
      cases hn with
      | jump =>
        cases hw with
        | call =>
          simp only [Work.perform, begin, State.send] at hp
          split at hp
          · cases hp
          · cases hp
        | back o hf =>
          cases hf with
          | start hs => cases hs
          | called hf => cases hf
          | paused hf =>
            cases hf
            cases o <;> cases hp
  | call c f =>
    generalize hc : (Next.call c f).point k = q at hq
    cases hq with
    | starts | runs => cases hc
    | sends =>
      cases hc
      cases hn with
      | call hf =>
        cases hf
        exact hrun hw rfl hp (by simp)

theorem Desk.Keeps.point {t : Nat} (hk : x.Keeps t c) (hr : x.loop.running = none) :
    x.loop.point? t = some (.ended (u := .borrowed) (.ok (some c))) := by
  obtain ⟨_, y, hy, hs⟩ := hk
  rw [State.point?_idle hr, hy, Option.bind_some, hs]
  rfl

theorem Desk.Managed.returned_ended (hm : x.Managed careless M way) (hi : i ∈ x.returned) :
    ∃ (v : Shape) (o : Outcome v), x.loop.point? i = some (.ended o) := by
  obtain ⟨y, v, o, hy, hs⟩ : ∃ (y : Task) (v : Shape) (o : Outcome v), x.loop.tasks[i]? = some y ∧
      y.status = .finished v o := by
    cases hm with
    | pool hm =>
      obtain ⟨v, o, y, hy, hs⟩ := hm.ended i hi
      exact ⟨y, v, o, hy, hs⟩
    | single hm => exact hm.returned i hi
  exact ⟨v, o, by simp [State.point?, hy, hs, Status.point?]⟩

theorem Desk.Managed.planned (hm : x.Managed careless M way) (hr : x.loop.running = none)
    (hp : x.loop.point? i = some q) (hq : q.Plans h) : ¬ x.Unplanned h := by
  intro hun
  cases hq with
  | plans d s m =>
    rw [State.point?_idle hr] at hp
    obtain ⟨y, hy, hp⟩ := Option.bind_eq_some_iff.mp hp
    have hc := hm.tended.tasks i y hy
    generalize hys : y.status = z at hp hc
    cases z with
    | ready signal st =>
      cases hp
      exact hun i y signal d s m hy hys
    | paused b st =>
      cases hp
      cases hc with | paused hf _ => cases hf
    | running | finished => cases hp

theorem Point.Owns.idle (ho : q.Owns M h) {u : Shape} (z : Control u) (k : Stack u) : q ≠ .works z k := by
  rintro rfl
  cases ho with
  | keeps hk => cases hk

theorem Point.Begins.working (hl : l.running = none) (hp : l.point? i = some q) : ¬ q.Begins h := by
  have none : ∀ {u : Shape} {z : Control u} {k : Stack u}, l.point? i ≠ some (.works z k) := by
    intro u z k hp
    obtain ⟨r, hr, _⟩ := State.point?_works hp
    cases hl.symm.trans hr
  intro hq
  cases hq <;> exact none hp

theorem Spared.before (hs : Spared S l l') (hi : ¬ S i) (hp : l'.point? i = some q)
    (hq : q.Plans h ∨ q.Begins h) : l.point? i = some q := by
  rcases hs i hi with he | ⟨_, c, hc⟩
  · exact he.symm.trans hp
  · cases hc.symm.trans hp
    rcases hq with hq | hq <;> cases hq

theorem Spared.somebody {P : Point → Prop} (hs : Spared S x.loop l') (hx : x.loop.AtWork)
    (hS : ∀ o q, x.loop.point? o = some q → P q → ¬ S o) (h : x.Somebody P) (past : List State) :
    Desk.Somebody ⟨l', x.returned, past⟩ P := by
  obtain ⟨o, q, ho, hp, hq⟩ := h
  exact ⟨o, q, ho, hs.point hx (hS o q hp hq) hp, hq⟩

namespace Desk.Entitled

variable (he : x.Entitled M) (hm : x.Managed False M way)

include he hm in
theorem spared (hr : x.loop.running = none) (hs : Spared S x.loop l')
    (hS : ∀ o q, x.loop.point? o = some q → ¬ S o)
    (hnew : ∀ i q h, S i → l'.point? i = some q → (q.Plans h → x.Somebody (Point.Keeps h)) ∧
      (q.Begins h → x.Somebody (Point.Owns M h))) (past : List State) : Desk.Entitled M ⟨l', x.returned, past⟩ := by
  have hat := hm.tended.atWork
  have keep : ∀ {P : Point → Prop}, x.Somebody P → Desk.Somebody ⟨l', x.returned, past⟩ P := fun h =>
    hs.somebody hat (fun o q hp _ => hS o q hp) h past
  refine ⟨fun i q h hp hq => keep ?_, fun i q h hp hq => keep ?_⟩
  · by_cases hi : S i
    · exact (hnew i q h hi hp).1 hq
    · exact he.plans i q h (hs.before hi hp (.inl hq)) hq
  · by_cases hi : S i
    · exact (hnew i q h hi hp).2 hq
    · exact absurd hq (Point.Begins.working hr (hs.before hi hp (.inr hq)))

include he hm in
theorem loop (hl : x.loop.step? = some l') (past : List State) : Desk.Entitled M ⟨l', x.returned, past⟩ := by
  have hat := hm.tended.atWork
  -- Whoever has a connection is not at work, and so none of those that take the step.
  have apart : ∀ {t : Nat} {q₀ : Point} {P : Point → Prop}, Spared (· = t) x.loop l' → x.loop.point? t = some q₀ →
      ¬ P q₀ → x.Somebody P → Desk.Somebody ⟨l', x.returned, past⟩ P := by
    intro t q₀ P hs hnow hP h
    refine hs.somebody hat (fun o q hp hq ho => ?_) h past
    subst ho
    cases hp.symm.trans hnow
    exact hP hq
  cases hm.stride hl with
  | @works t u w k _ hr _ hpt hs =>
    have hnow := State.point?_at hr (hat _ hr)
    rw [Work.on_task] at hnow
    obtain ⟨d, hw, hk⟩ := hm.tended.work hr
    have hn := hm.continues hr hw hk
    have howns : ∀ h, ¬ (w.on t k).point.Owns M h := fun h ho => ho.idle _ _ rfl
    refine ⟨fun i q h hp hq => apart hs hnow (fun hkeeps => howns h (.keeps hkeeps)) ?_,
      fun i q h hp hq => apart hs hnow (howns h) ?_⟩
    · by_cases hi : i = t
      · subst hi
        cases hpt.symm.trans hp
        generalize (w.perform x.loop).2 = n at hn hq
        cases n with
        | give | call | jump => cases hq
        | pause | again =>
          cases hq
          cases hn with | _ hf => cases hf
      · exact he.plans i q h (hs.before hi hp (.inl hq)) hq
    · by_cases hi : i = t
      · subst hi
        cases hpt.symm.trans hp
        exact he.begins i _ h hnow (hn.begins hw hk hq)
      · exact he.begins i q h (hs.before hi hp (.inr hq)) hq
  | @ends t u o _ hr hr' hpt hs =>
    have hnow := State.point?_at hr (hat _ hr)
    refine ⟨fun i q h hp hq => apart hs hnow nofun ?_, fun i q h hp hq => ?_⟩
    · by_cases hi : i = t
      · subst hi
        cases hpt.symm.trans hp
        cases hq
      · exact he.plans i q h (hs.before hi hp (.inl hq)) hq
    · exact absurd hq (Point.Begins.working hr' hp)
  | @goesOn t o k _ hr hnow hr' hpt hs =>
    have hkept : ∀ {i : Nat} {q : Point} {h : Handle}, x.loop.point? i = some q → q.Plans h →
        Desk.Somebody ⟨l', x.returned, past⟩ (Point.Keeps h) := fun hp hq =>
      apart hs hnow nofun (he.plans _ _ _ hp hq)
    refine ⟨fun i q h hp hq => ?_, fun i q h hp hq => ?_⟩
    · by_cases hi : i = t
      · subst hi
        cases hpt.symm.trans hp
        cases hq
      · exact hkept (hs.before hi hp (.inl hq)) hq
    · by_cases hi : i = t
      · subst hi
        cases hpt.symm.trans hp
        cases hq with
        | starts o d s m =>
          obtain ⟨o', q', ho', hp', hq'⟩ := hkept hnow (.plans d s m)
          exact ⟨o', q', ho', hp', .keeps hq'⟩
      · exact absurd hq (Point.Begins.working hr (hs.before hi hp (.inr hq)))
  | rests hr hr' hs => exact he.spared hm hr hs (fun _ _ _ => id) (fun _ _ _ hi => hi.elim) past

end Desk.Entitled

theorem Desk.Step.entitled (hst : x.Step M way False y) (hm : x.Managed False M way) (he : x.Entitled M) :
    y.Entitled M := by
  have old : ∀ (o : Nat) (q : Point), x.loop.point? o = some q → o ≠ x.loop.tasks.length := by
    rintro o q hp rfl
    rw [State.point?_of_le (fun r hr => hm.tended.atWork.lt hr) (Nat.le_refl _)] at hp
    cases hp
  have keeps : ∀ {t : Nat} {c : Lease}, x.loop.running = none → x.Keeps t c → x.Somebody (Point.Keeps c.handle) :=
    fun hr hk => ⟨_, _, hk.1, hk.point hr, .keeps rfl⟩
  -- A client makes a call, at once or in a task of its own.
  have enters : ∀ {u : Shape} (c : Call u), x.loop.running = none →
      (∀ h, Point.Begins h (.works (.call c) (.done u)) → x.Somebody (Point.Owns M h)) →
      Desk.Entitled M ⟨x.loop.enter c, x.returned, x.past⟩ := by
    intro u c hr hc
    cases State.enter_arrival hr c with
    | enters c' hr' hpt hs =>
      cases hr'
      refine he.spared hm hr hs old (fun i q h hi hp => ?_) x.past
      subst hi
      cases hpt.symm.trans hp
      exact ⟨nofun, hc h⟩
    | spawns _ hr' | rests hr' => cases hr'
  have spawns : ∀ {u : Shape} (c : Call u), x.loop.running = none →
      (∀ h, Point.Plans h (.waits (.push (.start c) (.done u))) → x.Somebody (Point.Keeps h)) →
      Desk.Entitled M ⟨(x.loop.spawn c []).1, x.returned, x.past⟩ := by
    intro u c hr hc
    have hr₁ : (x.loop.spawn c []).1.running = none := hr
    have hpt : (x.loop.spawn c []).1.point? x.loop.tasks.length = some (.waits (.push (.start c) (.done u))) := by
      simp [State.point?, State.spawn, State.enqueue, Status.point?]
    cases State.spawn_arrival hr c with
    | enters _ hr' => cases hr₁.symm.trans hr'
    | spawns c' _ _ hs =>
      refine he.spared hm hr hs old (fun i q h hi hp => ?_) x.past
      subst hi
      cases hpt.symm.trans hp
      exact ⟨hc h, fun hq => absurd hq (Point.Begins.working hr₁ hpt)⟩
    | rests _ hs => exact he.spared hm hr hs (fun _ _ _ => id) (fun _ _ _ hi => hi.elim) x.past
  have quiet : ∀ {l' : State}, x.loop.running = none → Undisturbed x.loop l' →
      Desk.Entitled M ⟨l', x.returned, x.past⟩ := fun hr hu =>
    he.spared hm hr hu.spared (fun _ _ _ => id) (fun _ _ _ hi => hi.elim) x.past
  cases hst with
  | loop hl => exact he.loop hm hl _
  | enter hr hc =>
    refine enters _ hr fun h hq => ?_
    cases hq with | runs => cases hc
  | spawn hr hc =>
    refine spawns _ hr fun h hq => ?_
    cases hq with | plans => cases hc
  | @runs t c d s m hr hc =>
    refine enters _ hr fun h hq => ?_
    cases hq with
    | runs =>
      rcases hc.resolve_left id with hk | ⟨z, fail, st, hz, hzs⟩
      · obtain ⟨o, q, ho, hp, hq⟩ := keeps hr hk
        exact ⟨o, q, ho, hp, .keeps hq⟩
      · have hpt : x.loop.point? t = some (.waits (.push (.blockHeld M (some c) fail) st)) := by
          rw [State.point?_idle hr, hz, Option.bind_some, hzs]
          rfl
        refine ⟨t, _, fun hin => ?_, hpt, .inside rfl⟩
        obtain ⟨_, _, hend⟩ := hm.returned_ended hin
        cases hpt.symm.trans hend
  | plans d s m hr hk =>
    refine spawns _ hr fun h hq => ?_
    cases hq with | plans => exact keeps hr (hk.resolve_left id)
  | @giveBack t c hr hk hun =>
    have hu := x.loop.giveBack_undisturbed M (some c)
    refine ⟨fun i q h hp hq => ?_, fun i q h hp hq =>
      absurd hq (Point.Begins.working (hu.running.trans hr) hp)⟩
    have hpt := hu.spared.before id hp (.inl hq)
    obtain ⟨o, q', ho, hp', hq'⟩ := he.plans i q h hpt hq
    have hot : o ≠ t := by
      rintro rfl
      cases hp'.symm.trans (hk.point hr)
      cases hq' with
      | keeps hh => exact hm.planned hr hpt (hh ▸ hq) (hun.resolve_left id)
    exact ⟨o, q', by simp [hot, ho], hu.spared.point hm.tended.atWork id hp', hq'⟩
  | cancel t hr =>
    obtain ⟨hr', hn⟩ := x.loop.cancelWithin_undisturbed t x.loop.tasks.length
    exact quiet hr (.nudged hr' hn)
  | @answer t _ _ hr =>
    have hu : Undisturbed x.loop (x.loop.modifyEngine fun e => e.letGo t) := .of_eq rfl rfl
    exact quiet hr (hu.wake rfl t none)
  | engine _ _ _ hr | tick _ hr => exact quiet hr (.of_eq rfl rfl)
  | forget hc | release _ hc | destroy _ hc => exact hc.elim

theorem State.Idle.point (hl : l.Idle) (hp : l.point? i = some q) :
    ∃ (v : Shape) (o : Outcome v), q = .ended o := by
  rw [State.point?_idle hl.1] at hp
  obtain ⟨y, hy, hp⟩ := Option.bind_eq_some_iff.mp hp
  obtain ⟨⟨v, o, hs⟩, _⟩ := hl.2 i y hy
  rw [hs] at hp
  exact ⟨v, o, (Option.some.inj hp).symm⟩

theorem State.Reaches.entitled (h : l.Reaches M way False x) : x.Entitled M := by
  refine h.induct (P := fun x => x.Entitled M) ⟨fun i q h' hp hq => ?_, fun i q h' hp hq => ?_⟩
    fun x y hm he hst => hst.entitled hm he
  · obtain ⟨_, _, rfl⟩ := h.idle.point hp
    cases hq
  · obtain ⟨_, _, rfl⟩ := h.idle.point hp
    cases hq

end SqliteAccess.Loop
