import SqliteAccess.Proofs.Access.Desk
import SqliteAccess.Proofs.Life.Handover

/-!
Nobody runs a statement on a handle before it has been prepared, and a handle that could not be prepared gets to
nobody.
-/

namespace SqliteAccess.Loop

open SqliteAccess.Pool (Handle Lease)

variable {may may' : {s : Shape} → State → Call s → Prop} {H : Handle → List Mark} {l l' m : State} {h g : Handle}
  {c : Lease} {u : Shape} {w : Work u} {k : Stack u} {t i : Nat} {past : List State} {q q' : Point}

inductive Begun (may : {s : Shape} → State → Call s → Prop) (l : State) : Point → Prop
  | calls {s : Shape} {c : Call s} : may l c → Begun may l (.works (.call c) (.done s))
  | makes {s : Shape} {c : Call s} : may l c → Begun may l (.waits (.push (.start c) (.done s)))
  | forPool {c : Call .unit} : c.Housekeeps → Begun may l (.waits (.push (.start c) (.done .unit)))

theorem State.Happens.mono (hs : l.Happens may l') (hm : ∀ {s : Shape} (c : Call s), may l c → may' l c) :
    l.Happens may' l' := by
  cases hs with
  | loop hl => exact .loop hl
  | enter hr hc => exact .enter hr (hm _ hc)
  | spawn hr hc => exact .spawn hr (hm _ hc)
  | giveBack M c hr => exact .giveBack M c hr
  | cancel t hr => exact .cancel t hr
  | answer hr ht hk => exact .answer hr ht hk
  | engine rules openings closings hr => exact .engine rules openings closings hr
  | tick now hr => exact .tick now hr

theorem Placid.housekeeps (h : Placid l m) (hi : l.tasks.length ≤ i) {p : Point}
    (hp : (m.tasks[i]?).bind (fun k => k.status.point?) = some p) :
    ∃ c : Call .unit, c.Housekeeps ∧ p = .waits (.push (.start c) (.done .unit)) := by
  obtain ⟨y, hy, hp⟩ := Option.bind_eq_some_iff.mp hp
  obtain ⟨c, hc, hs⟩ := h.made i y hi hy
  rw [hs] at hp
  exact ⟨c, hc, (Option.some.inj hp).symm⟩

theorem State.Happens.made (hs : l.Happens may l') (hl : l.AtWork) (hi : l.tasks.length ≤ i)
    (hq : l'.point? i = some q') : Begun may l q' := by
  have kept : ∀ {m : State}, Placid l m → (m.tasks[i]?).bind (fun k => k.status.point?) = some q' → Begun may l q' := by
    intro m hm hp
    obtain ⟨c, hc, rfl⟩ := hm.housekeeps hi hp
    exact .forPool hc
  rcases hs.cases with hstep | ⟨hr, ⟨s, c, hc, hl'⟩ | ht⟩
  · cases State.step_turn hstep with
    | @works t u w k hr =>
      have hlt := hl.lt hr
      rw [Work.on_task] at hlt
      rw [State.carryOn_point_of_ne _ _ (show t ≠ i by omega)] at hq
      exact kept (w.placid l) hq
    | @ends t u o _ hr ht =>
      rw [State.point?_idle ht.undisturbed.running] at hq
      obtain ⟨c, hc, rfl⟩ := ht.toPlacid.housekeeps (by simpa [State.lay, State.modifyTask] using hi) hq
      exact .forPool hc
    | @goesOn t _ _ _ _ hr hres =>
      have hlt : t < l.tasks.length := (List.getElem?_eq_some_iff.mp hres.task).1
      rw [State.point?_of_ne hres.running (show t ≠ i by omega), hres.tasks,
        List.getElem?_eq_none (by simpa using hi)] at hq
      cases hq
    | rests hr ht =>
      rw [State.point?_idle (ht.undisturbed.running.trans hr)] at hq
      exact kept ht.toPlacid hq
  · by_cases hi' : i = l.tasks.length
    · subst hi'
      rcases hl' with rfl | rfl
      · have hp : (l.enter c).point? l.tasks.length = some (.works (.call c) (.done s)) := by
          simp [State.enter, State.point?, Status.point?, Running.point]
        cases hp.symm.trans hq
        exact .calls hc
      · have hr' : (l.spawn c []).1.running = none := hr
        have hp : (l.spawn c []).1.point? l.tasks.length = some (.waits (.push (.start c) (.done s))) := by
          rw [State.point?_idle hr']
          simp [State.spawn, State.enqueue, Status.point?]
        cases hp.symm.trans hq
        exact .makes hc
    · have hle : l'.tasks.length ≤ i := by
        rcases hl' with rfl | rfl <;> simp [State.enter, State.spawn, State.enqueue] <;> omega
      have hlt : ∀ r, l'.running = some r → r.task < l'.tasks.length := by
        rcases hl' with rfl | rfl
        · intro r hr'
          cases hr'
          simp [State.enter]
        · exact fun r hr' => by cases hr.symm.trans hr'
      rw [State.point?_of_le hlt hle] at hq
      cases hq
  · rw [State.point?_idle (ht.undisturbed.running.trans hr)] at hq
    exact kept ht.toPlacid hq

theorem State.Happens.came (hs : l.Happens may l') (hl : l.AtWork) (hq : l'.point? i = some q') :
    (∃ q, l.point? i = some q ∧ Gets i l l' q q') ∨ l.tasks.length ≤ i ∧ Begun may l q' := by
  cases hat : l.point? i with
  | some q =>
    obtain ⟨p, hp, hg⟩ := hs.gets hl hat
    cases hp.symm.trans hq
    exact .inl ⟨q, rfl, hg⟩
  | none =>
    -- Only a task that has just been made can be where none was.
    have spared : ∀ {S : Nat → Prop}, Spared S l l' → ¬ S i → l.tasks.length ≤ i ∧ Begun may l q' := by
      intro S hsp hi
      rcases hsp i hi with he | ⟨hle, _⟩
      · exact nomatch (he.trans hat).symm.trans hq
      · exact ⟨hle, hs.made hl hle hq⟩
    refine .inr ?_
    rcases hs.cases with hstep | ⟨hr, ⟨s, c, hc, hl'⟩ | ht⟩
    · cases hl.stride hstep with
      | @works t u w k _ hr _ _ hsp =>
        have hx := State.point?_at hr (hl _ hr)
        rw [Work.on_task] at hx
        exact spared hsp fun hi => nomatch (hi ▸ hat).symm.trans hx
      | @ends t _ _ _ hr _ _ hsp =>
        exact spared hsp fun hi => nomatch (hi ▸ hat).symm.trans (State.point?_at hr (hl _ hr))
      | @goesOn t _ _ _ _ hx _ _ hsp => exact spared hsp fun hi => nomatch (hi ▸ hat).symm.trans hx
      | rests _ _ hsp => exact spared hsp id
    · by_cases hi : l.tasks.length ≤ i
      · exact ⟨hi, hs.made hl hi hq⟩
      · have hne : i ≠ l.tasks.length := fun he => hi he.ge
        rcases hl' with rfl | rfl
        · cases State.enter_arrival hr c with
          | enters _ _ _ hsp | spawns _ _ _ hsp => exact spared hsp hne
          | rests _ hsp => exact spared hsp id
        · cases State.spawn_arrival hr c with
          | enters _ _ _ hsp | spawns _ _ _ hsp => exact spared hsp hne
          | rests _ hsp => exact spared hsp id
    · exact spared (fun i _ => ht.undisturbed.spared i id) (S := fun _ => False) id

theorem Begun.primed (hb : Begun State.Serves l q) : q.Primed H l := by
  have call : ∀ {s : Shape} {c : Call s}, l.Serves c → c.Primed l (.done s) := by
    intro s c hc
    cases c <;> trivial
  cases hb with
  | calls hc => exact ⟨call hc, trivial⟩
  | makes hc => exact ⟨⟨call hc, rfl⟩, trivial⟩
  | forPool hc => exact ⟨⟨by cases hc <;> trivial, rfl⟩, trivial⟩

theorem State.Serves.offers {s : Shape} {c : Call s} (hc : l.Serves c) : l.Offers c := by
  cases c <;> trivial

theorem State.Pauses.marks (hq : l.Pauses) (h : Handle) : l.marks h = [] := by
  rcases hq with hr | ⟨t, v, o, hr⟩
  · rw [State.marks, hr]
  · rw [State.marks, hr]
    cases o <;> rfl

theorem State.Happens.pauses (hs : l.Happens may l') :
    (∃ (t : Nat) (u : Shape) (w : Work u) (k : Stack u), l.running = some (w.on t k)) ∨
      l.Pauses ∧ Restocks l l' ∧ Unmoved l l' := by
  have hunmoved := hs.unmoved
  rcases hs.restocks with hw | hr
  · exact .inl hw
  · rcases hunmoved with ⟨t, u, w, k, hw, _⟩ | hu
    · exact .inl ⟨t, u, w, k, hw⟩
    · cases hr' : l.running with
      | none => exact .inr ⟨.inl hr', hr, hu⟩
      | some r =>
        rcases r.cases_on with ⟨u, w, k, he⟩ | ⟨u, o, he⟩
        · exact .inl ⟨r.task, u, w, k, congrArg some he⟩
        · exact .inr ⟨.inr ⟨r.task, u, o, hr'.trans (congrArg some he)⟩, hr, hu⟩

theorem Unmoved.opened (hs : Unmoved l m) : m.engine.opened = l.engine.opened := congrArg Prod.snd hs.outer

theorem Work.opened_le (w : Work u) (l : State) : l.engine.opened ≤ (w.perform l).1.engine.opened := by
  by_cases hw : w.Singular
  · have dial : ∀ (fault : Option Fault) (e : Engine.State), e.opened = l.engine.opened →
        l.engine.opened ≤ (({ l with engine := e } : State).endDial fault).1.engine.opened := by
      intro fault e he
      cases fault with
      | some => exact he.ge
      | none => exact he.ge.trans (Nat.le_succ _)
    have single : ∀ M, l.engine.opened ≤ (l.shutSingle M).1.engine.opened := by
      intro M
      unfold State.shutSingle
      split
      · exact Nat.le_refl _
      · split <;> exact Nat.le_refl _
    have unlock : ∀ M, (l.unlock M).engine.opened = l.engine.opened := fun M =>
      ((Tame.refl l).setLock M Access.Lock.release).toUnmoved.opened
    cases w with
    | call c =>
      cases c with
      | askOpen =>
        simp only [Work.perform, begin, State.askOpen]
        split <;> exact Nat.le_refl _
      | dial d =>
        have ho := (l.engine.record (.open d.location.filename d.timeout)).nextOpening_spec.2.1
        simp only [Work.perform, begin, State.dial]
        split
        · exact ho.ge
        · exact dial _ _ ho
      | hangUp h => exact (l.hangUp_opened h).ge
      | openSlot p =>
        simp only [Work.perform, begin, State.openSlot]
        split
        · exact Nat.le_refl _
        · split <;> exact Nat.le_refl _
      | destroy p id =>
        simp only [Work.perform, begin, State.destroy]
        split
        · exact Nat.le_refl _
        · split <;> exact Nat.le_refl _
      | setUp M location reach =>
        simp only [Work.perform, begin, State.setUp]
        split
        · rw [State.report_engine]
        · exact Nat.le_refl _
        · split
          · exact Nat.le_refl _
          · split
            · exact Nat.le_refl _
            · rw [State.usePool, State.report_engine]
              exact Nat.le_refl _
      | shutDown M =>
        simp only [Work.perform, begin, State.shutDown]
        split
        · exact Nat.le_refl _
        · exact single M
      | bootstrap url =>
        simp only [Work.perform, begin, State.bootstrap]
        split <;> exact Nat.le_refl _
      | _ => cases hw
    | back f o =>
      cases f with
      | start c => cases o <;> exact Nat.le_refl _
      | askedOpen => exact Nat.le_refl _
      | dialled fault =>
        cases o with
        | error => exact Nat.le_refl _
        | ok => exact dial fault l.engine rfl
      | connected d pooled => cases o <;> exact Nat.le_refl _
      | foreignKeysSet d h pooled =>
        cases o with
        | error => exact Nat.le_refl _
        | ok =>
          cases pooled with
          | true => exact Nat.le_refl _
          | false => exact (congrArg Engine.State.opened (State.report_engine l _)).ge
      | journalSet d h =>
        cases o with
        | error => exact Nat.le_refl _
        | ok => exact (congrArg Engine.State.opened (State.report_engine l _)).ge
      | registering p =>
        cases o with
        | error => exact Nat.le_refl _
        | ok h =>
          simp only [Work.perform, resume, State.registering]
          split
          · exact Nat.le_refl _
          · rw [State.report_engine]
            exact Nat.le_refl _
      | singleOpened M d =>
        cases o with
        | error => exact Nat.le_refl _
        | ok h =>
          simp only [Work.perform, resume, State.singleOpened]
          rw [State.report_engine]
          exact Nat.le_refl _
      | poolShut M =>
        cases o with
        | error => exact Nat.le_refl _
        | ok => exact single M
      | lockedToClose M =>
        cases o with
        | error => exact Nat.le_refl _
        | ok =>
          simp only [Work.perform, resume, State.lockedToClose]
          split
          · exact Nat.le_refl _
          · exact (unlock M).ge
      | singleClosed M => cases o <;> exact (unlock M).ge
      | _ => cases hw
  · exact (w.mild hw l).tame.toUnmoved.opened.ge

theorem Stack.Sends.held {v : Shape} {f : Frame .cursor v} {k : Stack v} (hk : (Stack.push f k).Sends l g) :
    f.holds g ≠ 0 ∨ g ∈ l.registered := by
  cases f with
  | foreignKeysSet | journalSet =>
    cases hk
    exact .inl (by simp [Frame.holds])
  | _ => exact .inr hk

theorem Work.marks_held (hp : w.Primed H l k) (hm : w.marks g ≠ []) :
    w.holds g + k.holds g ≠ 0 ∨ g ∈ l.registered := by
  cases w with
  | call c =>
    cases c with
    | send h s =>
      have hg : h = g := by_contra fun hne => hm (if_neg hne)
      subst hg
      cases k with
      | done => exact .inr hp
      | push f k => exact (Stack.Sends.held hp).imp_left fun hf => by rw [Stack.holds]; omega
    | _ => exact absurd rfl hm
  | back f o =>
    cases f with
    | foreignKeysSet d h pooled | journalSet d h =>
      cases o with
      | error => exact absurd rfl hm
      | ok =>
        have hg : h = g := by_contra fun hne => hm (if_neg hne)
        exact .inl (by simp [Work.holds, Frame.holds, hg])
    | _ => cases o <;> exact absurd rfl hm

theorem Next.marks_held {n : Next u} (hn : n.Primed H l k) (hm : n.marks g ≠ []) :
    n.holds g ≠ 0 ∨ g ∈ l.registered := by
  cases n with
  | call c f =>
    cases c with
    | send h s =>
      have hg : h = g := by_contra fun hne => hm (if_neg hne)
      subst hg
      exact Stack.Sends.held hn.1
    | _ => exact absurd rfl hm
  | _ => exact absurd rfl hm

structure Primed (past : List State) (l : State) : Prop where
  accounts : Accounts past l
  stocked : l.Stocked
  points : ∀ i q, l.point? i = some q → q.Primed (history past) l
  pooled : ∀ c ∈ l.pooled, preparation true <+: history past c.handle
  single : ∀ c ∈ l.alone, preparation false <+: history past c.handle
  fresh : ∀ i, l.engine.opened < i → history past (.numbered i) = []

namespace Primed

variable (hp : Primed past l)

include hp in
theorem held (hr : l.running = some (w.on t k)) (g : Handle) :
    w.holds g + k.holds g + l.registered.count g ≤ l.given g := by
  have hat := State.point?_at hr (hp.accounts.atWork _ hr)
  have hle := State.handOf_le hp.accounts.atWork g (w.on t k).task
  have hcounts := hp.accounts.counts g
  rw [State.handOf, hat, Option.map_some, Option.getD_some, w.holds_point t k g] at hle
  omega

include hp in
theorem works (hr : l.running = some (w.on t k)) :
    w.Primed (history past) l k ∧ k.Primed (w.mark (history past)) l := by
  refine w.primed_point t k (hp.points _ _ (State.point?_at hr (hp.accounts.atWork _ hr))) fun g => ?_
  have := hp.held hr g
  have := l.given_le g
  omega

theorem history_works (hr : l.running = some (w.on t k)) : history (past ++ [l]) = w.mark (history past) := by
  funext g
  rw [history_snoc, Work.marks_on hr, Work.mark]

include hp in
theorem marks_held (hm : l.marks g ≠ []) : 1 ≤ l.hands g + l.registered.count g ∧
    ∀ i q, l.point? i = some q → (∀ r, l.running = some r → r.task ≠ i) → q.holds g = 0 := by
  have hw : ∃ (t : Nat) (u : Shape) (w : Work u) (k : Stack u), l.running = some (w.on t k) := by
    cases hr : l.running with
    | none => exact absurd (State.Pauses.marks (.inl hr) g) hm
    | some r =>
      rcases r.cases_on with ⟨u, w, k, he⟩ | ⟨u, o, he⟩
      · exact ⟨r.task, u, w, k, congrArg some he⟩
      · exact absurd (State.Pauses.marks (.inr ⟨r.task, u, o, hr.trans (congrArg some he)⟩) g) hm
  obtain ⟨t, u, w, k, hr⟩ := hw
  have hat := State.point?_at hr (hp.accounts.atWork _ hr)
  have hand : l.handOf g t = w.holds g + k.holds g := by
    rw [Work.on_task] at hat
    rw [State.handOf, hat, Option.map_some, Option.getD_some, w.holds_point t k g]
  have hheld := w.marks_held (hp.works hr).1 (Work.marks_on hr g ▸ hm)
  have hcounts := hp.accounts.counts g
  have hgiven := l.given_le g
  have hle := State.handOf_le hp.accounts.atWork g t
  have hreg : g ∈ l.registered → 1 ≤ l.registered.count g := List.count_pos_iff.mpr
  have hone : 1 ≤ l.handOf g t + l.registered.count g := by
    rcases hheld with hh | hh
    · omega
    · have := hreg hh
      omega
  refine ⟨hone.trans (by omega), fun i q hq hi => ?_⟩
  have hti : t ≠ i := by
    have := hi _ hr
    rwa [Work.on_task] at this
  have hadd := State.handOf_add_le hp.accounts.atWork g hti
  have hother : l.handOf g i = q.holds g := by rw [State.handOf, hq]; rfl
  omega

include hp in
theorem gains (hs : l.Happens State.Serves l') : Gains (history past) l l' := by
  rcases hs.pauses with ⟨t, u, w, k, hr⟩ | ⟨_, hr, hu⟩
  · have hg := w.gains hp.stocked (hp.accounts.apt_or_hangs hr) (hp.works hr).1
    rw [hs.works hr]
    cases (w.perform l).2 <;> exact ⟨⟨hg.has, hg.alone⟩, hg.pooled, hg.single, hg.stocked⟩
  · exact hr.gains hu.faithful.alone

include hp in
theorem hands (hs : l.Happens State.Serves l') (hr : l.running = some (w.on t k)) :
    ((w.perform l).2.point k).Primed (w.mark (history past)) l' := by
  obtain ⟨hw, hk⟩ := hp.works hr
  have ha := hp.accounts.apt_or_hangs hr
  have hg := hp.gains hs
  have hacc := hp.accounts.happens (hs.mono fun _ => State.Serves.offers)
  have hnext := w.hands hp.stocked hp.accounts.sourced ha hp.fresh hw
  have hrem : Remembers (w.perform l).1 l' := by
    rw [hs.works hr]
    cases (w.perform l).2 <;> exact ⟨fun _ _ => id, List.Subset.refl _⟩
  have hpoint := hs.works_point hp.accounts.atWork hr
  refine Next.primed_point (hrem.next hnext) (hg.toRemembers.stack hk fun _ _ => rfl) fun g hm => ?_
  have hand : l'.handOf g t = (w.perform l).2.holds g + k.holds g := by
    rw [State.handOf, hpoint, Option.map_some, Option.getD_some, Next.holds_point]
  have hcounts := hacc.counts g
  have hgiven := l'.given_le g
  have hle := State.handOf_le hacc.atWork g t
  rcases Next.marks_held hnext hm with hh | hh
  · omega
  · have hreg := List.count_pos_iff.mpr (hrem.registered hh)
    omega

include hp in
theorem point (hs : l.Happens State.Serves l') (hq : l'.point? i = some q') :
    q'.Primed (history (past ++ [l])) l' := by
  have hg := (hp.gains hs).toRemembers
  have still : l.Pauses → history (past ++ [l]) = history past := fun hr => by
    funext g
    rw [history_snoc, hr.marks, List.append_nil]
  rcases hs.came hp.accounts.atWork hq with ⟨q, hat, hgets⟩ | ⟨_, hb⟩
  · have hstart := hp.points i q hat
    cases hgets with
    | stays hi =>
      refine hg.point hstart fun g hh => ?_
      have hm : l.marks g = [] := by_contra fun hm => hh ((hp.marks_held hm).2 i _ hat hi)
      rw [history_snoc, hm, List.append_nil]
    | works hr =>
      rw [history_works hr]
      exact hp.hands hs hr
    | @ends _ o hr =>
      rw [still (.inr ⟨i, _, o, hr⟩)]
      exact hg.gets hstart.1 fun _ _ => rfl
    | goesOn hr =>
      rw [still (.inl hr)]
      exact ⟨trivial, hg.stack hstart fun _ _ => rfl⟩
  · have hstart : q'.Primed (history (past ++ [l])) l := hb.primed
    exact hg.point hstart fun _ _ => rfl

theorem opened_le (hs : l.Happens State.Serves l') : l.engine.opened ≤ l'.engine.opened := by
  rcases hs.pauses with ⟨t, u, w, k, hr⟩ | ⟨_, _, hu⟩
  · rw [hs.works hr, (State.carryOn_unmoved _ t _ k).opened]
    exact w.opened_le l
  · exact hu.opened.ge

include hp in
theorem happens (hs : l.Happens State.Serves l') : Primed (past ++ [l]) l' := by
  have hg := hp.gains hs
  have longer : ∀ {ms : List Mark} {h : Handle}, ms <+: history past h → ms <+: history (past ++ [l]) h := by
    intro ms h hm
    rw [history_snoc]
    exact hm.trans (List.prefix_append _ _)
  refine ⟨hp.accounts.happens (hs.mono fun _ => State.Serves.offers), hg.stocked hp.stocked,
    fun i q hq => hp.point hs hq, fun c hc => longer ?_, fun c hc => longer ?_, fun i hi => ?_⟩
  · exact (hg.pooled c hc).elim (hp.pooled c) fun hh => hh ▸ List.prefix_refl _
  · exact (hg.single c hc).elim (hp.single c) fun hh => hh ▸ List.prefix_refl _
  · have hlt : l.engine.opened < i := (opened_le hs).trans_lt hi
    have hm : l.marks (.numbered i) = [] := by
      by_contra hm
      have hsome := (hp.marks_held hm).1
      have hcounts := hp.accounts.counts (.numbered i)
      rw [State.given, if_neg (by omega)] at hcounts
      omega
    rw [history_snoc, hp.fresh i hlt, hm, List.append_nil]

end Primed

theorem State.Blank.primed (hl : l.Blank) : Primed [] l := by
  have hpools : ∀ s, s ∉ l.pools := by simp [hl.pools]
  refine ⟨hl.accounts, fun s hs => absurd hs (hpools s), fun i q hq => ?_, fun c hc => ?_, fun c hc => ?_,
    fun _ _ => rfl⟩
  · have hnone : l.point? i = none :=
      State.point?_of_le (fun r h => nomatch hl.running.symm.trans h) (by simp [hl.tasks])
    cases hnone.symm.trans hq
  · simp [State.pooled, hl.pools] at hc
  · simp [State.alone, hl.standalone] at hc

theorem Course.primed (hc : Course State.Serves l past m) (hl : l.Blank) : Primed past m :=
  hc.induct (P := Primed) hl.primed fun _ _ _ _ ih hs => ih.happens hs

/-- The connection is one of a pool, or none of a pool, and its handle has been prepared as it should be before
anything else was sent on it. -/
def State.Ready (past : List State) (l : State) (pooled : Bool) (c : Lease) : Prop :=
  (if pooled then c ∈ l.pooled else c ∈ l.alone) ∧ preparation pooled <+: history past c.handle

def Frame.leases : {s t : Shape} → Frame s t → List Lease
  | _, _, .executed _ lease _ | _, _, .batched _ lease _ _ _ _ | _, _, .blockHeld _ lease _ => lease.toList
  | _, _, _ => []

def Stack.leases : {s : Shape} → Stack s → List Lease
  | _, .done _ => []
  | _, .push f k => f.leases ++ leases k

/-- The connections that a task has, or gets. -/
def Point.leases : Point → List Lease
  | .waits k => k.leases
  | .works (.call _) k => k.leases
  | .works (.give o) k => leasesOf o ++ k.leases
  | .ended o => leasesOf o

def leasesFromPool : {s : Shape} → Outcome s → List Lease
  | .lease, .ok c => [c]
  | _, _ => []

/-- The connections that a task gets from a pool. -/
def Point.acquired : Point → List Lease
  | .works (.give o) _ | .ended o => leasesFromPool o
  | _ => []

theorem Stack.Primed.leases {k : Stack u} (hk : k.Primed H l) (hc : c ∈ k.leases) : l.Connects c := by
  induction k with
  | done => cases hc
  | push f k ih =>
    rcases List.mem_append.mp hc with hc | hc
    · cases f with
      | executed | batched | blockHeld => exact hk.1 c (Option.mem_toList.mp hc)
      | _ => cases hc
    · exact ih hk.2 hc

theorem Stack.Takes.mem_pooled {k : Stack .lease} (hk : k.Takes l c) : c ∈ l.pooled := by
  cases k with
  | done => exact hk
  | push f k =>
    cases f with
    | opened q | openedBackground q => exact State.Has.pooled (p := q) hk
    | _ => exact hk

theorem Stack.Gets.leases {o : Outcome u} (hk : k.Gets H l o) (hc : c ∈ leasesOf o) : l.Connects c := by
  cases o with
  | error e => rw [leasesOf_error] at hc; cases hc
  | ok x =>
    cases u with
    | lease => exact .inl (List.mem_singleton.mp hc ▸ Stack.Takes.mem_pooled hk)
    | borrowed => exact hk c (Option.mem_toList.mp hc)
    | _ => cases hc

theorem Point.Primed.leases (hq : q.Primed H l) (hc : c ∈ q.leases) : l.Connects c := by
  cases q with
  | waits k => exact Stack.Primed.leases hq hc
  | works x k =>
    cases x with
    | call => exact hq.2.leases hc
    | give o => exact (List.mem_append.mp hc).elim hq.1.leases hq.2.leases
  | ended o => exact Stack.Gets.leases hq hc

theorem Stack.Gets.acquired {o : Outcome u} (hk : k.Gets H l o) (hc : c ∈ leasesFromPool o) : c ∈ l.pooled := by
  cases o with
  | error e => cases u <;> cases hc
  | ok x =>
    cases u with
    | lease => exact List.mem_singleton.mp hc ▸ Stack.Takes.mem_pooled hk
    | _ => cases hc

theorem Point.Primed.acquired (hq : q.Primed H l) (hc : c ∈ q.acquired) : c ∈ l.pooled := by
  cases q with
  | waits => cases hc
  | works x k =>
    cases x with
    | call => cases hc
    | give o => exact Stack.Gets.acquired hq.1 hc
  | ended o => exact Stack.Gets.acquired hq hc

namespace Primed

variable (hp : Primed past l)

include hp in
theorem ready (hc : l.Connects c) : ∃ pooled, l.Ready past pooled c := by
  rcases hc with hc | hc
  · exact ⟨true, hc, hp.pooled c hc⟩
  · exact ⟨false, hc, hp.single c hc⟩

include hp in
theorem sends {x : Sent} (hx : x ∈ l.sends) (ho : x.prepares = false) : x.handle ∈ l.registered := by
  obtain ⟨k, hr, hprep⟩ := State.sends_cases hx
  have hk : k.Sends l x.handle := (hp.works (w := .call (.send x.handle x.statement)) hr).1
  cases k with
  | done => exact hk
  | push f k =>
    cases f with
    | foreignKeysSet | journalSet => cases hprep.symm.trans ho
    | _ => exact hk

include hp in
theorem spilt (hh : h ∈ spilt past) : h ∉ l.registered ∧ ∀ x ∈ l.sends, x.handle ≠ h := by
  have hone := hp.accounts.once h
  have hpos := List.count_pos_iff.mpr hh
  refine ⟨fun hin => ?_, fun x hx he => ?_⟩
  · have := List.count_pos_iff.mpr hin
    omega
  · obtain ⟨k, hr, _⟩ := State.sends_cases hx
    have hm : l.marks h ≠ [] := by
      rw [State.marks, hr]
      simp [he]
    have := (hp.marks_held hm).1
    omega

end Primed

/-- Whatever happens, nobody's statement is sent on a handle that has not been prepared, nobody gets a connection
whose handle has not been prepared, for a pool if it is one of a pool, and a handle that could not be prepared is that
of no connection that anybody has, and nothing is sent on it any more. -/
theorem prepared_before_use (hl : l.Blank) (hc : Course State.Serves l past m) :
    (∀ x ∈ m.sends, x.prepares = false → ∃ pooled c, m.Ready past pooled c ∧ c.handle = x.handle) ∧
      (∀ i q, m.point? i = some q →
        (∀ c ∈ q.leases, ∃ pooled, m.Ready past pooled c) ∧ ∀ c ∈ q.acquired, m.Ready past true c) ∧
      ∀ h ∈ spilt past, (∀ i q, m.point? i = some q → ∀ c ∈ q.leases, c.handle ≠ h) ∧ ∀ x ∈ m.sends, x.handle ≠ h := by
  have hp := hc.primed hl
  refine ⟨fun x hx ho => ?_, fun i q hq => ⟨fun c hc => ?_, fun c hc => ?_⟩, fun h hh => ⟨fun i q hq c hc he => ?_, ?_⟩⟩
  · obtain ⟨c, hconn, he⟩ := State.mem_registered.mp (hp.sends hx ho)
    obtain ⟨pooled, hready⟩ := hp.ready hconn
    exact ⟨pooled, c, hready, he⟩
  · exact hp.ready ((hp.points i q hq).leases hc)
  · have hin := (hp.points i q hq).acquired hc
    exact ⟨hin, hp.pooled c hin⟩
  · exact (hp.spilt hh).1 (State.mem_registered.mpr ⟨c, (hp.points i q hq).leases hc, he⟩)
  · exact (hp.spilt hh).2

def failsJournal : State :=
  { managers := [{}]
    engine.rules :=
      [{ start := "PRAGMA journal_mode", times := some 1, fault := some ⟨"OperationalError", "disk I/O error"⟩ }] }

def secondHandle : List State × State :=
  let x := State.calling ([], failsJournal) (.setUp 0 (some { filename := "f" }) (.pooled { minConnections := .int 0 })) 2
  let x := State.calling x (.execute 0 ⟨"SELECT 1", []⟩ (.text "read")) 16
  State.calling x (.execute 0 ⟨"SELECT 1", []⟩ (.text "read")) 16

theorem failsJournal_blank : failsJournal.Blank := .of_new rfl rfl

theorem secondHandle_course : Course State.Serves failsJournal secondHandle.1 secondHandle.2 := by
  have hstart : Course State.Serves failsJournal [] failsJournal := .start
  have hsetUp := hstart.calling rfl (c := .setUp 0 (some { filename := "f" }) (.pooled { minConnections := .int 0 }))
    trivial 2
  have hfirst := hsetUp.calling (by decide +kernel) (c := .execute 0 ⟨"SELECT 1", []⟩ (.text "read")) trivial 16
  exact hfirst.calling (by decide +kernel) (c := .execute 0 ⟨"SELECT 1", []⟩ (.text "read")) trivial 16

/-- The handle that could not be prepared is left alone, and the statement is sent on another one, which has been. -/
theorem prepared_before_use_second_handle :
    (failsJournal.Blank ∧ Course State.Serves failsJournal secondHandle.1 secondHandle.2) ∧
      spilt secondHandle.1 = [.numbered 1] ∧
      ∃ x ∈ secondHandle.2.sends, x.statement.sql = "SELECT 1" ∧ x.handle = .numbered 2 ∧
        ∃ pooled c, secondHandle.2.Ready secondHandle.1 pooled c ∧ c.handle = .numbered 2 := by
  have hs : secondHandle.2.sends.map (fun x => (x.statement.sql, x.handle, x.prepares)) =
      [("SELECT 1", .numbered 2, false)] := by decide +kernel
  obtain ⟨x, hx⟩ : ∃ x, secondHandle.2.sends = [x] := List.length_eq_one_iff.mp (by simpa using congrArg List.length hs)
  rw [hx, List.map_singleton, List.singleton_inj, Prod.mk.injEq, Prod.mk.injEq] at hs
  obtain ⟨hsql, hhandle, hown⟩ := hs
  have hin : x ∈ secondHandle.2.sends := by simp [hx]
  obtain ⟨pooled, c, hready, hc⟩ := (prepared_before_use failsJournal_blank secondHandle_course).1 x hin hown
  exact ⟨⟨failsJournal_blank, secondHandle_course⟩, by decide +kernel, x, hin, hsql, hhandle, pooled, c, hready,
    hc.trans hhandle⟩

end SqliteAccess.Loop
