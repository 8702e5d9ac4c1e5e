import SqliteAccess.Proofs.Demo.Acting

/-!
The course of the demonstration: it works, it waits for the engine or for the sweep of its pool to end, and
the sweep works in between. It shuts its manager down if and only if it has come by one.
-/

namespace SqliteAccess.Loop

open Access (Database)

/-- The bootstrap of the demonstration comes back to it with a manager. -/
def State.ComesUp (l : State) : Prop :=
  ∃ M, l.running = some ⟨0, .manager, .give (.ok M), .push .demoStarted (.done .reply)⟩

/-- What may happen while the demonstration goes on: the loop takes a step, the engine answers a call that it
has kept waiting or changes its rules, but never so that setup pragmas or closes fail, and time goes by. -/
inductive State.GoesOn (l : State) : State → Prop
  | loop {l' : State} : l.step? = some l' → State.GoesOn l l'
  | answer {t : Nat} {k : Task} {st : Stack .unit} : l.running = none → l.tasks[t]? = some k →
      k.status = .paused .held st → State.GoesOn l (l.answerHeld t)
  | engine (rules : List Engine.Rule) (openings : List Engine.Opening) (closings : List Engine.Closing) :
      l.running = none → SparesSetup rules → (∀ c ∈ closings, c.fault = none) →
      State.GoesOn l (l.modifyEngine fun e => { e with rules, openings, closings })
  | tick (now : Float) : l.running = none → State.GoesOn l { l with clock := now }

def State.demonstrating (url : String) (rules : List Engine.Rule) (openings : List Engine.Opening)
    (closings : List Engine.Closing) : State :=
  (({ engine := { rules, openings, closings } } : State).spawn (.demonstrate url) []).1

/-- A run of the demonstration up to its end at most, with the states that it has left behind. -/
inductive Demonstration (url : String) : List State → State → Prop
  | start {rules : List Engine.Rule} (openings : List Engine.Opening) {closings : List Engine.Closing} :
      SparesSetup rules → (∀ c ∈ closings, c.fault = none) →
      Demonstration url [] (State.demonstrating url rules openings closings)
  | step {past : List State} {l l' : State} : Demonstration url past l → l.isFinished 0 = false → l.GoesOn l' →
      Demonstration url (past ++ [l]) l'

def Terms.ends (came : Prop) : Terms .reply := fun o φ =>
  came ∧ (∃ d id since, φ = .down d id since) ∨ ¬ came ∧ (∃ e, o = .error e) ∧ φ.Forsaken

/-- What is left of the demonstration, and the terms on which something comes back to it. -/
inductive Stack.Keeps (came : Prop) : {u : Shape} → Terms u → Stack u → Prop
  | done : Keeps came (.ends came) (.done .reply)
  | push {u v : Shape} {Q : Terms u} {Q' : Terms v} {f : Frame u v} {k : Stack v} : f.Relays Q Q' →
      Keeps came Q' k → Keeps came Q (.push f k)
  | begins (url : String) : ¬ came → Keeps came (.succeeds .blank) (.push (.start (.demonstrate url)) (.done .reply))
  | boots : ¬ came → Keeps came .boots (.push .demoStarted (.done .reply))
  | empties (d : Database) : came → Keeps came (.settles d False) (.push (.demoEmptied 0) (.done .reply))
  | seeds (d : Database) : came → Keeps came (.settles d False) (.push (.demoSeeded 0) (.done .reply))
  | fetches (d : Database) : came → Keeps came (.settles d False) (.push (.demoFetched 0) (.done .reply))
  | shuts (d : Database) (id : Nat) (since : Float) (o : Outcome .reply) : came →
      Keeps came (.succeeds (.down d id since)) (.push (.demoEnded o) (.done .reply))

inductive Task.Expects (came : Prop) (k : Task) : Phase → Prop
  | begins {st : Stack .unit} : k.Free → k.status = .ready none st → st.Keeps came (.succeeds .blank) →
      Expects came k .blank
  | told {st : Stack .unit} {d : Database} {x : Stock} : k.Free → k.status = .ready none st → x.Held →
      st.Keeps came (.succeeds (.up d x)) → Expects came k (.up d x)
  | held {st : Stack .unit} {d : Database} {x : Stock} : k.Free → k.status = .paused .held st → x.Held →
      st.Keeps came (.succeeds (.up d x)) → Expects came k (.up d x)
  | waits {st : Stack .unit} {d : Database} {id : Nat} {since : Float} : k.Free →
      k.status = .paused (.task 1) st → st.Keeps came (.sweepOver d id since) →
      Expects came k (.up d (.closing id since))
  | notified {st : Stack .unit} {d : Database} {id : Nat} {since : Float} : k.Free →
      k.status = .ready (some .cancelled) st → st.Keeps came (.sweepOver d id since) →
      Expects came k (.up d (.swept id since))
  | ended {o : Outcome .reply} {φ : Phase} : k.status = .finished .reply o → Terms.ends came o φ →
      Expects came k φ

inductive SweepWork : {u : Shape} → Control u → Stack u → Prop
  | goesOn {st : Stack .unit} : SweepStack st → SweepWork (.give (.ok ())) st
  | reaps : SweepWork (.call (.reap 0)) (.done .unit)
  | evicts (interval : Float) : SweepWork (.call (.evict 0)) (.push (.swept 0 interval) (.done .unit))
  | sweeps (interval : Float) (n : Nat) : SweepWork (.give (.ok n)) (.push (.swept 0 interval) (.done .unit))

inductive SweepEnd : Stack .unit → Prop
  | goesOn {st : Stack .unit} : SweepStack st → SweepEnd st
  | done : SweepEnd (.done .unit)

structure Interlude (came : Prop) (l : State) (φ : Phase) (a : Task) (ts : List Task) : Prop where
  stands : l.Stands φ
  tasks : l.tasks = a :: ts
  expects : a.Expects came φ
  holds : φ.sweeping.Holds ts
  running : l.running = none

inductive Tableau (came : Prop) (l : State) : Prop
  | starts (url : String) : ¬ came → l.Plays .blank →
      l.running = some ⟨0, .reply, .call (.demonstrate url), .done .reply⟩ → Tableau came l
  | calls {φ : Phase} {u : Shape} {c : Call u} {Q : Terms u} {k : Stack u} : l.Plays φ → c.Promises φ Q →
      k.Keeps came Q → l.running = some ⟨0, u, .call c, k⟩ → Tableau came l
  | gives {φ : Phase} {u : Shape} {o : Outcome u} {Q : Terms u} {k : Stack u} : l.Plays φ → Q o φ →
      k.Keeps came Q → l.running = some ⟨0, u, .give o, k⟩ → Tableau came l
  | between (φ : Phase) (a : Task) (ts : List Task) : Interlude came l φ a ts → Tableau came l
  | sweeps {d : Database} {x : Stock} {a b : Task} {u : Shape} {y : Control u} {k : Stack u} : l.Stands (.up d x) →
      x.Busy → l.tasks = [a, b] → a.Expects came (.up d x) → b.Free → SweepWork y k →
      l.running = some ⟨1, u, y, k⟩ → Tableau came l
  | dies {d : Database} {id : Nat} {since : Float} {a b : Task} {k : Stack .unit} :
      l.Stands (.up d (.closing id since)) → l.tasks = [a, b] → a.Expects came (.up d (.closing id since)) → b.followers = [.resume 0] → SweepEnd k →
      l.running = some ⟨1, .unit, .give (.error .cancelled), k⟩ → Tableau came l

variable {came : Prop} {l l' m : State} {φ : Phase} {d : Database} {x : Stock} {u v : Shape} {Q : Terms u}
  {Q' : Terms v} {id : Nat} {since : Float} {a b : Task} {ts : List Task}

theorem Stock.Busy.sweeping (hx : x.Busy) : x.sweeping = .awake := by cases hx <;> rfl

theorem State.Plays.run (h : m.Plays φ) (y : Control u) (k : Stack u) :
    ({ m with running := some ⟨0, u, y, k⟩ } : State).Plays φ :=
  ⟨h.toStands.of rfl rfl rfl rfl h.spares, rfl, h.tasks⟩

theorem Tableau.pauses {w : Wait} {f : Frame .unit u} {R : Terms .unit} {k : Stack u} (h : m.Plays φ)
    (hw : w.Heeds φ R) (hf : f.Relays R Q) (hk : k.Keeps came Q) : Tableau came (m.carryOn 0 (.pause w f) k) := by
  obtain ⟨a, ts, ht, ha, hts⟩ := h.tasks
  refine .between _ { a with status := .paused w (.push f k) } ts
    ⟨h.toStands.of rfl rfl rfl rfl h.spares, ?_, ?_, hts, rfl⟩
  · simp [State.carryOn, State.modifyTask, ht]
  · cases hw with
    | held d hx => exact .held ⟨ha.1, ha.2⟩ rfl hx (.push hf hk)
    | task d id since => exact .waits ⟨ha.1, ha.2⟩ rfl (.push hf hk)

theorem Tableau.carryOn {n : Next u} {k : Stack u} (h : n.Honours Q m) (hk : k.Keeps came Q) :
    Tableau came (m.carryOn 0 n k) := by
  cases n with
  | give o =>
    obtain ⟨φ, hp, ho⟩ := h
    exact .gives (hp.run _ _) ho hk rfl
  | call c f =>
    obtain ⟨φ, Q', hp, hc, hf⟩ := h
    exact .calls (hp.run _ _) hc (.push hf hk) rfl
  | jump c =>
    obtain ⟨φ, hp, hc⟩ := h
    exact .calls (hp.run _ _) hc hk rfl
  | pause w f =>
    obtain ⟨φ, R, hp, hw, hf⟩ := h
    exact .pauses hp hw hf hk
  | again f => exact h.elim

theorem Terms.settles.rests {o : Outcome u} (h : settles d False o φ) : ∃ id since, φ = .up d (.rests id since) := by
  cases o with
  | error => exact h.elim id fun h => h.1.elim
  | ok => exact h

theorem Tableau.endDemo {o : Outcome .reply} (h : l.Plays (.up d (.rests id since))) (hc : came) :
    Tableau came ((l.endDemo 0 o).1.carryOn 0 (l.endDemo 0 o).2 (.done .reply)) :=
  .calls (h.run _ _) (.shutDown d id since) (.shuts d id since o hc) rfl

theorem Tableau.finishes {o : Outcome .reply} (h : l.Plays φ) (ho : Terms.ends came o φ) :
    Tableau came (l.finish 0 o) := by
  obtain ⟨a, ts, ht, ha, hts⟩ := h.tasks
  have hf : l.finish 0 o =
      { l.modifyTask 0 fun k => { k with status := .finished .reply o, followers := [] } with running := none } := by
    simp [State.finish, ht, ha.followers]
  rw [hf]
  refine .between _ { a with status := .finished .reply o, followers := [] } ts
    ⟨h.toStands.of rfl rfl rfl rfl h.spares, ?_, .ended rfl ho, hts, rfl⟩
  simp [State.modifyTask, ht]

theorem Tableau.of_not (hn : ¬ l.ComesUp) (h : Tableau came m) : Tableau (came ∨ l.ComesUp) m := by
  rwa [or_iff_left hn]

theorem Tableau.hears {o : Outcome u} {k : Stack u} (h : l.Plays φ) (ho : Q o φ) (hk : k.Keeps came Q)
    (hr : l.running = some ⟨0, u, .give o, k⟩) : Tableau (came ∨ l.ComesUp) (l.advance ⟨0, u, .give o, k⟩) := by
  have other : (∀ M, l.running ≠ some ⟨0, .manager, .give (.ok M), .push .demoStarted (.done .reply)⟩) →
      Tableau came (l.advance ⟨0, u, .give o, k⟩) → Tableau (came ∨ l.ComesUp) (l.advance ⟨0, u, .give o, k⟩) :=
    fun hn => .of_not fun ⟨M, hM⟩ => hn M hM
  cases hk with
  | done => exact other (fun M hM => nomatch hr.symm.trans hM) (.finishes h ho)
  | @push _ _ _ _ f _ hf hk =>
    refine other (fun M hM => ?_) (.carryOn (hf.resumes h ho) hk)
    cases hr.symm.trans hM
    cases hf
  | begins url hc =>
    obtain ⟨⟨_, rfl⟩, rfl⟩ := ho
    exact other (fun M hM => nomatch hr.symm.trans hM) (.starts url hc (h.run _ _) rfl)
  | boots hc =>
    cases o with
    | error e =>
      refine other (fun M hM => nomatch hr.symm.trans hM) (.gives (h.run _ _) ?_ .done rfl)
      exact .inr ⟨hc, ⟨e, rfl⟩, ho⟩
    | ok M =>
      obtain ⟨rfl, d, id, since, rfl⟩ := ho
      have hcame : came ∨ l.ComesUp := .inr ⟨0, hr⟩
      exact .calls (h.run _ _) (.reset d id since) (.empties d hcame) rfl
  | empties d hc =>
    refine other (fun M hM => nomatch hr.symm.trans hM) ?_
    obtain ⟨id, since, rfl⟩ := Terms.settles.rests ho
    cases o with
    | error e => exact .endDemo h hc
    | ok => exact .calls (h.run _ _) (.seed d id since) (.seeds d hc) rfl
  | seeds d hc =>
    refine other (fun M hM => nomatch hr.symm.trans hM) ?_
    obtain ⟨id, since, rfl⟩ := Terms.settles.rests ho
    cases o with
    | error e => exact .endDemo h hc
    | ok => exact .calls (h.run _ _) (.fetch d id since) (.fetches d hc) rfl
  | fetches d hc =>
    refine other (fun M hM => nomatch hr.symm.trans hM) ?_
    obtain ⟨id, since, rfl⟩ := Terms.settles.rests ho
    exact .endDemo h hc
  | shuts d id since result hc =>
    obtain ⟨⟨_, rfl⟩, rfl⟩ := ho
    exact other (fun M hM => nomatch hr.symm.trans hM)
      (.gives (h.run _ _) (.inl ⟨hc, d, id, since, rfl⟩) .done rfl)

theorem State.Stands.evict (h : l.Stands (.up d x)) (hx : x.Busy) : l.evict 0 = (l, .give (.ok 0)) := by
  have hidle : (x.pool d).idle = [] := by cases hx <;> rfl
  have hs : (x.pool d).settings = Demo.settings := rfl
  simp only [State.evict, h.pool, hs, Pool.State.expired, hidle, List.filter_nil]
  rfl

theorem Tableau.dozes (h : m.Stands (.up d x)) (hx : x.Busy) (ht : m.tasks = [a, b])
    (ha : a.Expects came (.up d x)) (hb : b.Free) (pause interval : Float) :
    Tableau came ((m.sleep pause (.rested 0 interval)).1.carryOn 1 (m.sleep pause (.rested 0 interval)).2
      (.done .unit)) := by
  have holds : ∀ b' : Task, b'.Free → b'.Sweeps → (Phase.up d x).sweeping.Holds [b'] := by
    intro b' hf hs
    rw [Phase.sweeping, hx.sweeping]
    exact ⟨b', rfl, hf, hs⟩
  unfold State.sleep
  split
  · refine .between _ a [{ b with status := .ready none (.push (.rested 0 interval) (.done .unit)) }]
      ⟨h.of rfl rfl rfl rfl h.spares, ?_, ha, holds _ ⟨hb.1, hb.2⟩ (.ready rfl (.rested interval)), rfl⟩
    simp [State.carryOn, State.enqueue, State.modifyTask, ht]
  · refine .between _ a
      [{ b with status := .paused (.sleep m.nextTimer) (.push (.rested 0 interval) (.done .unit)) }]
      ⟨h.of rfl rfl rfl rfl h.spares, ?_, ha, holds _ ⟨hb.1, hb.2⟩ (.asleep rfl (.rested interval)), rfl⟩
    simp [State.carryOn, State.addTimer, State.modifyTask, ht]

theorem State.Stands.swept (h : l.Stands (.up d x)) (hx : x.Busy) (interval : Float) (n : Nat) :
    l.swept 0 interval (.ok n) = l.sleep interval (.rested 0 interval) := by
  simp only [State.swept, h.ensureMinimum (.inr hx)]

theorem Tableau.sweepWorks {y : Control u} {k : Stack u} (h : l.Stands (.up d x)) (hx : x.Busy) (ht : l.tasks = [a, b])
    (ha : a.Expects came (.up d x)) (hb : b.Free) (hw : SweepWork y k) :
    Tableau came (l.advance ⟨1, u, y, k⟩) := by
  have hrun : ∀ {v : Shape} (y : Control v) (k : Stack v),
      ({ l with running := some ⟨1, v, y, k⟩ } : State).Stands (.up d x) := fun _ _ => h.of rfl rfl rfl rfl h.spares
  cases hw with
  | goesOn hst =>
    cases hst with
    | starts => exact .sweeps (hrun _ _) hx ht ha hb .reaps rfl
    | rested interval => exact .sweeps (hrun _ _) hx ht ha hb (.evicts interval) rfl
  | reaps =>
    obtain ⟨interval, hi⟩ : ∃ interval, Config.seconds Demo.settings.reapIntervalMs = .ok interval := ⟨_, rfl⟩
    have hreap : l.reap 0 = l.sleep interval (.rested 0 interval) := by
      simp only [State.reap, h.pool, Stock.pool, hi]
    simp only [State.advance, begin, hreap]
    exact .dozes h hx ht ha hb interval interval
  | evicts interval =>
    simp only [State.advance, begin, h.evict hx]
    exact .sweeps (hrun _ _) hx ht ha hb (.sweeps interval 0) rfl
  | sweeps interval n =>
    simp only [State.advance, resume, h.swept hx]
    exact .dozes h hx ht ha hb interval interval

theorem Tableau.sweepEnds {k : Stack .unit} (h : l.Stands (.up d (.closing id since))) (ht : l.tasks = [a, b])
    (ha : a.Expects came (.up d (.closing id since))) (hb : b.followers = [.resume 0]) (hk : SweepEnd k) :
    Tableau came (l.advance ⟨1, .unit, .give (.error .cancelled), k⟩) := by
  cases hk with
  | goesOn hst =>
    have hrun : ({ l with running := some ⟨1, .unit, .give (.error .cancelled), .done .unit⟩ } : State).Stands
        (.up d (.closing id since)) := h.of rfl rfl rfl rfl h.spares
    cases hst <;> exact .dies hrun ht ha hb .done rfl
  | done =>
    cases ha with
    | told _ _ hx | held _ _ hx =>
      cases hx with
      | busy hx => cases hx
    | ended _ he => rcases he with ⟨_, _, _, _, he⟩ | ⟨_, _, he⟩ <;> cases he
    | @waits st _ _ _ hfree hs hst =>
      let b' : Task := { b with status := .finished .unit (.error .cancelled), followers := [] }
      let m : State :=
        { l.modifyTask 1 fun k => { k with status := .finished .unit (.error .cancelled), followers := [] } with
          running := none }
      have hm : m.tasks = [a, b'] := by simp [m, b', State.modifyTask, ht]
      have hend : m.endOf 1 = .error .cancelled := by simp [State.endOf, hm, b']
      have hf : l.advance ⟨1, .unit, .give (.error .cancelled), .done .unit⟩ = m.wake 0 (some .cancelled) := by
        have hfollow : l.advance ⟨1, .unit, .give (.error .cancelled), .done .unit⟩ = m.follow 1 (.resume 0) := by
          simp [State.advance, State.finish, ht, hb, m]
        rw [hfollow, State.follow, hend]
      have hzero : m.tasks[0]? = some a := by rw [hm]; rfl
      rw [hf, State.wake_of_paused hzero hs]
      refine .between (.up d (.swept id since)) { a with status := .ready (some .cancelled) st } [b']
        ⟨⟨h.managers, h.pools, h.opened, h.closes, h.spares⟩, ?_, .notified ⟨hfree.1, hfree.2⟩ rfl hst,
          ⟨b', rfl, rfl⟩, rfl⟩
      simp [State.enqueue, State.modifyTask, hm]

theorem State.stepTask_cases (l : State) (t : Nat) :
    (∃ signal st k, Resumed l (l.stepTask t) t signal st k) ∨ l.stepTask t = l := by
  rw [State.stepTask]
  split
  next signal st _ _ _ hk => exact .inl ⟨signal, st, _, hk, rfl, rfl, rfl, rfl, rfl, rfl, rfl, rfl⟩
  next => exact .inr rfl

namespace Interlude

variable (h : Interlude came l φ a ts)

include h

theorem of (hm : m.managers = l.managers) (hp : m.pools = l.pools) (he : m.engine = l.engine)
    (ht : m.tasks = l.tasks) (hr : m.running = l.running) : Interlude came m φ a ts :=
  ⟨h.stands.of hm hp (by rw [he]) (by rw [he]) (he ▸ h.stands.spares), ht.trans h.tasks, h.expects, h.holds,
    hr.trans h.running⟩

theorem busy (hfin : l.isFinished 0 = false) (hs : φ.sweeping = .awake) : ∃ d x, φ = .up d x ∧ x.Busy := by
  cases h.expects with
  | begins => cases hs
  | told _ _ hx | held _ _ hx =>
    cases hx with
    | busy hx => exact ⟨_, _, rfl, hx⟩
    | closed => cases hs
  | waits => cases hs
  | notified => cases hs
  | ended he =>
    obtain ⟨status, context, cancelRequested, followers⟩ := a
    cases he
    rw [State.isFinished, h.tasks] at hfin
    cases hfin

theorem either {t : Nat} {k : Task} (hk : l.tasks[t]? = some k) : t = 0 ∧ k = a ∨ t = 1 ∧ ts = [k] := by
  have hts : ts = [] ∨ ∃ b, ts = [b] := by
    have hts := h.holds
    cases hsw : φ.sweeping with
    | absent => rw [hsw] at hts; exact .inl hts
    | awake => rw [hsw] at hts; exact .inr ⟨hts.choose, hts.choose_spec.1⟩
    | doomed => rw [hsw] at hts; exact .inr ⟨hts.choose, hts.choose_spec.1⟩
    | ended => rw [hsw] at hts; exact .inr ⟨hts.choose, hts.choose_spec.1⟩
  rw [h.tasks] at hk
  match t with
  | 0 => exact .inl ⟨rfl, (Option.some.inj hk).symm⟩
  | 1 =>
    rcases hts with rfl | ⟨b, rfl⟩
    · cases hk
    · exact .inr ⟨rfl, by cases hk; rfl⟩
  | t + 2 => rcases hts with rfl | ⟨b, rfl⟩ <;> cases hk

theorem waits {t : Nat} {k : Task} {w : Wait} {st : Stack .unit} (hk : l.tasks[t]? = some k)
    (hs : k.status = .paused w st) : t = 0 ∧ k = a ∧ (w = .held ∨ w = .task 1) ∨
      t = 1 ∧ ts = [k] ∧ φ.sweeping = .awake ∧ k.Free ∧ SweepStack st ∧ ∃ n, w = .sleep n := by
  rcases h.either hk with ⟨rfl, rfl⟩ | ⟨rfl, hb⟩
  · refine .inl ⟨rfl, rfl, ?_⟩
    cases h.expects with
    | begins _ he | told _ he | notified _ he | ended he => cases he.symm.trans hs
    | held _ he => cases he.symm.trans hs; exact .inl rfl
    | waits _ he => cases he.symm.trans hs; exact .inr rfl
  · have hts := h.holds
    cases hsw : φ.sweeping with
    | absent =>
      rw [hsw] at hts
      cases hb.symm.trans hts
    | awake =>
      rw [hsw] at hts
      obtain ⟨b, he, hf, hb'⟩ := hts
      cases hb.symm.trans he
      cases hb' with
      | ready he => cases he.symm.trans hs
      | asleep he hst => cases he.symm.trans hs; exact .inr ⟨rfl, hb, rfl, hf, hst, _, rfl⟩
    | doomed =>
      rw [hsw] at hts
      obtain ⟨b, he, hdoom⟩ := hts
      cases hb.symm.trans he
      obtain ⟨_, _, he, _⟩ := hdoom.ready
      cases he.symm.trans hs
    | ended =>
      rw [hsw] at hts
      obtain ⟨b, he, hended⟩ := hts
      cases hb.symm.trans he
      cases hended.symm.trans hs

theorem wakes {b : Task} {n : Nat} {st : Stack .unit} (hb : ts = [b]) (hs : b.status = .paused (.sleep n) st) :
    Tableau came (l.wake 1 none) := by
  have hone : l.tasks[1]? = some b := by rw [h.tasks, hb]; rfl
  rcases h.waits hone hs with ⟨ht, _⟩ | ⟨_, _, hsw, hf, hst, _⟩
  · cases ht
  · rw [State.wake_of_paused hone hs]
    refine .between _ a [{ b with status := .ready none st }]
      ⟨h.stands.of rfl rfl rfl rfl h.stands.spares, ?_, h.expects, ?_, h.running⟩
    · simp [State.enqueue, State.modifyTask, h.tasks, hb]
    · rw [hsw]
      exact ⟨_, rfl, ⟨hf.1, hf.2⟩, .ready rfl hst⟩

theorem answers {st : Stack .unit} (hs : a.status = .paused .held st) : Tableau came (l.answerHeld 0) := by
  have hzero : (l.modifyEngine fun e => e.letGo 0).tasks[0]? = some a := by
    rw [State.modifyEngine, h.tasks]
    rfl
  rw [State.answerHeld, State.wake_of_paused hzero hs]
  have hexp := h.expects
  cases hexp with
  | begins _ he | told _ he | waits _ he | notified _ he | ended he => cases he.symm.trans hs
  | @held _ d x hf he hx hst =>
    cases he.symm.trans hs
    refine .between _ { a with status := .ready none st } ts
      ⟨h.stands.of rfl rfl rfl rfl ⟨h.stands.spares.rules, h.stands.spares.closings⟩, ?_,
        .told ⟨hf.1, hf.2⟩ rfl hx hst, h.holds, h.running⟩
    simp [State.enqueue, State.modifyTask, State.modifyEngine, h.tasks]

theorem plays {signal : Option Failure} {st : Stack .unit} (hres : Resumed l m 0 signal st a) :
    Tableau came m := by
  have hs := hres.ready
  have stands : m.Stands φ :=
    h.stands.of hres.managers hres.pools (by rw [hres.engine]) (by rw [hres.engine]) (hres.engine ▸ h.stands.spares)
  have current : m.current? = some 0 := by rw [State.current?, hres.running]; rfl
  have plays : a.Free → m.Plays φ := fun hf =>
    ⟨stands, current, { a with status := .running, cancelRequested := false }, ts, by rw [hres.tasks, h.tasks]; rfl,
      ⟨rfl, hf.2⟩, h.holds⟩
  have told : a.Free → a.answer none = .ok () ∧ a.answer (some .cancelled) = .error .cancelled := fun hf => by
    simp [Task.answer, hf.1]
  have hr := hres.running
  cases h.expects with
  | held _ he | waits _ he | ended he => cases he.symm.trans hs
  | begins hf he hst | told hf he _ hst =>
    cases he.symm.trans hs
    rw [(told hf).1] at hr
    exact .gives (plays hf) ⟨⟨(), rfl⟩, rfl⟩ hst hr
  | notified hf he hst =>
    cases he.symm.trans hs
    rw [(told hf).2] at hr
    exact .gives (plays hf) ⟨rfl, rfl⟩ hst hr

theorem sweeps {b : Task} {signal : Option Failure} {st : Stack .unit} (hfin : l.isFinished 0 = false)
    (hb : ts = [b]) (hres : Resumed l m 1 signal st b) : Tableau came m := by
  have stands : m.Stands φ :=
    h.stands.of hres.managers hres.pools (by rw [hres.engine]) (by rw [hres.engine]) (hres.engine ▸ h.stands.spares)
  have htasks : m.tasks = [a, { b with status := .running, cancelRequested := false }] := by
    rw [hres.tasks, h.tasks, hb]
    rfl
  have hr := hres.running
  have hts := h.holds
  cases hsw : φ.sweeping with
  | absent =>
    rw [hsw] at hts
    cases hb.symm.trans hts
  | awake =>
    rw [hsw] at hts
    obtain ⟨b', he, hf, hs⟩ := hts
    cases hb.symm.trans he
    obtain ⟨d, x, rfl, hx⟩ := h.busy hfin hsw
    cases hs with
    | asleep he => cases he.symm.trans hres.ready
    | ready he hst =>
      cases he.symm.trans hres.ready
      rw [Task.answer, hf.1] at hr
      exact .sweeps stands hx htasks h.expects ⟨rfl, hf.2⟩ (.goesOn hst) hr
  | doomed =>
    rw [hsw] at hts
    obtain ⟨b', he, hdoom⟩ := hts
    cases hb.symm.trans he
    obtain ⟨signal', st', he, hst, hcan⟩ := hdoom.ready
    cases he.symm.trans hres.ready
    have hans : b.answer signal = .error .cancelled := by
      rw [Task.answer]
      rcases hcan with hcan | rfl
      · rw [hcan]; rfl
      · split <;> rename_i h <;> split at h <;> cases h <;> rfl
    rw [hans] at hr
    cases h.expects with
    | begins => cases hsw
    | told _ _ hx | held _ _ hx =>
      cases hx with
      | busy hx => cases hx <;> cases hsw
      | closed => cases hsw
    | notified => cases hsw
    | waits => exact .dies stands htasks h.expects hdoom.followers (.goesOn hst) hr
    | ended _ he =>
      rcases he with ⟨_, _, _, _, rfl⟩ | ⟨_, _, he⟩
      · cases hsw
      · cases he <;> cases hsw
  | ended =>
    rw [hsw] at hts
    obtain ⟨b', he, hs⟩ := hts
    cases hb.symm.trans he
    cases hs.symm.trans hres.ready

theorem rings (n : Nat) : Tableau came (l.ring n) := by
  rw [State.ring]
  generalize howner : l.tasks.findIdx? _ = owner
  cases owner with
  | none => exact .between _ _ _ h
  | some t =>
    have hspec := List.of_findIdx?_eq_some howner
    dsimp only
    cases hk : l.tasks[t]? with
    | none => rw [hk] at hspec; cases hspec
    | some k =>
      rw [hk] at hspec
      dsimp only at hspec ⊢
      obtain ⟨status, context, cancelRequested, followers⟩ := k
      cases status with
      | ready | running | finished => cases hspec
      | paused w st =>
        rcases h.waits hk rfl with ⟨_, _, rfl | rfl⟩ | ⟨rfl, hb, _, _, _, r, rfl⟩
        · cases hspec
        · cases hspec
        · exact h.wakes hb rfl

theorem modifyPool {p : Nat} {f : Pool.State → Pool.State} (hf : ∀ s : Pool.State, s.background = [] → f s = s) :
    Interlude came (l.modifyPool p f) φ a ts := by
  have hpools : (l.modifyPool p f).pools = l.pools := by
    refine List.ext_getElem? fun i => ?_
    rw [State.modifyPool, List.getElem?_modify]
    cases hs : l.pools[i]? with
    | none => rfl
    | some s =>
      have hback : s.background = [] := by
        have hmem := List.mem_of_getElem? hs
        rw [h.stands.pools] at hmem
        cases φ with
        | blank | bare => cases hmem
        | up d x => cases List.mem_singleton.mp hmem; rfl
        | down d id since => cases List.mem_singleton.mp hmem; rfl
      simp [hf s hback]
  exact h.of rfl hpools rfl rfl rfl

theorem performs (hfin : l.isFinished 0 = false) (j : Job) : Tableau came (l.perform j) := by
  cases j with
  | step t =>
    rw [State.perform]
    rcases l.stepTask_cases t with ⟨signal, st, k, hres⟩ | he
    · rcases h.either hres.task with ⟨rfl, rfl⟩ | ⟨rfl, hb⟩
      · exact h.plays hres
      · exact h.sweeps hfin hb hres
    · rw [he]
      exact .between _ _ _ h
  | ring n => exact h.rings n
  | dropBackground p t =>
    exact .between _ _ _ (h.modifyPool (f := fun s => { s with background := s.background.erase t }) fun s hs => by
      obtain ⟨⟩ := s
      cases hs
      rfl)
  | count t ended =>
    have hc : l.count t ended = l := by
      unfold State.count
      split
      next hk => rcases h.waits hk rfl with ⟨_, _, h | h⟩ | ⟨_, _, _, _, _, _, h⟩ <;> cases h
      next => rfl
    rw [State.perform, hc]
    exact .between _ _ _ h
  | notice t =>
    have hn : l.notice t = l := by
      unfold State.notice
      split
      next hk => rcases h.waits hk rfl with ⟨_, _, h | h⟩ | ⟨_, _, _, _, _, _, h⟩ <;> cases h
      next => rfl
    rw [State.perform, hn]
    exact .between _ _ _ h

end Interlude

theorem State.idle_job (hr : l.running = none) (hl : l.step? = some l') :
    ∃ m j, State.Alike l m ∧ l' = m.perform j := by
  have job : ∀ {m : State}, State.Alike l m → m.nextJob = some l' → ∃ m j, State.Alike l m ∧ l' = m.perform j := by
    intro m hm hj
    unfold State.nextJob at hj
    split at hj
    next => cases hj
    next j rest _ =>
      cases hj
      exact ⟨{ m with ready := rest, turnLeft := m.turnLeft - 1 }, j,
        ⟨hm.tasks, hm.running, hm.managers, hm.standalone, hm.engine, hm.next, hm.pools⟩, rfl⟩
  unfold State.step? at hl
  rw [hr] at hl
  dsimp only at hl
  split at hl
  · exact job (m := l.startTurn) ⟨rfl, rfl, rfl, rfl, rfl, rfl, rfl⟩ hl
  · exact job ⟨rfl, rfl, rfl, rfl, rfl, rfl, rfl⟩ hl

theorem Tableau.goesOn (h : Tableau came l) (hfin : l.isFinished 0 = false) (hp : l.GoesOn l') :
    Tableau (came ∨ l.ComesUp) l' := by
  have idle : l.running = none → ¬ l.ComesUp := fun hr ⟨_, hM⟩ => nomatch hr.symm.trans hM
  have works : ∀ {r : Running}, l.running = some r → l' = l.advance r := fun hr => by
    cases hp with
    | loop hs => exact State.step_running hr hs
    | answer hr' | engine _ _ _ hr' | tick _ hr' => cases hr.symm.trans hr'
  cases h with
  | starts url hc hl hr =>
    rw [works hr]
    exact .of_not (fun ⟨_, hM⟩ => nomatch hr.symm.trans hM) (.calls (hl.run _ _) (.bootstrap url) (.boots hc) rfl)
  | calls hl hc hk hr =>
    rw [works hr]
    exact .of_not (fun ⟨_, hM⟩ => nomatch hr.symm.trans hM) (.carryOn (hc.begins hl) hk)
  | gives hl ho hk hr =>
    rw [works hr]
    exact .hears hl ho hk hr
  | sweeps hl hx ht ha hb hw hr =>
    rw [works hr]
    exact .of_not (fun ⟨_, hM⟩ => nomatch hr.symm.trans hM) (.sweepWorks hl hx ht ha hb hw)
  | dies hl ht ha hb hk hr =>
    rw [works hr]
    exact .of_not (fun ⟨_, hM⟩ => nomatch hr.symm.trans hM) (.sweepEnds hl ht ha hb hk)
  | between _ _ _ h =>
    refine .of_not (idle h.running) ?_
    cases hp with
    | loop hs =>
      obtain ⟨m, j, hm, rfl⟩ := State.idle_job h.running hs
      have hfin' : m.isFinished 0 = false := by rw [State.isFinished, hm.tasks]; exact hfin
      exact (h.of hm.managers hm.pools hm.engine hm.tasks hm.running).performs hfin' j
    | @answer t k st hr hk hs =>
      rcases h.waits hk hs with ⟨rfl, rfl, _⟩ | ⟨_, _, _, _, _, n, hn⟩
      · exact h.answers hs
      · cases hn
    | engine rules openings closings hr hrules hclosings =>
      exact .between _ _ _ ⟨⟨h.stands.managers, h.stands.pools, h.stands.opened, h.stands.closes, hrules, hclosings⟩,
        h.tasks, h.expects, h.holds, hr⟩
    | tick now hr => exact .between _ _ _ (h.of rfl rfl rfl rfl rfl)

theorem Demonstration.tableau {url : String} {past : List State} (h : Demonstration url past l) :
    Tableau (∃ m ∈ past, m.ComesUp) l := by
  induction h with
  | start openings hr hc =>
    have hcame : ¬ ∃ m ∈ ([] : List State), m.ComesUp := fun ⟨_, hm, _⟩ => nomatch hm
    exact .between .blank _ [] ⟨⟨rfl, rfl, rfl, rfl, hr, hc⟩, rfl,
      .begins ⟨rfl, rfl⟩ rfl (.begins url hcame), rfl, rfl⟩
  | @step past l l' _ hfin hp ih =>
    have hcame : (∃ m ∈ past ++ [l], m.ComesUp) ↔ ((∃ m ∈ past, m.ComesUp) ∨ l.ComesUp) := by
      simp [or_and_right, exists_or]
    rw [propext hcame]
    exact ih.goesOn hfin hp

end SqliteAccess.Loop
