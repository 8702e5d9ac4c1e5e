import SqliteAccess.Proofs.Access.Returning

/-!
Calls that are in flight while a manager over a pool is shut down. They keep their connections, which
are destroyed when they come back; but a call that has still a statement to run once the manager has no
database fails for want of it.
-/

namespace SqliteAccess.Loop

open Access (Database)
open Sql (Statement)
open SqliteAccess.Pool (Lease)

/-- What a call comes to. -/
inductive Prospect where
  | runs (s : Statement) (m : Access.Mode)
  | ends {u : Shape} (o : Outcome u)

def Prospect.first {u : Shape} (m : Access.Mode) (o : Outcome u) : List Statement → Prospect
  | [] => .ends o
  | s :: _ => .runs s m

/-- What a call comes to that runs statements and has its connection at hand. -/
def Running.prospect? : Running → Option (Lease × Prospect)
  | ⟨_, .borrowed, .give (.ok (some c)), .push (.executing _ s m _) _⟩ => some (c, .runs s m)
  | ⟨_, .answer, .give o, .push (.executed _ (some c) _) _⟩ => some (c, .ends (u := .reply) (o.map some))
  | ⟨_, .borrowed, .give (.ok (some c)), .push (.batching _ ss m _) _⟩ =>
    some (c, .first (u := .answers) m (.ok []) ss)
  | ⟨_, .answer, .give (.ok a), .push (.batched _ (some c) rest m done _) _⟩ =>
    some (c, .first (u := .answers) m (.ok (done ++ [a])) rest)
  | ⟨_, .answer, .give (.error e), .push (.batched _ (some c) _ _ _ _) _⟩ =>
    some (c, .ends (u := .answers) (.error e))
  | _ => none

/-- What becomes of the call of task `t`, which has connection `c`, in its next step. -/
inductive Fares (M p : Nat) (l : State) (t : Nat) (c : Lease) (l' : State) : Prospect → Prop
  | goesOn {d : Database} {s : Statement} {m : Access.Mode} {k : Stack .answer} :
      l.database? M = some d → l'.running = some ⟨t, .answer, .call (.run d c.handle s m), k⟩ →
      l'.lease? t = some c → l'.pool? p = l.pool? p → Fares M p l t c l' (.runs s m)
  | cutShort {s : Statement} {m : Access.Mode} {u : Shape} {k : Task} : l.database? M = none →
      l'.running = some ⟨t, u, .give (.error .missingPart), .done u⟩ → l'.lease? t = none →
      l'.tasks[l.tasks.length]? = some k → Made p (.destroy p c.id) k → Fares M p l t c l' (.runs s m)
  | ends {u : Shape} {o : Outcome u} : l'.running = some ⟨t, u, .give o, .done u⟩ →
      l'.lease? t = none → Rehoused p c.id l l' → Fares M p l t c l' (.ends o)

variable {careless : Prop} {M p t : Nat} {d : Database} {x y : Desk} {l l' : State} {s s' : Pool.State}
  {e u : Shape} {c : Lease} {v : Option Nat}

theorem Shift.disabled (h : Shift M p d l s v l' s') (hn : l.database? M = none) :
    l'.database? M = none := by
  rw [State.database?_eq] at hn ⊢
  cases h with
  | @works t _ _ k _ m _ _ n _ _ _ _ _ hm =>
    have hc : (m.carryOn t n k).bare? M = m.bare? M := by cases n <;> rfl
    rw [hc]
    rcases hm with hm | ⟨_, hm⟩
    · rw [hm]
      exact hn
    · rw [hm]
      cases l.bare? M <;> rfl
  | beside hb =>
    rw [State.bare?_congr hb.outer]
    exact hn

theorem Desk.Step.shift (hs : x.Step M (.pool p d) careless y) (h : x.Lent M p d s) :
    y.loop = x.loop ∨ ∃ v s', Shift M p d x.loop s v y.loop s' := by
  have gives : ∀ {a : Lease}, x.loop.running = none → s.checkRelease a.id = .ok () →
      ∃ v s', Shift M p d x.loop s v (x.loop.giveBack M (some a)).1 s' := by
    intro a hr hc
    obtain ⟨s', cs, hrel, _⟩ := State.release_released h.pool hc
    rw [h.toGrounded.giveBack_eq]
    exact ⟨_, s', .beside (.gives hr hrel (State.outer_release ..))⟩
  cases hs with
  | loop hl =>
    obtain ⟨s', hsh⟩ := h.step_shift hl
    exact .inr ⟨none, s', hsh⟩
  | enter hr hc => exact .inr ⟨_, s, .beside (.enters hr hc.served)⟩
  | spawn hr hc => exact .inr ⟨_, s, .beside (.spawns hr hc.served)⟩
  | runs e st m hr => exact .inr ⟨_, s, .beside (.enters hr (.run _ e _ st m))⟩
  | plans e st m hr => exact .inr ⟨_, s, .beside (.spawns hr (.run _ e _ st m))⟩
  | giveBack hr hk => exact .inr (gives hr (h.used (hk.lease hr)).check)
  | cancel t hr =>
    obtain ⟨s', hsh⟩ := h.toGrounded.cancel_shift hr t
    exact .inr ⟨none, s', hsh⟩
  | answer hr =>
    obtain ⟨s', hsh⟩ := h.toGrounded.answer_shift hr _
    exact .inr ⟨none, s', hsh⟩
  | engine rules openings closings hr =>
    refine .inr ⟨none, s, ?_⟩
    exact h.toGrounded.outside_shift hr rfl rfl rfl rfl rfl
  | tick now hr =>
    refine .inr ⟨none, s, ?_⟩
    exact h.toGrounded.outside_shift hr rfl rfl rfl rfl rfl
  | forget => exact .inl rfl
  | release a _ hr =>
    cases hc : s.checkRelease a.id with
    | ok => exact .inr (gives hr hc)
    | error e =>
      refine .inl ?_
      rw [h.toGrounded.giveBack_eq]
      simp only [State.release, h.pool, hc]
  | destroy id _ hr hw => cases hw; exact .inr ⟨_, s, .beside (.enters hr (.destroy p d id))⟩

theorem Desk.Steps.disabled (hs : Desk.Steps M (.pool p d) careless x y) (h : x.Lent M p d s)
    (hn : x.loop.database? M = none) : y.loop.database? M = none := by
  induction hs with
  | refl => exact hn
  | tail hz hw ih =>
    obtain ⟨s', hs'⟩ := Desk.Steps.lent hz h
    rcases hw.shift hs' with he | ⟨v, s'', hsh⟩
    · rw [he]
      exact ih
    · exact hsh.disabled ih

namespace Desk.Lent

variable (h : x.Lent M p d s)

include h in
theorem fares_ends {f : Frame e u} {a : Outcome e} {restores : Bool} {o : Outcome u}
    (hr : x.loop.running = some ((Work.back f a).on t (.done u)))
    (hret : (Work.back f a).Returns M (some c))
    (hw : resume x.loop f a = x.loop.endCall M (some c) restores o) :
    ∃ l', x.loop.step? = some l' ∧ l'.running = some ⟨t, u, .give o, .done u⟩ ∧ l'.lease? t = none ∧
      Rehoused p c.id x.loop l' := by
  have hu : s.UsedAs true c.id := h.used (t := t) (by rw [h.lease_on hr, hret.lease]; rfl)
  obtain ⟨m, s', cs, he, hrel⟩ := h.toGrounded.endCall_returns hu restores o
  refine ⟨m.carryOn t (.give o) (.done u), ?_, rfl, ?_, hrel.rehoused h.pool hu rfl rfl⟩
  · rw [State.step?, hr]
    show some (x.loop.advance ((Work.back f a).on t (.done u))) = _
    rw [State.advance_on, Work.perform, hw, he]
  · obtain ⟨y, hy, hs⟩ := h.toGrounded.at_work hr
    obtain ⟨z, hz, hn⟩ := hrel.changed.task hy
    rw [State.carryOn_lease ⟨z, hz, hn.running hs⟩]
    rcases hret.ends with rfl | rfl | rfl <;> rfl

include h in
theorem fares_runs {f : Frame e u} {a : Outcome e} {restores : Bool} {st : Statement} {m : Access.Mode}
    {g : Frame .answer u} (hr : x.loop.running = some ((Work.back f a).on t (.done u)))
    (hret : (Work.back f a).Returns M (some c)) (hg : g.lease? = some c)
    (hw : resume x.loop f a = match x.loop.target? M (some c) with
      | none => x.loop.endCall M (some c) restores (.error .missingPart)
      | some (d, c) => (x.loop, .call (.run d c.handle st m) g)) :
    ∃ l', x.loop.step? = some l' ∧ Fares M p x.loop t c l' (.runs st m) := by
  have ht : x.loop.target? M (some c) = (x.loop.database? M).map fun d => (d, c) := by
    simp only [State.target?, State.database?]
    cases x.loop.manager? M with
    | none => rfl
    | some k => cases hk : k.database <;> simp [hk]
  cases hd : x.loop.database? M with
  | none =>
    rw [hd] at ht
    simp only [ht, Option.map_none] at hw
    obtain ⟨l', hl, hrun, hlease, hhome⟩ := h.fares_ends hr hret hw
    obtain ⟨k, hk, hm⟩ := hhome.closed h.pool (h.disabled hd)
    exact ⟨l', hl, .cutShort hd hrun hlease hk hm⟩
  | some b =>
    rw [hd] at ht
    simp only [ht, Option.map_some] at hw
    refine ⟨x.loop.carryOn t (.call (.run b c.handle st m) g) (.done u), ?_, .goesOn hd rfl ?_ rfl⟩
    · rw [State.step?, hr]
      show some (x.loop.advance ((Work.back f a).on t (.done u))) = _
      rw [State.advance_on, Work.perform, hw]
    · rw [State.carryOn_lease (h.toGrounded.at_work hr), Next.lease?, hg]
      rfl

include h in
theorem fares {r : Running} {f : Prospect} (hr : x.loop.running = some r) (hf : r.prospect? = some (c, f)) :
    ∃ l', x.loop.step? = some l' ∧ Fares M p x.loop r.task c l' f := by
  obtain ⟨t, v, g, k⟩ := r
  -- The call is one of this manager, and nobody's part.
  have owner : ∀ {u v : Shape} {f : Frame v u} {o : Outcome v} {k : Stack u},
      x.loop.running = some ((Work.back f o).on t k) → u = .reply ∨ u = .answers ∨ u = .sighting →
      k = .done u ∧ ∃ e, f.PartOf M (.pool p d) e := by
    intro u v f o k hr hu
    obtain ⟨e, hw, hk⟩ := h.tended.work hr
    cases hw with
    | back _ hf => exact ⟨hk.alone hu, e, hf⟩
  unfold Running.prospect? at hf
  split at hf
  next _ _ N st m restores k he =>
    cases he
    cases hf
    obtain ⟨rfl, e, hw⟩ := owner (f := .executing N st m restores) hr (by simp)
    cases hw with
    | called hf => cases hf; exact h.fares_runs hr (.executing st m restores _) rfl rfl
  next _ o N _ restores k he =>
    cases he
    cases hf
    obtain ⟨rfl, e, hw⟩ := owner (f := .executed N (some c) restores) hr (by simp)
    cases hw with
    | called hf =>
      cases hf
      obtain ⟨l', hl, hrun, hlease, hhome⟩ := h.fares_ends hr (.executed _ restores o) rfl
      exact ⟨l', hl, .ends hrun hlease hhome⟩
  next _ _ N ss m restores k he =>
    cases he
    cases hf
    obtain ⟨rfl, e, hw⟩ := owner (f := .batching N ss m restores) hr (by simp)
    cases hw with
    | called hf =>
      cases hf
      cases ss with
      | nil =>
        obtain ⟨l', hl, hrun, hlease, hhome⟩ := h.fares_ends hr (.batching [] m restores _) rfl
        exact ⟨l', hl, .ends hrun hlease hhome⟩
      | cons st rest => exact h.fares_runs hr (.batching (st :: rest) m restores _) rfl rfl
  next _ a N _ rest m done restores k he =>
    cases he
    cases hf
    obtain ⟨rfl, e, hw⟩ := owner (f := .batched N (some c) rest m done restores) hr (by simp)
    cases hw with
    | called hf =>
      cases hf
      cases rest with
      | nil =>
        obtain ⟨l', hl, hrun, hlease, hhome⟩ := h.fares_ends hr (.batched _ [] m done restores _) rfl
        exact ⟨l', hl, .ends hrun hlease hhome⟩
      | cons st rest => exact h.fares_runs hr (.batched _ (st :: rest) m done restores _) rfl rfl
  next _ e N _ rest m done restores k he =>
    cases he
    cases hf
    obtain ⟨rfl, e', hw⟩ := owner (f := .batched N (some c) rest m done restores) hr (by simp)
    cases hw with
    | called hf =>
      cases hf
      obtain ⟨l', hl, hrun, hlease, hhome⟩ := h.fares_ends hr (.batched _ rest m done restores _) rfl
      exact ⟨l', hl, .ends hrun hlease hhome⟩
  next => cases hf

end Desk.Lent

/-- A call that has its connection goes on, whether or not the manager is being shut down, until it comes
to its end, or to a statement that it has to run while the manager has no database. -/
theorem calls_in_flight (h : l.Reaches M (.pool p d) careless x) :
    (∀ r c f, x.loop.running = some r → r.prospect? = some (c, f) →
      ∃ l', x.loop.step? = some l' ∧ Fares M p x.loop r.task c l' f) ∧
    (x.loop.database? M = none → ∀ y, Desk.Steps M (.pool p d) careless x y → y.loop.database? M = none) := by
  obtain ⟨s, hs⟩ := h.lent
  exact ⟨fun _ _ _ hr hf => hs.fares hr hf, fun hn _ hy => hy.disabled hs hn⟩

def pooling : State :=
  (({ managers := [{}] } : State).spawn (.setUp 0 (some { filename := "f" })
    (.pooled { minConnections := .int 0 })) []).1.settleWithin 20

theorem pooling_ready : pooling.Idle ∧ pooling.SetUp 0 (.pool 0 { location := { filename := "f" } }) := by
  refine ⟨⟨rfl, fun i k hk => ?_⟩, ⟨_, rfl, rfl, rfl, rfl⟩, _, rfl⟩
  match i with
  | 0 =>
    cases hk
    exact ⟨⟨_, _, rfl⟩, rfl, nofun⟩
  | n + 1 => cases hk

def slowed : Desk :=
  let x := ({ loop := pooling.enter (.borrow 0) } : Desk).settle 18
  { x with loop := x.loop.modifyEngine fun e =>
      { e with rules := [{ start := "select 1", hold := true }], openings := [], closings := [{ hold := true }] } }

def underWay : Desk :=
  ({ slowed with loop :=
      (slowed.loop.spawn (.executeAll 0 [⟨"select 1", []⟩, ⟨"select 2", []⟩] (.text "read")) []).1 } : Desk).settle 20

def restsAgain : Desk :=
  { underWay with loop := (underWay.loop.giveBack 0 (some ⟨1, .numbered 1⟩)).1, returned := [1] }

def inClose : Desk := ({ restsAgain with loop := restsAgain.loop.enter (.shutDown 0) } : Desk).settle 10

def secondBeside : Desk := ({ inClose with loop := inClose.loop.answerHeld 3 } : Desk).settle 3

set_option maxRecDepth 4000 in
theorem secondBeside_reached :
    pooling.Reaches 0 (.pool 0 { location := { filename := "f" } }) False secondBeside := by
  obtain ⟨hi, hs⟩ := pooling_ready
  have hslowed : Desk.Steps 0 (.pool 0 { location := { filename := "f" } }) False ⟨pooling, [], []⟩ slowed :=
    (Relation.ReflTransGen.head (.enter rfl (.borrow _)) (Desk.settle_steps ..)).tail (.engine _ _ _ rfl)
  have hunder : Desk.Steps 0 (.pool 0 { location := { filename := "f" } }) False slowed underWay :=
    .head (.spawn rfl (.executeAll _ _ _)) (Desk.settle_steps ..)
  have hrests : Desk.Step 0 (.pool 0 { location := { filename := "f" } }) False underWay restsAgain := by
    refine .giveBack (t := 1) rfl ⟨List.not_mem_nil, _, rfl, rfl⟩ (.inr fun i k signal d s m hk hs => ?_)
    match i with
    | 0 | 1 | 2 | 3 => cases hk; cases hs
    | n + 4 => cases hk
  have hclose : Desk.Steps 0 (.pool 0 { location := { filename := "f" } }) False restsAgain inClose :=
    .head (.enter rfl (.shutDown _)) (Desk.settle_steps ..)
  exact ⟨hi, hs, hslowed.trans <| hunder.trans <| .head hrests <| hclose.trans <|
    .head (.answer rfl rfl rfl) (Desk.settle_steps ..)⟩

set_option maxRecDepth 4000 in
/-- The manager still has its database, and the batch goes on. -/
theorem calls_in_flight_secondBeside :
    pooling.Reaches 0 (.pool 0 { location := { filename := "f" } }) False secondBeside ∧
      ((secondBeside.loop.engine.held.map fun h => (h.task, h.label)) = [(4, "close")] ∧
        (secondBeside.loop.database? 0).isSome = true) ∧
      ∃ r, secondBeside.loop.running = some r ∧ r.task = 3 ∧
        ∃ l', secondBeside.loop.step? = some l' ∧
          Fares 0 0 secondBeside.loop r.task ⟨2, .numbered 2⟩ l' (.runs ⟨"select 2", []⟩ .read) := by
  have hp : secondBeside.loop.running.bind Running.prospect? =
      some (⟨2, .numbered 2⟩, .runs ⟨"select 2", []⟩ .read) := rfl
  have ht : secondBeside.loop.running.map (·.task) = some 3 := rfl
  obtain ⟨r, hr, hf⟩ := Option.bind_eq_some_iff.mp hp
  rw [hr, Option.map_some, Option.some.injEq] at ht
  exact ⟨secondBeside_reached, ⟨by decide +kernel, by decide +kernel⟩, r, hr, ht,
    (calls_in_flight secondBeside_reached).1 r _ _ hr hf⟩

def batchHeld : Desk :=
  let l := pooling.modifyEngine fun e => { e with rules := [{ start := "select 1", hold := true }], openings := [] }
  ({ loop := (l.spawn (.executeAll 0 [⟨"select 1", []⟩, ⟨"select 2", []⟩] (.text "read")) []).1 } :
    Desk).settle 19

def shutBeside : Desk := ({ batchHeld with loop := batchHeld.loop.enter (.shutDown 0) } : Desk).settle 10

def secondDue : Desk := ({ shutBeside with loop := shutBeside.loop.answerHeld 1 } : Desk).settle 3

theorem secondDue_reached :
    pooling.Reaches 0 (.pool 0 { location := { filename := "f" } }) False secondDue := by
  obtain ⟨hi, hs⟩ := pooling_ready
  have hheld : Desk.Steps 0 (.pool 0 { location := { filename := "f" } }) False ⟨pooling, [], []⟩ batchHeld :=
    .head (.engine _ _ _ rfl) (.head (.spawn rfl (.executeAll _ _ _)) (Desk.settle_steps ..))
  have hshut : Desk.Steps 0 (.pool 0 { location := { filename := "f" } }) False batchHeld shutBeside :=
    .head (.enter rfl (.shutDown _)) (Desk.settle_steps ..)
  exact ⟨hi, hs, hheld.trans (hshut.trans (.head (.answer rfl rfl rfl) (Desk.settle_steps ..)))⟩

/-- The batch had its connection when the manager was shut down, and the engine has rejected nothing. It
fails with an internal error, and its second statement is not run. -/
theorem batch_fails_midway :
    pooling.Reaches 0 (.pool 0 { location := { filename := "f" } }) False (secondDue.settle 2) ∧
      batchHeld.lease? 1 = some ⟨1, .numbered 1⟩ ∧
      ((secondDue.settle 2).loop.isFinished 1 = true ∧
        (secondDue.settle 2).loop.endOf 1 = .error .missingPart) ∧
      ((secondDue.settle 2).sent.filter fun q => !q.prepares).map (·.statement.sql) = ["select 1"] := by
  obtain ⟨hi, hs, hsteps⟩ := secondDue_reached
  exact ⟨⟨hi, hs, hsteps.trans (Desk.settle_steps ..)⟩, by decide +kernel, by decide +kernel,
    by decide +kernel⟩

end SqliteAccess.Loop
