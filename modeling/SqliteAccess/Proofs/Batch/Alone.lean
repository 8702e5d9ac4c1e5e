import SqliteAccess.Proofs.Batch.InOrder

/-!
A batch of statements runs alone, in order, on one connection, whatever the other clients of its manager do
in the meantime.
-/

namespace SqliteAccess.Loop

open Access (Database Mode)
open Sql (Statement)
open SqliteAccess.Pool (Handle Lease)

/-- What comes of a batch that the task runs, where `qs` is what the engine has been sent since the batch has
begun: its own statements in order, all on one handle, on which nobody else sends anything in between. -/
structure Desk.Batch (y : Desk) (t : Nat) (b : Option Database) (ss : List Statement) (mode : Value)
    (qs : List Sent) : Prop where
  inOrder : (qs.filter (Sent.own t)).map (·.statement) <+: ss
  alone : ∃ h before during after, qs = before ++ during ++ after ∧ before.filter (Sent.own t) = [] ∧
    after.filter (Sent.own t) = [] ∧ ∀ q ∈ during, q.handle = h ↔ q.own t = true
  returns : b ≠ none → ∀ as, y.loop.Ended t (u := .answers) (.ok as) →
    (qs.filter (Sent.own t)).map (·.statement) = ss ∧
      ∃ m, Mode.ofValue mode = .ok m ∧ Answered m (qs.filter (Sent.own t)) as
  rejected : ∀ q ∈ qs.filter (Sent.own t), ∀ f, q.rule.fault = some f → f.isEngine = true →
    (qs.filter (Sent.own t)).getLast? = some q ∧ ∀ o, y.loop.Ended t (u := .answers) o →
      o = .error (.rejected f.message q.statement.sql) ∨ q.rule.hold = true ∧ o = .error .cancelled

structure Desk.Amid (M t : Nat) (b : Option Database) (ss : List Statement) (mode : Value) (qs : List Sent)
    (x : Desk) : Prop where
  stage : ∃ lease p, x.loop.point? t = some p ∧ Stage M b ss mode lease (qs.filter (Sent.own t)) p ∧
    Parted t lease qs

variable {M t : Nat} {way : Route} {b : Option Database} {ss : List Statement} {mode : Value} {qs : List Sent}
  {q : Sent} {c : Lease} {lease : Option Lease} {p : Point} {l : State} {x y z : Desk} {u : Shape} {o : Outcome u}

theorem State.Ended.point (h : l.Ended t o) : l.point? t = some (.ended o) := by
  obtain ⟨k, hk, hs⟩ := h
  rw [State.point?, hk, Option.bind_some, hs]
  rfl

theorem Verdict.inOrder {o : Outcome .answers} (h : Verdict b ss mode qs o) : qs.map (·.statement) <+: ss := by
  cases h with
  | skips => exact List.nil_prefix
  | returns _ hall => exact hall ▸ List.prefix_refl _
  | fails _ hss => exact hss
  | rejects hss => exact hss

theorem Stage.has (h : Stage M b ss mode (some c) qs p) :
    p.lease? = some c ∧ (∀ g, ¬ p.Owns M g) ∧ ∀ (v : Shape) (o : Outcome v), p ≠ .ended o := by
  cases h with
  | runs | sends | told | heard | comes => exact ⟨rfl, fun g ho => ho.idle _ _ rfl, fun v o he => by cases he⟩
  | hears =>
    refine ⟨rfl, fun g ho => ?_, fun v o he => by cases he⟩
    cases ho with
    | keeps hk => cases hk

theorem Stage.inOrder (h : Stage M b ss mode lease qs p) : qs.map (·.statement) <+: ss := by
  cases h with
  | borrows => exact List.nil_prefix
  | runs c d restores hmid => exact hmid.before
  | sends c d start restores hmid => exact hmid.before
  | hears c d start restores hmid => exact hmid.upTo
  | told c d start restores hmid => exact hmid.upTo
  | heard c d start restores hmid => exact hmid.upTo
  | comes c restores hmid => exact hmid.upTo
  | gives hv => exact hv.inOrder
  | ended hv => exact hv.inOrder

theorem Stage.last {f : Fault} (h : Stage M b ss mode lease qs p) (hq : q ∈ qs) (hf : q.rule.fault = some f) :
    qs.getLast? = some q := by
  have clean : ∀ {qs : List Sent}, (∀ q ∈ qs, q.rule.fault = none) → q ∉ qs := fun hall hin =>
    nomatch (hall q hin).symm.trans hf
  have final : ∀ {qs : List Sent} {q' : Sent}, (∀ q ∈ qs, q.rule.fault = none) → q ∈ qs ++ [q'] →
      (qs ++ [q']).getLast? = some q := by
    intro qs q' hall hin
    rcases List.mem_append.mp hin with hin | hin
    · exact absurd hin (clean hall)
    · rw [List.getLast?_concat, List.mem_singleton.mp hin]
  have verdict : ∀ {o : Outcome .answers}, Verdict b ss mode qs o → qs.getLast? = some q := by
    intro o hv
    cases hv with
    | skips => cases hq
    | returns _ _ ha => exact absurd hq (clean ha.clean)
    | fails _ _ hall => exact absurd hq (clean hall)
    | rejects _ hall => exact final hall hq
  cases h with
  | borrows => cases hq
  | runs c d restores hmid => exact absurd hq (clean hmid.answered.clean)
  | sends c d start restores hmid => exact absurd hq (clean hmid.answered.clean)
  | hears c d start restores hmid => exact final hmid.answered.clean hq
  | told c d start restores hmid => exact final hmid.answered.clean hq
  | heard c d start restores hmid => exact final hmid.answered.clean hq
  | comes c restores hmid => exact final hmid.answered.clean hq
  | gives hv => exact verdict hv
  | ended hv => exact verdict hv

theorem Stage.verdict {o : Outcome .answers} (h : Stage M b ss mode lease qs (.ended o)) :
    Verdict b ss mode qs o := by
  cases h with
  | borrows _ hp => cases hp
  | ended hv => exact hv

theorem Verdict.blames {o : Outcome .answers} {f : Fault} (h : Verdict b ss mode qs o) (hq : q ∈ qs)
    (hf : q.rule.fault = some f) (he : f.isEngine = true) :
    o = .error (.rejected f.message q.statement.sql) ∨ q.rule.hold = true ∧ o = .error .cancelled := by
  have clean : ∀ {qs : List Sent}, (∀ q ∈ qs, q.rule.fault = none) → q ∉ qs := fun hall hin =>
    nomatch (hall q hin).symm.trans hf
  cases h with
  | skips => cases hq
  | returns _ _ ha => exact absurd hq (clean ha.clean)
  | fails _ _ hall => exact absurd hq (clean hall)
  | rejects _ hall hblames =>
    rcases List.mem_append.mp hq with hq | hq
    · exact absurd hq (clean hall)
    · obtain rfl := List.mem_singleton.mp hq
      exact (hblames f hf he).imp (congrArg Except.error) fun ⟨hh, hc⟩ => ⟨hh, congrArg Except.error hc⟩

theorem Desk.Step.sent_eq (hs : x.Step M way False y) : y.sent = x.sent ++ x.loop.sends := by
  rcases hs.arrival with ⟨_, hp⟩ | ⟨hr, hp, _⟩
  · simp [Desk.sent, hp]
  · rw [State.sends_idle hr, List.append_nil, Desk.sent, hp]
    rfl

theorem Desk.Amid.elsewhere (hx : l.Reaches M way False x) (hl : l.Lived) (hp : x.loop.point? t = some p)
    (hst : Stage M b ss mode (some c) (qs.filter (Sent.own t)) p) (hq : q ∈ x.loop.sends) (hne : q.task ≠ t) :
    q.handle ≠ c.handle := by
  intro he
  obtain ⟨hlease, howns, hend⟩ := hst.has
  have hret : t ∉ x.returned := fun hin => by
    obtain ⟨v, o, he⟩ := hx.managed.returned_ended hin
    exact hend v o (Option.some.inj (hp.symm.trans he))
  obtain ⟨k, hr, _⟩ := State.sends_cases hq
  rw [he] at hr
  exact hne (hx.exclusive hl ((Desk.lease?_point hx.managed hret hp).trans hlease) hp (howns _) hr)

theorem Desk.Amid.step (h : x.Amid M t b ss mode qs) (hx : l.Reaches M way False x) (hl : l.Lived)
    (hs : x.Step M way False y) : y.Amid M t b ss mode (qs ++ x.loop.sends) := by
  obtain ⟨lease, p, hp, hst, hparted⟩ := h
  have hat := hx.managed.tended.atWork
  obtain ⟨p', hp', hgets⟩ := hs.happens.gets hat hp
  have others : (∀ q ∈ x.loop.sends, q.task ≠ t) → ∀ {p'}, y.loop.point? t = some p' →
      Stage M b ss mode lease (qs.filter (Sent.own t)) p' → y.Amid M t b ss mode (qs ++ x.loop.sends) := by
    intro hother p' hp' hst'
    have hown : ∀ q ∈ x.loop.sends, q.own t = false := fun q hq => by simp [Sent.own, hother q hq]
    have hnone : x.loop.sends.filter (Sent.own t) = [] := List.filter_eq_nil_iff.mpr fun q hq => by simp [hown q hq]
    refine ⟨lease, p', hp', ?_, ?_⟩
    · rw [List.filter_append, hnone, List.append_nil]
      exact hst'
    · cases lease with
      | none => exact hparted.others hown
      | some c =>
        refine hparted.sends fun q hq => iff_of_false ?_ (by simp [hown q hq])
        exact Desk.Amid.elsewhere hx hl hp hst hq (hother q hq)
  have idle : x.loop.running = none → ∀ q ∈ x.loop.sends, q.task ≠ t := fun hr q hq => by
    rw [State.sends_idle hr] at hq
    cases hq
  cases hgets with
  | stays hne =>
    refine others (fun q hq => ?_) hp' hst
    obtain ⟨k, hr, _⟩ := State.sends_cases hq
    exact hne _ hr
  | works hr he =>
    obtain ⟨lease', hst', hpart⟩ := hst.works hr fun c hy => (hx.managed.home hy).1
    refine ⟨lease', _, hp', ?_, hpart _ rfl hparted⟩
    rw [List.filter_append]
    exact hst'
  | @ends v o hr =>
    refine others (fun q hq => ?_) hp' ?_
    · obtain ⟨k, hr', _⟩ := State.sends_cases hq
      cases hr.symm.trans hr'
    · generalize qs.filter (Sent.own t) = own at hst
      generalize hg : Point.works (.give o) (.done v) = p at hst
      cases hst with
      | borrows hm hw =>
        subst hg
        cases hw
      | gives hv =>
        cases hg
        exact .ended hv
      | runs | sends | hears | told | heard | comes | ended => cases hg
  | goesOn hr hr' =>
    refine others (idle hr) hp' ?_
    generalize qs.filter (Sent.own t) = own at hst
    cases hst with
    | borrows hm hw => exact .borrows hm hw
    | hears c d start restores hmid hhold =>
      exact .told c d start restores hmid hhold (hx.attentive.resumes hs.happens hr hr')

theorem Desk.Step.begins (hx : l.Reaches M way False x)
    (hr : x.loop.running = some ⟨t, .answers, .call (.executeAll M ss mode), .done .answers⟩)
    (hs : x.Step M way False y) : y.Amid M t (x.loop.database? M) ss mode [] := by
  rcases hs.arrival with ⟨hl, _⟩ | ⟨hr', _⟩
  · cases hx.managed.stride hl with
    | @works _ _ w _ _ hr' _ hp =>
      cases w with
      | back => cases hr.symm.trans hr'
      | call =>
        cases hr.symm.trans hr'
        exact ⟨none, _, hp, Stage.begins x.loop M ss mode, .of_none rfl none⟩
    | ends hr' | goesOn hr' | rests hr' => cases hr.symm.trans hr'
  · cases hr.symm.trans hr'

theorem Desk.Steps.amid (hx : l.Reaches M way False x) (hl : l.Lived)
    (hr : x.loop.running = some ⟨t, .answers, .call (.executeAll M ss mode), .done .answers⟩)
    (hs : Desk.Steps M way False x y) :
    y = x ∨ ∃ qs, y.sent = x.sent ++ qs ∧ y.Amid M t (x.loop.database? M) ss mode qs := by
  induction hs with
  | refl => exact .inl rfl
  | @tail y z hy hs ih =>
    refine .inr ?_
    rcases ih with rfl | ⟨qs, hsent, ham⟩
    · refine ⟨[], ?_, hs.begins hx hr⟩
      rw [hs.sent_eq, State.sends, hr]
    · refine ⟨qs ++ y.loop.sends, ?_, ham.step ⟨hx.idle, hx.setUp, hx.steps.trans hy⟩ hl hs⟩
      rw [hs.sent_eq, hsent, List.append_assoc]

theorem Parted.alone (h : Parted t lease qs) : ∃ g before during after, qs = before ++ during ++ after ∧
    before.filter (Sent.own t) = [] ∧ after.filter (Sent.own t) = [] ∧
      ∀ q ∈ during, q.handle = g ↔ q.own t = true := by
  cases h with
  | @has c before during hbefore hduring => exact ⟨c.handle, before, during, [], by simp, hbefore, rfl, hduring⟩
  | hasNot g hbefore hduring hafter => exact ⟨g, _, _, _, rfl, hbefore, hafter, hduring⟩

theorem Desk.Amid.batch (h : x.Amid M t b ss mode qs) : x.Batch t b ss mode qs := by
  obtain ⟨lease, p, hp, hst, hparted⟩ := h
  have ended : ∀ {o : Outcome .answers}, x.loop.Ended t o → Verdict b ss mode (qs.filter (Sent.own t)) o := by
    intro o ho
    cases hp.symm.trans ho.point
    exact hst.verdict
  refine ⟨hst.inOrder, hparted.alone, fun hb as ho => ?_, fun q hq f hf he => ⟨hst.last hq hf, fun o ho => ?_⟩⟩
  · generalize qs.filter (Sent.own t) = own at ended
    cases ended ho with
    | skips hnone => exact absurd hnone hb
    | returns hm hss ha => exact ⟨hss, _, hm, ha⟩
  · exact (ended ho).blames hq hf he

/-- A batch of statements runs alone, in order, on one connection, from the step in which it begins. -/
theorem batch_alone_in_order (hx : l.Reaches M way False x) (hl : l.Lived)
    (hr : x.loop.running = some ⟨t, .answers, .call (.executeAll M ss mode), .done .answers⟩)
    (hs : Desk.Steps M way False x y) :
    ∃ qs, y.sent = x.sent ++ qs ∧ y.Batch t (x.loop.database? M) ss mode qs := by
  rcases Desk.Steps.amid hx hl hr hs with rfl | ⟨qs, hsent, ham⟩
  · refine ⟨[], (List.append_nil _).symm, List.nil_prefix, ?_, fun _ as ho => ?_, by simp⟩
    · exact ⟨.stray, [], [], [], rfl, rfl, rfl, List.forall_mem_nil _⟩
    · obtain ⟨_, k, hk, hs⟩ := hx.managed.tended.running _ hr
      obtain ⟨k', hk', hs'⟩ := ho
      cases hk.symm.trans hk'
      cases hs.symm.trans hs'
  · exact ⟨qs, hsent, ham.batch⟩

theorem sharing_lived : sharing.Lived := by
  obtain ⟨blank, past, hb, hc⟩ := newManager_lived
  have hspawned := hc.step (.spawn (c := .setUp 0 (some { filename := "f" }) .single) rfl trivial)
  obtain ⟨past', hc'⟩ := hspawned.settleWithin 20
  exact ⟨blank, past', hb, hc'⟩

def batchBegun : Desk :=
  { loop := (sharing.modifyEngine fun e => { e with rules := [{ start := "select 1", hold := true }], openings := [] }).enter
      (.executeAll 0 [⟨"select 1", []⟩, ⟨"select 2", []⟩] (.text "read")) }

def batchOver : Desk :=
  let x := (batchBegun.settle 20).called (.execute 0 ⟨"select 3", []⟩ (.text "read"))
  ({ x with loop := x.loop.answerHeld 1 } : Desk).settle 30

theorem batchBegun_reached : sharing.Reaches 0 .single False batchBegun := by
  obtain ⟨hi, hs, _⟩ := sharing_ready
  have hslow : Desk.Steps 0 .single False ⟨sharing, [], []⟩ _ :=
    .single (.engine [{ start := "select 1", hold := true }] [] [] rfl)
  exact ⟨hi, hs, hslow.tail (.enter rfl (.executeAll .single _ (.text "read")))⟩

theorem batchOver_reached : Desk.Steps 0 .single False batchBegun batchOver := by
  have hother := (Desk.settle_steps 0 .single False 20 batchBegun).trans
    (Desk.called_steps rfl (.execute .single ⟨"select 3", []⟩ (.text "read")))
  exact hother.trans (.head (.answer (t := 1) rfl rfl rfl) (Desk.settle_steps ..))

theorem batch_alone_in_order_over :
    (sharing.Reaches 0 .single False batchBegun ∧ sharing.Lived ∧ Desk.Steps 0 .single False batchBegun batchOver) ∧
      (∃ qs, batchOver.sent = batchBegun.sent ++ qs ∧
        batchOver.Batch 1 (batchBegun.loop.database? 0) [⟨"select 1", []⟩, ⟨"select 2", []⟩] (.text "read") qs) ∧
      batchOver.sent.map (fun q => (q.task, q.handle, q.statement.sql)) =
        [(1, .numbered 1, "select 1"), (1, .numbered 1, "select 2"), (2, .numbered 1, "select 3")] ∧
      (batchOver.loop.isFinished 1 && batchOver.loop.isFinished 2) = true :=
  ⟨⟨batchBegun_reached, sharing_lived, batchOver_reached⟩,
    batch_alone_in_order batchBegun_reached sharing_lived rfl batchOver_reached, by decide +kernel, by decide +kernel⟩

end SqliteAccess.Loop
