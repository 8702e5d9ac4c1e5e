import SqliteAccess.Proofs.Batch.Borrowing
import SqliteAccess.Proofs.Batch.Exclusive

/-!
A batch of statements, from the step in which it begins. It sends its statements in order, on one
connection, and nobody else sends anything on that connection until the batch is through with it.
-/

namespace SqliteAccess.Loop

open Access (Answer Database Mode)
open Sql (Statement)
open SqliteAccess.Pool (Handle Lease)

def Sent.own (t : Nat) (q : Sent) : Bool := q.task = t && !q.prepares

inductive Sent.Heard (q : Sent) : Outcome .cursor → Prop
  | answered : Sent.Heard q (State.orFault q.rule.fault q.rule.cursor)
  | cancelled : q.rule.hold = true → Sent.Heard q (.error .cancelled)

def Sent.Blames (q : Sent) (e : Failure) : Prop :=
  ∀ f, q.rule.fault = some f → f.isEngine = true →
    e = .rejected f.message q.statement.sql ∨ q.rule.hold = true ∧ e = .cancelled

inductive Sent.Comes (m : Mode) (q : Sent) : Outcome .answer → Prop
  | ok : q.rule.fault = none → Sent.Comes m q (.ok (q.rule.cursor.answer m))
  | error {e : Failure} : q.Blames e → Sent.Comes m q (.error e)

def Answered (m : Mode) (qs : List Sent) (as : List Answer) : Prop :=
  List.Forall₂ (fun q a => q.rule.fault = none ∧ a = q.rule.cursor.answer m) qs as

structure Midway (ss : List Statement) (mode : Value) (m : Mode) (qs : List Sent) (s : Statement)
    (rest : List Statement) (as : List Answer) : Prop where
  mode : Mode.ofValue mode = .ok m
  split : qs.map (·.statement) ++ s :: rest = ss
  answered : Answered m qs as

inductive Verdict (b : Option Database) (ss : List Statement) (mode : Value) :
    List Sent → Outcome .answers → Prop
  | skips : b = none → Verdict b ss mode [] (.ok [])
  | returns {m : Mode} {qs : List Sent} {as : List Answer} : Mode.ofValue mode = .ok m →
      qs.map (·.statement) = ss → Answered m qs as → Verdict b ss mode qs (.ok as)
  | fails {qs : List Sent} (e : Failure) : qs.map (·.statement) <+: ss → (∀ q ∈ qs, q.rule.fault = none) →
      Verdict b ss mode qs (.error e)
  | rejects {qs : List Sent} {q : Sent} {e : Failure} : (qs ++ [q]).map (·.statement) <+: ss →
      (∀ q ∈ qs, q.rule.fault = none) → q.Blames e → Verdict b ss mode (qs ++ [q]) (.error e)

abbrev Stack.ofBatch (M : Nat) (c : Lease) (rest : List Statement) (m : Mode) (as : List Answer) (restores : Bool) :
    Stack .answer :=
  .push (.batched M (some c) rest m as restores) (.done .answers)

/-- How far a batch has got after its first step: the connection that it has, and what it has sent. -/
inductive Stage (M : Nat) (b : Option Database) (ss : List Statement) (mode : Value) :
    Option Lease → List Sent → Point → Prop
  | borrows {m : Mode} {restores : Bool} {p : Point} : Mode.ofValue mode = .ok m →
      borrowing.Within (.push (.batching M ss m restores) (.done .answers)) p → Stage M b ss mode none [] p
  | runs {m : Mode} {qs : List Sent} {s : Statement} {rest : List Statement} {as : List Answer} (c : Lease)
      (d : Database) (restores : Bool) : Midway ss mode m qs s rest as →
      Stage M b ss mode (some c) qs (.works (.call (.run d c.handle s m)) (.ofBatch M c rest m as restores))
  | sends {m : Mode} {qs : List Sent} {s : Statement} {rest : List Statement} {as : List Answer} (c : Lease)
      (d : Database) (start : Float) (restores : Bool) : Midway ss mode m qs s rest as →
      Stage M b ss mode (some c) qs (.works (.call (.send c.handle s))
        (.push (.ran d s.sql m start) (.ofBatch M c rest m as restores)))
  | hears {m : Mode} {qs : List Sent} {q : Sent} {rest : List Statement} {as : List Answer} (c : Lease)
      (d : Database) (start : Float) (restores : Bool) : Midway ss mode m qs q.statement rest as →
      q.rule.hold = true →
      Stage M b ss mode (some c) (qs ++ [q]) (.waits (.push (.sent q.rule)
        (.push (.ran d q.statement.sql m start) (.ofBatch M c rest m as restores))))
  | told {m : Mode} {qs : List Sent} {q : Sent} {rest : List Statement} {as : List Answer} {o : Outcome .unit}
      (c : Lease) (d : Database) (start : Float) (restores : Bool) : Midway ss mode m qs q.statement rest as →
      q.rule.hold = true → o = .ok () ∨ o = .error .cancelled →
      Stage M b ss mode (some c) (qs ++ [q]) (.works (.give o) (.push (.sent q.rule)
        (.push (.ran d q.statement.sql m start) (.ofBatch M c rest m as restores))))
  | heard {m : Mode} {qs : List Sent} {q : Sent} {rest : List Statement} {as : List Answer} {o : Outcome .cursor}
      (c : Lease) (d : Database) (start : Float) (restores : Bool) : Midway ss mode m qs q.statement rest as →
      q.Heard o → Stage M b ss mode (some c) (qs ++ [q])
        (.works (.give o) (.push (.ran d q.statement.sql m start) (.ofBatch M c rest m as restores)))
  | comes {m : Mode} {qs : List Sent} {q : Sent} {rest : List Statement} {as : List Answer} {o : Outcome .answer}
      (c : Lease) (restores : Bool) : Midway ss mode m qs q.statement rest as → q.Comes m o →
      Stage M b ss mode (some c) (qs ++ [q]) (.works (.give o) (.ofBatch M c rest m as restores))
  | gives {qs : List Sent} {o : Outcome .answers} : Verdict b ss mode qs o →
      Stage M b ss mode none qs (.works (.give o) (.done .answers))
  | ended {qs : List Sent} {o : Outcome .answers} : Verdict b ss mode qs o →
      Stage M b ss mode none qs (.ended (u := .answers) o)

inductive Parted (t : Nat) : Option Lease → List Sent → Prop
  | has {c : Lease} {before during : List Sent} : before.filter (Sent.own t) = [] →
      (∀ q ∈ during, q.handle = c.handle ↔ q.own t = true) → Parted t (some c) (before ++ during)
  | hasNot {before during after : List Sent} (h : Handle) : before.filter (Sent.own t) = [] →
      (∀ q ∈ during, q.handle = h ↔ q.own t = true) → after.filter (Sent.own t) = [] →
      Parted t none (before ++ during ++ after)

variable {M t i : Nat} {way : Route} {b : Option Database} {ss rest : List Statement} {mode : Value} {m : Mode}
  {qs new : List Sent} {q : Sent} {s : Statement} {as : List Answer} {lease lease' : Option Lease} {c : Lease}
  {p p' : Point} {l l' : State} {u : Shape} {w : Work u} {k : Stack u} {restores : Bool} {x y z : Desk}
  {may : {s : Shape} → State → Call s → Prop}

theorem Answered.clean (h : Answered m qs as) : ∀ q ∈ qs, q.rule.fault = none := by
  induction h with
  | nil => exact List.forall_mem_nil _
  | cons hq _ ih => exact List.forall_mem_cons.mpr ⟨hq.1, ih⟩

theorem Answered.snoc (h : Answered m qs as) (hq : q.rule.fault = none) :
    Answered m (qs ++ [q]) (as ++ [q.rule.cursor.answer m]) :=
  List.rel_append h (.cons ⟨hq, rfl⟩ .nil)

theorem Midway.before (h : Midway ss mode m qs s rest as) : qs.map (·.statement) <+: ss :=
  ⟨s :: rest, h.split⟩

theorem Midway.upTo (h : Midway ss mode m qs q.statement rest as) : (qs ++ [q]).map (·.statement) <+: ss :=
  ⟨rest, by rw [List.map_append, List.append_assoc]; exact h.split⟩

theorem State.endCall_next (l : State) (M : Nat) (lease : Option Lease) (restores : Bool) (o : Outcome u) :
    (l.endCall M lease restores o).2 = .give o ∨ ∃ e, (l.endCall M lease restores o).2 = .give (.error e) := by
  simp only [State.endCall, State.endBlock]
  split
  · exact .inr ⟨_, rfl⟩
  · exact .inl rfl

theorem State.endCall_of_ok (h : (l.giveBack M lease).2 = .ok ()) (restores : Bool) (o : Outcome u) :
    (l.endCall M lease restores o).2 = .give o := by
  simp only [State.endCall, State.endBlock]
  split
  next he =>
    rw [he] at h
    cases h
  next => rfl

theorem State.endCall_of_error {e : Failure} (h : (l.giveBack M lease).2 = .error e) (restores : Bool)
    (o : Outcome u) : (l.endCall M lease restores o).2 = .give (.error e) := by
  simp only [State.endCall, State.endBlock]
  split
  next he =>
    rw [he] at h
    cases h
    rfl
  next he =>
    rw [he] at h
    cases h

theorem Stage.from (hm : Mode.ofValue mode = .ok m) (hss : qs.map (·.statement) ++ rest = ss)
    (ha : Answered m qs as) (l : State) (lease : Option Lease) (restores : Bool) :
    ∃ lease', Stage M b ss mode lease' qs ((l.batchFrom M lease m as restores rest).2.point (.done .answers)) ∧
      (lease' = lease ∨ lease' = none) := by
  have hfails : ∀ e, Verdict b ss mode qs (.error e) := fun e => .fails e ⟨rest, hss⟩ ha.clean
  cases rest with
  | nil =>
    rw [List.append_nil] at hss
    rcases l.endCall_next M lease restores (.ok as : Outcome .answers) with he | ⟨e, he⟩
    · rw [State.batchFrom, he]
      exact ⟨none, .gives (.returns hm hss ha), .inr rfl⟩
    · rw [State.batchFrom, he]
      exact ⟨none, .gives (hfails e), .inr rfl⟩
  | cons s rest =>
    rw [State.batchFrom]
    split
    next =>
      rcases l.endCall_next M lease restores (.error .missingPart : Outcome .answers) with he | ⟨e, he⟩
      · rw [he]
        exact ⟨none, .gives (hfails _), .inr rfl⟩
      · rw [he]
        exact ⟨none, .gives (hfails e), .inr rfl⟩
    next d c htarget =>
      obtain rfl : lease = some c := by
        simp only [State.target?, Option.bind_eq_bind, Option.bind_eq_some_iff, Option.pure_def,
          Option.some.injEq, Prod.mk.injEq] at htarget
        obtain ⟨_, _, _, _, c', hc, _, rfl⟩ := htarget
        exact hc
      exact ⟨some c, .runs c d restores ⟨hm, hss, ha⟩, .inl rfl⟩

theorem Sent.Heard.comes {o : Outcome .cursor} (h : q.Heard o) (l : State) (d : Database) (m : Mode)
    (start : Float) : ∃ o', (l.ran d q.statement.sql m start o).2 = .give o' ∧ q.Comes m o' := by
  cases h with
  | answered =>
    cases hf : q.rule.fault with
    | none => exact ⟨_, rfl, .ok hf⟩
    | some f =>
      refine ⟨_, rfl, .error fun f' hf' he => .inl ?_⟩
      cases hf.symm.trans hf'
      exact if_pos he
  | cancelled hhold => exact ⟨_, rfl, .error fun _ _ _ => .inr ⟨hhold, rfl⟩⟩

theorem Parted.of_none (h : qs.filter (Sent.own t) = []) (lease : Option Lease) : Parted t lease qs := by
  cases lease with
  | none =>
    have hq : Parted t none (qs ++ [] ++ []) := .hasNot .stray h (List.forall_mem_nil _) rfl
    simpa using hq
  | some c =>
    have hq : Parted t (some c) (qs ++ []) := .has h (List.forall_mem_nil _)
    simpa using hq

theorem Parted.sends (h : Parted t (some c) qs) (hnew : ∀ q ∈ new, q.handle = c.handle ↔ q.own t = true) :
    Parted t (some c) (qs ++ new) := by
  cases h with
  | has hbefore hduring =>
    rw [List.append_assoc]
    exact .has hbefore (List.forall_mem_append.mpr ⟨hduring, hnew⟩)

theorem Parted.others (h : Parted t none qs) (hnew : ∀ q ∈ new, q.own t = false) : Parted t none (qs ++ new) := by
  cases h with
  | @hasNot before during after h hbefore hduring hafter =>
    rw [List.append_assoc _ after]
    refine .hasNot h hbefore hduring ?_
    rw [List.filter_append, hafter, List.nil_append]
    exact List.filter_eq_nil_iff.mpr fun q hq => by simp [hnew q hq]

theorem Parted.own (h : Parted t (some c) qs) : ∀ q ∈ qs.filter (Sent.own t), q.handle = c.handle := by
  cases h with
  | @has _ before during hbefore hduring =>
    intro q hq
    rw [List.filter_append, hbefore, List.nil_append, List.mem_filter] at hq
    exact (hduring q hq.1).mpr hq.2

theorem Parted.together (h : Parted t lease qs) : ∃ g, ∀ q ∈ qs.filter (Sent.own t), q.handle = g := by
  cases h with
  | has hbefore hduring => exact ⟨_, (Parted.has hbefore hduring).own⟩
  | @hasNot before during after h hbefore hduring hafter =>
    refine ⟨h, fun q hq => ?_⟩
    rw [List.filter_append, List.filter_append, hbefore, hafter, List.nil_append, List.append_nil,
      List.mem_filter] at hq
    exact (hduring q hq.1).mpr hq.2

theorem Parted.gives (h : Parted t (some c) qs) : Parted t none qs := by
  cases h with
  | @has _ before during hbefore hduring =>
    have hq : Parted t none (before ++ during ++ []) := .hasNot c.handle hbefore hduring rfl
    simpa using hq

theorem Stage.begins (l : State) (M : Nat) (ss : List Statement) (mode : Value) :
    Stage M (l.database? M) ss mode none [] ((l.executeAll M ss mode).2.point (.done .answers)) := by
  have hfails : ∀ e, Stage M (l.database? M) ss mode none [] (.works (.give (.error e)) (.done .answers)) :=
    fun e => .gives (.fails e List.nil_prefix (List.forall_mem_nil _))
  unfold State.executeAll
  split
  next => exact hfails _
  next k hk =>
    split
    next =>
      split
      next => exact hfails _
      next m hm => exact .borrows hm ⟨trivial, .base⟩
    next he =>
      refine .gives (.skips ?_)
      rw [State.database?, hk]
      simpa [Access.Manager.enabled] using he

theorem Stage.borrows_works (hm : Mode.ofValue mode = .ok m)
    (hp : borrowing.Within (.push (.batching M ss m restores) (.done .answers)) (w.on t k).point) (l : State) :
    ∃ lease', Stage M b ss mode lease' [] ((w.perform l).2.point k) := by
  rcases hp.work with ⟨hw, hk⟩ | ⟨o, he⟩
  · exact ⟨none, .borrows hm (.of_next (borrowing_next w l hw) hk)⟩
  · cases w with
    | call => cases he
    | back f o' =>
      cases he
      cases o with
      | error e => exact ⟨none, .gives (.fails e List.nil_prefix (List.forall_mem_nil _))⟩
      | ok lease =>
        have hfirst : ([] : List Sent).map (·.statement) ++ ss = ss := rfl
        obtain ⟨lease', hst, _⟩ := Stage.from (b := b) hm hfirst .nil l lease restores
        exact ⟨lease', hst⟩

theorem Stage.borrows_sends {k' : Stack u} (hr : l.running = some (w.on t k')) (hk : k'.Prepares = k.Prepares)
    (hp : borrowing.Within (.push (.batching M ss m restores) (.done .answers)) (w.on t k).point) :
    l.sends.filter (Sent.own t) = [] := by
  refine List.filter_eq_nil_iff.mpr fun q hq hown => ?_
  rw [Sent.own, Bool.and_eq_true, Bool.not_eq_true'] at hown
  obtain ⟨k'', hr', hprep⟩ := State.sends_cases hq
  have he := hr.symm.trans hr'
  cases w with
  | back => cases he
  | call d =>
    cases he
    have hyes : k.Prepares = true := borrowing_sends (by decide) hp rfl
    rw [hprep, hk, hyes] at hown
    cases hown.2

theorem Stage.advances {k' : Stack u} (hst : Stage M b ss mode lease qs (w.on t k).point)
    (hr : l.running = some (w.on t k')) (hk : k'.Prepares = k.Prepares) :
    (∃ lease', Stage M b ss mode lease' (qs ++ l.sends.filter (Sent.own t)) ((w.perform l).2.point k) ∧
      ∀ all, all.filter (Sent.own t) = qs → Parted t lease all → Parted t lease' (all ++ l.sends)) ∨
    ∃ c e, lease = some c ∧ l.yield? t = some c ∧ (l.giveBack M (some c)).2 = .error e ∧ l.sends = [] ∧
      (w.perform l).2.point k = .works (.give (.error e)) (.done .answers) := by
  have borrows : ∀ {m : Mode} {restores : Bool}, Mode.ofValue mode = .ok m →
      borrowing.Within (.push (.batching M ss m restores) (.done .answers)) (w.on t k).point →
      ∃ lease', Stage M b ss mode lease' ([] ++ l.sends.filter (Sent.own t)) ((w.perform l).2.point k) ∧
        ∀ all, all.filter (Sent.own t) = [] → Parted t none all → Parted t lease' (all ++ l.sends) := by
    intro m restores hm hp
    have hnone := Stage.borrows_sends hr hk hp
    obtain ⟨lease', hst⟩ := Stage.borrows_works (b := b) hm hp l
    rw [hnone]
    refine ⟨lease', hst, fun all hall _ => .of_none ?_ lease'⟩
    rw [List.filter_append, hall, hnone]
    rfl
  cases w with
  | call d =>
    refine .inl ?_
    change Stage M b ss mode lease qs (.works (.call d) k) at hst
    cases hst with
    | borrows hm hp => exact borrows hm hp
    | runs c d restores hmid =>
      have hnone : l.sends = [] := by rw [State.sends, hr]; rfl
      rw [hnone]
      simp only [List.filter_nil, List.append_nil]
      exact ⟨some c, .sends c d _ restores hmid, fun _ _ hp => hp⟩
    | @sends m _ s rest as c d start restores hmid =>
      let q : Sent := ⟨t, c.handle, s, (l.engine.nextRule s.sql).1, false⟩
      have hsends : l.sends = [q] := by
        rw [State.sends, hr]
        exact congrArg (fun b => [Sent.mk t c.handle s (l.engine.nextRule s.sql).1 b]) hk
      have hown : q.own t = true := by simp [Sent.own, q]
      have hmid' : Midway ss mode m qs q.statement rest as := hmid
      rw [hsends, List.filter_cons_of_pos hown, List.filter_nil]
      refine ⟨some c, ?_, fun all _ hp => hp.sends (List.forall_mem_singleton.mpr (iff_of_true rfl hown))⟩
      simp only [Work.perform, begin, State.send]
      split
      next hhold => exact .hears (q := q) c d start restores hmid' hhold
      next => exact .heard (q := q) c d start restores hmid' .answered
  | back f o =>
    change Stage M b ss mode lease qs (.works (.give o) (.push f k)) at hst
    have hnone : l.sends = [] := by rw [State.sends, hr]; rfl
    have silent : ∀ {lease' : Option Lease}, Stage M b ss mode lease' qs (((Work.back f o).perform l).2.point k) →
        (∀ {all}, Parted t lease all → Parted t lease' all) →
        ∃ lease', Stage M b ss mode lease' (qs ++ l.sends.filter (Sent.own t))
          (((Work.back f o).perform l).2.point k) ∧
          ∀ all, all.filter (Sent.own t) = qs → Parted t lease all → Parted t lease' (all ++ l.sends) := by
      intro lease' hst hp
      rw [hnone, List.filter_nil, List.append_nil]
      refine ⟨lease', hst, fun all _ hall => ?_⟩
      rw [List.append_nil]
      exact hp hall
    cases hst with
    | borrows hm hp => exact .inl (borrows hm hp)
    | told c d start restores hmid hhold ho =>
      refine .inl (silent ?_ fun hp => hp)
      rcases ho with rfl | rfl
      · exact .heard c d start restores hmid .answered
      · exact .heard c d start restores hmid (.cancelled hhold)
    | @heard m qs q rest as o c d start restores hmid ho =>
      obtain ⟨o', ho', hcomes⟩ := ho.comes l d m start
      have hgives : ((Work.back (.ran d q.statement.sql m start) o).perform l).2 = .give o' := ho'
      exact .inl (silent (hgives ▸ .comes c restores hmid hcomes) id)
    | @comes m qs q rest as o c restores hmid ho =>
      cases ho with
      | ok hfault =>
        refine .inl ?_
        have hsplit : (qs ++ [q]).map (·.statement) ++ rest = ss := by
          rw [List.map_append, List.append_assoc]
          exact hmid.split
        obtain ⟨lease', hst, rfl | rfl⟩ :=
          Stage.from (b := b) hmid.mode hsplit (hmid.answered.snoc hfault) l (some c) restores
        · exact silent hst id
        · exact silent hst .gives
      | @error e hblames =>
        have hyield : l.yield? t = some c := by simp [State.yield?, hr, Work.on, Running.yield?]
        cases hback : (l.giveBack M (some c)).2 with
        | ok =>
          have hgives : ((Work.back (.batched M (some c) rest m as restores) (.error e)).perform l).2 =
              .give (.error e) := State.endCall_of_ok hback restores _
          exact .inl (silent (hgives ▸ .gives (.rejects hmid.upTo hmid.answered.clean hblames)) .gives)
        | error e' =>
          have hgives : ((Work.back (.batched M (some c) rest m as restores) (.error e)).perform l).2 =
              .give (.error e') := State.endCall_of_error hback restores _
          exact .inr ⟨c, e', rfl, hyield, hback, hnone, congrArg (Next.point · _) hgives⟩

theorem Stage.works (hst : Stage M b ss mode lease qs (w.on t k).point) (hr : l.running = some (w.on t k))
    (hhome : ∀ c, l.yield? t = some c → (l.giveBack M (some c)).2 = .ok ()) :
    ∃ lease', Stage M b ss mode lease' (qs ++ l.sends.filter (Sent.own t)) ((w.perform l).2.point k) ∧
      ∀ all, all.filter (Sent.own t) = qs → Parted t lease all → Parted t lease' (all ++ l.sends) := by
  refine (hst.advances hr rfl).resolve_right ?_
  rintro ⟨c, e, _, hyield, hback, _⟩
  cases (hhome c hyield).symm.trans hback

end SqliteAccess.Loop
