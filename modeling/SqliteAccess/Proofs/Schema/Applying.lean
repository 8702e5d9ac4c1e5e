import SqliteAccess.Proofs.Batch.Alone
import SqliteAccess.Proofs.Schema.Compiling

/-!
A change to a table. Its description is compiled as a whole before anything is borrowed or sent, and the
statements then run in order on one connection, up to the first that the engine rejects.
-/

namespace SqliteAccess.Loop

open Access (Database)
open Schema (Blueprint Revision)
open Sql (Statement Writer)
open SqliteAccess.Pool (Lease)

variable {l l' m : State} {M t : Nat} {b : Blueprint} {w : Writer} {changes : List Revision} {e : Failure}
  {ss : List Statement} {p p' : Point} {may : {s : Shape} → State → Call s → Prop} {past : List State}

inductive Stack.Over {v : Shape} (base : Stack v) : {u : Shape} → Stack u → Stack u → Prop
  | base : Stack.Over base (.done v) base
  | push {s u : Shape} (f : Frame s u) {k k' : Stack u} : Stack.Over base k k' →
      Stack.Over base (.push f k) (.push f k')

inductive Point.Over {v : Shape} (base : Stack v) : Point → Point → Prop
  | waits {k k' : Stack .unit} : Stack.Over base k k' → Point.Over base (.waits k) (.waits k')
  | works {u : Shape} (x : Control u) {k k' : Stack u} : Stack.Over base k k' →
      Point.Over base (.works x k) (.works x k')

section Over

variable {u v : Shape} {base : Stack v} {k k' : Stack u}

theorem Stack.Over.prepares (h : Stack.Over base k k') (hb : base.Prepares = false) : k'.Prepares = k.Prepares := by
  cases h with
  | base => exact hb
  | push f => cases f <;> rfl

theorem Next.point_over (n : Next u) (h : Stack.Over base k k') : Point.Over base (n.point k) (n.point k') := by
  cases n with
  | give | jump => exact .works _ h
  | call c f => exact .works _ (.push f h)
  | pause b f | again f => exact .waits (.push f h)

theorem Point.Over.on {w : Work u} (h : Point.Over base p (w.on t k').point) :
    (∃ k, p = (w.on t k).point ∧ Stack.Over base k k') ∨
      ∃ o : Outcome v, p = .works (.give o) (.done v) ∧ w.on t k' = ⟨t, v, .give o, base⟩ := by
  cases w with
  | call c =>
    cases h with
    | works _ hk => exact .inl ⟨_, rfl, hk⟩
  | back f o =>
    cases h with
    | works _ hk =>
      cases hk with
      | base => exact .inr ⟨o, rfl, rfl⟩
      | push f hk => exact .inl ⟨_, rfl, hk⟩

end Over

def sentBy (t : Nat) (past : List State) : List Sent := (past.flatMap State.sends).filter fun q => q.task = t

def ranBy (t : Nat) (past : List State) : List Sent := (past.flatMap State.sends).filter (Sent.own t)

theorem ranBy_eq (t : Nat) (past : List State) : ranBy t past = (sentBy t past).filter (Sent.own t) := by
  rw [ranBy, sentBy, List.filter_filter]
  refine List.filter_congr fun q _ => ?_
  simp +contextual [Sent.own]

theorem sentBy_snoc (hne : ∀ r, m.running = some r → r.task ≠ t) : sentBy t (past ++ [m]) = sentBy t past := by
  have hnone : m.sends.filter (fun q => q.task = t) = [] := by
    refine List.filter_eq_nil_iff.mpr fun q hq => ?_
    obtain ⟨k, hr, _⟩ := State.sends_cases hq
    simpa using hne _ hr
  simp [sentBy, hnone]

theorem sentBy_snoc_on {u : Shape} {w : Work u} {k : Stack u} (hr : m.running = some (w.on t k)) :
    sentBy t (past ++ [m]) = sentBy t past ++ m.sends := by
  have hall : m.sends.filter (fun q => q.task = t) = m.sends := by
    refine List.filter_eq_self.mpr fun q hq => ?_
    obtain ⟨k', hr', _⟩ := State.sends_cases hq
    have ht := congrArg Running.task (Option.some.inj (hr.symm.trans hr'))
    rw [Work.on_task] at ht
    simpa using ht.symm
  simp [sentBy, hall]

theorem sentBy_snoc_give {u : Shape} {o : Outcome u} {k : Stack u} (hr : m.running = some ⟨t, u, .give o, k⟩) :
    sentBy t (past ++ [m]) = sentBy t past := by
  have hnone : m.sends = [] := by rw [State.sends, hr]
  simp [sentBy, hnone]

abbrev Stack.built (ss : List Statement) : Stack .answers := .push (.built ss) (.done .statements)

inductive Outturn (M t : Nat) (b : Option Database) (ss : List Statement) (past : List State) (qs : List Sent) :
    Outcome .answers → Prop
  | verdict {o : Outcome .answers} : Verdict b ss State.readMode qs o → Outturn M t b ss past qs o
  | refused {z : State} {c : Lease} {e : Failure} : z ∈ past → z.yield? t = some c →
      (z.giveBack M (some c)).2 = .error e → (∀ q ∈ qs, q.handle = c.handle) → qs.map (·.statement) <+: ss →
      (∀ q ∈ qs, q.rule.fault ≠ none → qs.getLast? = some q) → Outturn M t b ss past qs (.error e)

inductive Point.Brings (ss : List Statement) (o : Outcome .answers) : Point → Prop
  | told : Point.Brings ss o (.works (.give o) (.built ss))
  | gives : Point.Brings ss o (.works (.give (o.map fun _ => ss)) (.done .statements))
  | ended : Point.Brings ss o (.ended (u := .statements) (o.map fun _ => ss))

inductive Applies (M t : Nat) (b : Option Database) (ss : List Statement) (past : List State) (m : State) : Prop
  | calls : m.point? t = some (.works (.call (.executeAll M ss State.readMode)) (.built ss)) → m.Clear t →
      m.database? M = b → sentBy t past = [] → Applies M t b ss past m
  | runs {lease : Option Lease} {p p' : Point} : m.point? t = some p' → Point.Over (.built ss) p p' →
      Stage M b ss State.readMode lease (ranBy t past) p → Attends m t p → Parted t lease (sentBy t past) →
      Applies M t b ss past m
  | brings {o : Outcome .answers} {p : Point} : m.point? t = some p → p.Brings ss o →
      Outturn M t b ss past (ranBy t past) o → Parted t none (sentBy t past) → Applies M t b ss past m

variable {d : Option Database} {z : State} {qs : List Sent} {o : Outcome .answers}

theorem Outturn.mono {past past' : List State} (h : Outturn M t d ss past qs o) (hp : past ⊆ past') :
    Outturn M t d ss past' qs o := by
  cases h with
  | verdict hv => exact .verdict hv
  | refused hz hy hback hhandle hss hlast => exact .refused (hp hz) hy hback hhandle hss hlast

theorem Applies.compiled (hss : b.Compiles w changes ss)
    (hr : l.running = some ⟨t, .statements, .call (.build M w b changes), .done .statements⟩) (hclear : l.Clear t)
    (hat : l.AtWork) (hs : l.Happens may l') : Applies M t (l.database? M) ss ([] ++ [l]) l' := by
  have hr' : l.running = some ((Work.call (.build M w b changes)).on t (.done .statements)) := hr
  obtain ⟨log, hlog⟩ := State.build_compiles hss l M
  have hp := hs.works_point hat hr'
  have hl' := hs.works hr'
  simp only [Work.perform, begin, hlog] at hp hl'
  have hlogged : ({ l with log } : State).Clear t := hclear
  have hnone : l.sends = [] := by rw [State.sends, hr]
  refine .calls hp ?_ ?_ (by simp [sentBy, hnone])
  · rw [hl']
    exact hlogged.carryOn _ _
  · rw [hl']
    rfl

theorem Applies.begins (hp : m.point? t = some (.works (.call (.executeAll M ss State.readMode)) (.built ss)))
    (hclear : m.Clear t) (hsent : sentBy t past = []) (hat : m.AtWork) (hs : m.Happens may l') :
    Applies M t (m.database? M) ss (past ++ [m]) l' := by
  have hr : m.running = some ((Work.call (.executeAll M ss State.readMode)).on t (.built ss)) := hat.running_at hp
  have hsent' : sentBy t (past ++ [m]) = [] := by
    rw [sentBy_snoc_on hr, hsent, List.nil_append, State.sends, hr]
    rfl
  have hran : ranBy t (past ++ [m]) = [] := by rw [ranBy_eq, hsent']; rfl
  have hparted : Parted t none (sentBy t (past ++ [m])) := by
    rw [hsent']
    exact .of_none rfl none
  refine .runs (hs.works_point hat hr) (Next.point_over _ .base) ?_ ?_ hparted
  · rw [hran]
    exact Stage.begins m M ss State.readMode
  · rw [hs.works hr]
    exact .begins hclear M ss State.readMode _

theorem Applies.works {u : Shape} {w : Work u} {k k' : Stack u} {lease : Option Lease}
    (hst : Stage M d ss State.readMode lease (ranBy t past) (w.on t k).point) (hk : Stack.Over (.built ss) k k')
    (ha : Attends m t (w.on t k).point) (hparted : Parted t lease (sentBy t past)) (hat : m.AtWork)
    (hr : m.running = some (w.on t k')) (hs : m.Happens may l') : Applies M t d ss (past ++ [m]) l' := by
  have hsent : sentBy t (past ++ [m]) = _ := sentBy_snoc_on hr
  have hp := hs.works_point hat hr
  rcases hst.advances hr (hk.prepares rfl) with ⟨lease', hst', hpart⟩ | ⟨c, e, rfl, hyield, hback, hnone, hgives⟩
  · refine .runs hp (Next.point_over _ hk) ?_ ?_ (hsent ▸ hpart _ (ranBy_eq t past).symm hparted)
    · rwa [ranBy_eq, hsent, List.filter_append, ← ranBy_eq]
    · rw [hs.works hr]
      exact ha.works hst.batches hat hr
  · -- The batch was to fail, and the failure to give its connection back takes the place of the other one.
    rw [hnone, List.append_nil] at hsent
    have hran : ranBy t (past ++ [m]) = ranBy t past := by rw [ranBy_eq, hsent, ← ranBy_eq]
    have hover := Next.point_over (w.perform m).2 hk
    rw [hgives] at hover
    generalize hq : (w.perform m).2.point k' = q at hover hp
    cases hover with
    | works _ hk =>
      cases hk
      refine .brings hp .told ?_ (hsent ▸ hparted.gives)
      rw [hran]
      refine .refused (List.mem_append_right _ (List.mem_singleton_self m)) hyield hback ?_ hst.inOrder
        fun q hq hf => ?_
      · exact ranBy_eq t past ▸ hparted.own
      · obtain ⟨f, hf⟩ := Option.ne_none_iff_exists'.mp hf
        exact hst.last hq hf

theorem Applies.comesBack {lease : Option Lease} (hst : Stage M d ss State.readMode lease (ranBy t past)
      (.works (.give o) (.done .answers))) (hparted : Parted t lease (sentBy t past)) (hat : m.AtWork)
    (hr : m.running = some ⟨t, .answers, .give o, .built ss⟩) (hs : m.Happens may l') :
    Applies M t d ss (past ++ [m]) l' := by
  have hr' : m.running = some ((Work.back (.built ss) o).on t (.done .statements)) := hr
  have hsent : sentBy t (past ++ [m]) = sentBy t past := sentBy_snoc_give hr
  generalize hown : ranBy t past = own at hst
  have hout : Outturn M t d ss (past ++ [m]) own o ∧ lease = none := by
    cases hst with
    | borrows _ hw => cases hw
    | gives hv => exact ⟨.verdict hv, rfl⟩
  obtain ⟨hout, rfl⟩ := hout
  refine .brings (hs.works_point hat hr') .gives ?_ (hsent ▸ hparted)
  rwa [ranBy_eq, hsent, ← ranBy_eq, hown]

theorem Applies.hears {lease : Option Lease} {k k' : Stack .unit} {signal : Option Failure} {y : Task}
    (hst : Stage M d ss State.readMode lease (ranBy t past) (.waits k)) (hk : Stack.Over (.built ss) k k')
    (ha : Attends m t (.waits k)) (hparted : Parted t lease (sentBy t past)) (hr : m.running = none)
    (hres : Resumed m l' t signal k' y) (hp : l'.point? t = some (.works (.give (y.answer signal)) k')) :
    Applies M t d ss (past ++ [m]) l' := by
  have hsent : sentBy t (past ++ [m]) = sentBy t past := sentBy_snoc fun r h => nomatch hr.symm.trans h
  refine .runs hp (.works _ hk) ?_ (ha.resumed hres) (hsent ▸ hparted)
  rw [ranBy_eq, hsent, ← ranBy_eq]
  generalize ranBy t past = own at hst
  cases hst with
  | borrows hm hw => exact .borrows hm hw
  | hears c db start restores hmid hhold => exact .told c db start restores hmid hhold (ha.answer hres)

theorem Applies.happens (h : Applies M t d ss past m) (hat : m.AtWork) (hs : m.Happens may l') :
    Applies M t d ss (past ++ [m]) l' := by
  cases h with
  | calls hp hclear hd hsent => exact hd ▸ Applies.begins hp hclear hsent hat hs
  | @runs lease p p' hp hover hst ha hparted =>
    obtain ⟨q, hq, hg⟩ := hs.gets hat hp
    cases hg with
    | stays hne =>
      have hsent : sentBy t (past ++ [m]) = sentBy t past := sentBy_snoc hne
      refine .runs hq hover ?_ (ha.stays hs hat hne hp hq) (hsent ▸ hparted)
      rwa [ranBy_eq, hsent, ← ranBy_eq]
    | @works u w k hr he =>
      rcases hover.on with ⟨k, rfl, hk⟩ | ⟨o, rfl, hback⟩
      · exact Applies.works hst hk ha hparted hat hr hs
      · exact Applies.comesBack hst hparted hat (hback ▸ hr) hs
    | ends =>
      cases hover with
      | works _ hk => cases hk
    | goesOn hr hr' =>
      cases hover with
      | waits hk =>
        obtain ⟨signal, y, hres, rfl⟩ := hs.resumed hr hr'
        exact Applies.hears hst hk ha hparted hr hres hq
  | @brings o p hp hb hout hparted =>
    obtain ⟨q, hq, hg⟩ := hs.gets hat hp
    have further : sentBy t (past ++ [m]) = sentBy t past → q.Brings ss o → Applies M t d ss (past ++ [m]) l' := by
      intro hsent hb
      refine .brings hq hb ?_ (hsent ▸ hparted)
      rw [ranBy_eq, hsent, ← ranBy_eq]
      exact hout.mono (List.subset_append_left _ _)
    cases hg with
    | stays hne => exact further (sentBy_snoc hne) hb
    | @works u w k hr he =>
      cases w with
      | call => cases hb
      | back f o =>
        cases hb with
        | told => exact further (sentBy_snoc_give hr) .gives
    | ends hr =>
      cases hb with
      | gives => exact further (sentBy_snoc_give hr) .ended
    | goesOn => cases hb

theorem State.Ended.of_point {u : Shape} {o : Outcome u} (h : l.point? t = some (.ended o)) : l.Ended t o := by
  rw [State.point?, Option.or_eq_some_iff] at h
  rcases h with h | ⟨_, h⟩
  · obtain ⟨k, hk, hs⟩ := Option.bind_eq_some_iff.mp h
    refine ⟨k, hk, ?_⟩
    generalize k.status = st at hs
    cases st <;> cases hs
    rfl
  · obtain ⟨r, _, h⟩ := Option.bind_eq_some_iff.mp h
    split at h
    · cases h
    · cases h

/-- A call that applies a description which is refused with the failure. Its first step leaves all as it was
but the log, and its second one ends it. -/
structure State.Barred (l : State) (t M : Nat) (b : Blueprint) (w : Writer) (changes : List Revision) (e : Failure)
    (past : List State) (m : State) : Prop where
  atOnce : ∃ log, l.step? =
    some { l with log, running := some ⟨t, .statements, .give (.error e), .done .statements⟩ }
  nowhere : m.point? t = some (.works (.call (.build M w b changes)) (.done .statements)) ∨
    m.point? t = some (.works (.give (.error e)) (.done .statements)) ∨
    m.point? t = some (.ended (u := .statements) (.error e))
  silent : sentBy t past = []
  raises : 2 ≤ past.length → m.Ended t (u := .statements) (.error e)

/-- What comes of a call that applies a description, where `ss` is what it compiles to, and `d` what the manager
had for a database. -/
structure Applied (M t : Nat) (d : Option Database) (ss : List Statement) (past : List State) (m : State) :
    Prop where
  inOrder : (ranBy t past).map (·.statement) <+: ss
  together : ∃ h, ∀ q ∈ ranBy t past, q.handle = h
  returns : ∀ rs, m.Ended t (u := .statements) (.ok rs) →
    rs = ss ∧ (d ≠ none → (ranBy t past).map (·.statement) = ss ∧ ∀ q ∈ ranBy t past, q.rule.fault = none)
  rejected : ∀ q ∈ ranBy t past, ∀ f, q.rule.fault = some f → f.isEngine = true →
    (ranBy t past).getLast? = some q ∧ ∀ o, m.Ended t (u := .statements) o →
      o = .error (.rejected f.message q.statement.sql) ∨ q.rule.hold = true ∧ o = .error .cancelled ∨
        ∃ z ∈ past, ∃ c e, z.yield? t = some c ∧ c.handle = q.handle ∧ (z.giveBack M (some c)).2 = .error e ∧
          o = .error e

inductive Refuses (t : Nat) (e : Failure) (l : State) : List State → State → Prop
  | calls : Refuses t e l [] l
  | gives {m : State} : sentBy t [l] = [] →
      m.point? t = some (.works (.give (.error e)) (.done .statements)) → Refuses t e l [l] m
  | ended {past : List State} {m : State} : 2 ≤ past.length → sentBy t past = [] →
      m.point? t = some (.ended (u := .statements) (.error e)) → Refuses t e l past m

theorem Refuses.happens (h : Refuses t e l past m) (hb : b.Refused w changes e)
    (hr : l.running = some ⟨t, .statements, .call (.build M w b changes), .done .statements⟩) (hat : m.AtWork)
    (hs : m.Happens may l') : Refuses t e l (past ++ [m]) l' := by
  cases h with
  | calls =>
    have hr' : l.running = some ((Work.call (.build M w b changes)).on t (.done .statements)) := hr
    obtain ⟨log, hlog⟩ := State.build_refused hb l M
    have hp := hs.works_point hat hr'
    simp only [Work.perform, begin, hlog] at hp
    refine .gives ?_ hp
    have hnone : l.sends = [] := by rw [State.sends, hr]
    simp [sentBy, hnone]
  | gives hsent hp =>
    have hr' := hat.running_at hp
    obtain ⟨q, hq, hg⟩ := hs.gets hat hp
    have hsent' : sentBy t ([l] ++ [m]) = [] := (sentBy_snoc_give hr').trans hsent
    generalize hpt : Point.works (.give (.error e)) (.done .statements) = p at hg
    cases hg with
    | stays hne => exact absurd rfl (hne _ hr')
    | @works u w k => cases w <;> cases hpt
    | ends =>
      cases hpt
      exact .ended (Nat.le_refl 2) hsent' hq
    | goesOn => cases hpt
  | ended hlen hsent hp =>
    obtain ⟨q, hq, hg⟩ := hs.gets hat hp
    generalize hpt : Point.ended (u := .statements) (.error e) = p at hg
    cases hg with
    | stays hne =>
      refine .ended ?_ ((sentBy_snoc hne).trans hsent) (hpt ▸ hq)
      simp only [List.length_append]
      omega
    | @works u w k => cases w <;> cases hpt
    | ends | goesOn => cases hpt

theorem Applied.underway {lease : Option Lease} (hp : m.point? t = some p)
    (hne : ∀ (u : Shape) (o : Outcome u), p ≠ .ended o)
    (hss : (ranBy t past).map (·.statement) <+: ss) (hparted : Parted t lease (sentBy t past))
    (hlast : ∀ q ∈ ranBy t past, ∀ f, q.rule.fault = some f → (ranBy t past).getLast? = some q) :
    Applied M t d ss past m := by
  have never : ∀ {o : Outcome .statements}, ¬ m.Ended t o := fun ho =>
    hne _ _ (Option.some.inj (hp.symm.trans ho.point))
  exact ⟨hss, ranBy_eq t past ▸ hparted.together, fun _ ho => absurd ho never,
    fun q hq f hf _ => ⟨hlast q hq f hf, fun _ ho => absurd ho never⟩⟩

theorem Applied.silent (hp : m.point? t = some p) (hne : ∀ (u : Shape) (o : Outcome u), p ≠ .ended o)
    (hsent : sentBy t past = []) : Applied M t d ss past m := by
  have hran : ranBy t past = [] := by rw [ranBy_eq, hsent]; rfl
  have hparted : Parted t none (sentBy t past) := by
    rw [hsent]
    exact .of_none rfl none
  exact .underway hp hne (by simp [hran]) hparted (by simp [hran])

theorem Applied.of_outturn (hp : m.point? t = some p) (hb : p.Brings ss o)
    (hout : Outturn M t d ss past (ranBy t past) o) (hparted : Parted t none (sentBy t past)) : Applied M t d ss past m := by
  have told : ∀ {o' : Outcome .statements}, m.Ended t o' → o' = o.map fun _ => ss := by
    intro o' ho
    cases hp.symm.trans ho.point
    cases hb with
    | ended => rfl
  refine ⟨?_, ranBy_eq t past ▸ hparted.together, fun rs ho => ?_, fun q hq f hf he => ⟨?_, fun o' ho => ?_⟩⟩
  · cases hout with
    | verdict hv => exact hv.inOrder
    | refused _ _ _ _ hss => exact hss
  · cases o with
    | error => cases told ho
    | ok as =>
      cases told ho
      refine ⟨rfl, fun hd => ?_⟩
      generalize ranBy t past = own at hout
      cases hout with
      | verdict hv =>
        cases hv with
        | skips hnone => exact absurd hnone hd
        | returns _ hall ha => exact ⟨hall, ha.clean⟩
  · cases hout with
    | verdict hv => exact (Stage.gives (M := M) hv).last hq hf
    | refused _ _ _ _ _ hlast => exact hlast q hq (hf ▸ Option.some_ne_none f)
  · rw [told ho]
    cases hout with
    | verdict hv =>
      rcases hv.blames hq hf he with rfl | ⟨hhold, rfl⟩
      · exact .inl rfl
      · exact .inr (.inl ⟨hhold, rfl⟩)
    | @refused z c e hz hy hback hhandle => exact .inr (.inr ⟨z, hz, c, e, hy, (hhandle q hq).symm, hback, rfl⟩)

theorem Applies.applied (h : Applies M t d ss past m) : Applied M t d ss past m := by
  cases h with
  | calls hp _ _ hsent => exact .silent hp (by simp) hsent
  | runs hp hover hst _ hparted =>
    refine .underway hp (fun u o he => ?_) hst.inOrder hparted fun q hq f hf => hst.last hq hf
    cases he
    cases hover
  | brings hp hb hout hparted => exact .of_outturn hp hb hout hparted

/-- A change to a table is compiled as a whole before anything runs. If that fails, the call borrows nothing and
sends nothing; otherwise it sends its statements in order, up to the first that the engine rejects. -/
theorem change_compiled_first {blank : State} {before : List State} (hb : blank.Blank)
    (hl : Course may blank before l)
    (hr : l.running = some ⟨t, .statements, .call (.build M w b changes), .done .statements⟩)
    (hc : Course may l past m) :
    (∀ e, b.Refused w changes e → l.Barred t M b w changes e past m) ∧
      (∀ ss, b.Compiles w changes ss → Applied M t (l.database? M) ss past m) ∧
      ((∃ e, b.Refused w changes e) ∨ ∃ ss, b.Compiles w changes ss) := by
  have hat : l.AtWork := hl.atWork (.of_none hb.running)
  have hp : l.point? t = some (.works (.call (.build M w b changes)) (.done .statements)) :=
    State.point?_at hr (hat _ hr)
  refine ⟨fun e he => ?_, fun ss hss => ?_, b.refused_or_compiles w changes⟩
  · have h : Refuses t e l past m := hc.induct .calls fun past m m' hc h hs => h.happens he hr (hc.atWork hat) hs
    refine ⟨?_, ?_, ?_, ?_⟩
    · obtain ⟨log, hlog⟩ := State.build_refused he l M
      refine ⟨log, ?_⟩
      simp only [State.step?, hr, State.advance, begin, hlog]
      rfl
    · cases h with
      | calls => exact .inl hp
      | gives _ hp => exact .inr (.inl hp)
      | ended _ _ hp => exact .inr (.inr hp)
    · cases h with
      | calls => rfl
      | gives hsent | ended _ hsent => exact hsent
    · intro hlen
      cases h with
      | calls | gives => simp at hlen
      | ended _ _ hp => exact .of_point hp
  · have h : past = [] ∧ m = l ∨ Applies M t (l.database? M) ss past m := by
      refine hc.induct (P := fun past m => past = [] ∧ m = l ∨ Applies M t (l.database? M) ss past m)
        (.inl ⟨rfl, rfl⟩) fun past m m' hc h hs => ?_
      rcases h with ⟨rfl, rfl⟩ | h
      · exact .inr (Applies.compiled hss hr (hl.clear_of_call hb hr) hat hs)
      · exact .inr (h.happens (hc.atWork hat) hs)
    rcases h with ⟨rfl, rfl⟩ | h
    · exact .silent hp (by simp) rfl
    · exact h.applied

def indexedTable : List Revision :=
  [.call { method := .create }, .call { method := .plain .integer, positional := [.text "a"] },
    .pushCommand (.index "by_a" ["a"]), .pushCommand (.index "by_a_too" ["a"])]

def droppingLast : List Revision := indexedTable ++ [.pushCommand (.dropColumn ["a"])]

def refusesIndexes : State :=
  { managers := [{}]
    engine.rules := [{ start := "create index", fault := some ⟨"OperationalError", "disk I/O error"⟩ }] }

def setUpToChange : List State × State :=
  State.calling ([], refusesIndexes) (.setUp 0 (some { filename := "f" }) .single) 20

def changing (changes : List Revision) : State := setUpToChange.2.enter (.build 0 {} { table := "t" } changes)

def changed (changes : List Revision) : List State × State := State.track [] (changing changes) 40

theorem setUpToChange_course : refusesIndexes.Blank ∧ setUpToChange.2.running = none ∧
    Course State.Offers refusesIndexes setUpToChange.1 setUpToChange.2 := by
  have hstart : Course State.Offers refusesIndexes [] refusesIndexes := .start
  exact ⟨.of_new rfl rfl, Option.isNone_iff_eq_none.mp (by decide +kernel),
    hstart.calling rfl (c := .setUp 0 (some { filename := "f" }) .single) trivial 20⟩

theorem changing_course (changes : List Revision) :
    Course State.Offers refusesIndexes (setUpToChange.1 ++ [setUpToChange.2]) (changing changes) ∧
      Course State.Offers (changing changes) (changed changes).1 (changed changes).2 := by
  obtain ⟨_, hr, hc⟩ := setUpToChange_course
  exact ⟨hc.step (.enter (c := .build 0 {} { table := "t" } changes) hr trivial), Course.start.track 40⟩

theorem indexedTable_compiles : ∃ ss, ({ table := "t" } : Blueprint).Compiles {} indexedTable ss ∧ ss.length = 3 :=
  ⟨_, .intro rfl (.cons rfl (.cons rfl (.cons rfl .nil))), rfl⟩

theorem droppingLast_refused :
    ({ table := "t" } : Blueprint).Refused {} droppingLast (.dropColumnUnsupported "SQLite") := by
  have hsplit : ([.createTable, .index "by_a" ["a"], .index "by_a_too" ["a"], .dropColumn ["a"]] :
      List Schema.Command) = [.createTable, .index "by_a" ["a"], .index "by_a_too" ["a"]] ++ .dropColumn ["a"] :: [] := rfl
  refine .compiled rfl hsplit ?_ rfl
  simp only [List.forall_mem_cons]
  exact ⟨⟨_, rfl⟩, ⟨_, rfl⟩, ⟨_, rfl⟩, List.forall_mem_nil _⟩

/-- The second of three statements is rejected, and the third one is not sent. Nothing is sent if a column is to be
dropped as well. -/
theorem change_compiled_first_indexedTable :
    (refusesIndexes.Blank ∧
      Course State.Offers refusesIndexes (setUpToChange.1 ++ [setUpToChange.2]) (changing indexedTable) ∧
      Course State.Offers (changing indexedTable) (changed indexedTable).1 (changed indexedTable).2) ∧
    (∃ ss, ({ table := "t" } : Blueprint).Compiles {} indexedTable ss ∧ ss.length = 3 ∧
      Applied 0 1 ((changing indexedTable).database? 0) ss (changed indexedTable).1 (changed indexedTable).2) ∧
    (ranBy 1 (changed indexedTable).1).map (fun q => (q.statement.sql, q.handle)) =
      [("create table \"t\" (\"a\" integer not null)", .numbered 1),
        ("create index by_a on \"t\" (\"a\")", .numbered 1)] ∧
    (changed indexedTable).2.endOf 1 = .error (.rejected "disk I/O error" "create index by_a on \"t\" (\"a\")") ∧
    (changing droppingLast).Barred 1 0 { table := "t" } {} droppingLast (.dropColumnUnsupported "SQLite")
      (changed droppingLast).1 (changed droppingLast).2 ∧
    (changed droppingLast).2.Ended 1 (u := .statements) (.error (.dropColumnUnsupported "SQLite")) := by
  obtain ⟨hb, -⟩ := setUpToChange_course
  obtain ⟨hl, hc⟩ := changing_course indexedTable
  obtain ⟨hl', hc'⟩ := changing_course droppingLast
  obtain ⟨ss, hss, hlen⟩ := indexedTable_compiles
  have hbarred := (change_compiled_first hb hl' rfl hc').1 _ droppingLast_refused
  exact ⟨⟨hb, hl, hc⟩, ⟨ss, hss, hlen, (change_compiled_first hb hl rfl hc).2.1 ss hss⟩, by decide +kernel,
    by decide +kernel, hbarred, hbarred.raises (by decide +kernel)⟩

def refusesTable : State :=
  { managers := [{}]
    engine.rules := [{ start := "create table", hold := true, fault := some ⟨"OperationalError", "disk I/O error"⟩ }] }

def tableWaits : List State × State :=
  let x := State.calling ([], refusesTable) (.setUp 0 (some { filename := "f" }) .single) 20
  let x := State.calling x (.borrow 0) 20
  State.calling x (.build 0 {} { table := "t" } indexedTable) 20

def tableSent : List State × State :=
  State.track (tableWaits.1 ++ [tableWaits.2]) (tableWaits.2.giveBack 0 (some ⟨1, .numbered 1⟩)).1 20

def tableRejected : List State × State :=
  let l := (tableSent.2.giveBack 0 (some ⟨1, .numbered 1⟩)).1
  State.track (tableSent.1 ++ [tableSent.2] ++ [l]) (l.answerHeld 2) 20

theorem tableRejected_course : Course State.Offers refusesTable tableRejected.1 tableRejected.2 := by
  have idle : ∀ {l : State}, l.running.isNone = true → l.running = none := Option.isNone_iff_eq_none.mp
  have hstart : Course State.Offers refusesTable [] refusesTable := .start
  have hsetUp := hstart.calling rfl (c := .setUp 0 (some { filename := "f" }) .single) trivial 20
  have hborrowed := hsetUp.calling (idle (by decide +kernel)) (c := .borrow 0) trivial 20
  have hwaits : Course State.Offers refusesTable tableWaits.1 tableWaits.2 :=
    hborrowed.calling (idle (by decide +kernel)) (c := .build 0 {} { table := "t" } indexedTable) trivial 20
  have hsent : Course State.Offers refusesTable tableSent.1 tableSent.2 :=
    (hwaits.step (.giveBack 0 ⟨1, .numbered 1⟩ (idle (by decide +kernel)))).track 20
  have hagain := hsent.step (.giveBack 0 ⟨1, .numbered 1⟩ (idle (by decide +kernel)))
  exact (hagain.step (.answer (t := 2) (idle (by decide +kernel)) rfl rfl)).track 20

/-- The statement is rejected, but what the call is told is that its connection cannot be given back. -/
theorem rejection_untold_tableRejected :
    refusesTable.Blank ∧ Course State.Offers refusesTable tableRejected.1 tableRejected.2 ∧
      (tableSent.2.giveBack 0 (some ⟨1, .numbered 1⟩)).2 = .ok () ∧
      (ranBy 2 tableRejected.1).map (fun q => (q.statement.sql, q.rule.fault)) =
        [("create table \"t\" (\"a\" integer not null)", some ⟨"OperationalError", "disk I/O error"⟩)] ∧
      (⟨"OperationalError", "disk I/O error"⟩ : Fault).isEngine = true ∧
      tableRejected.2.endOf 2 = .error (.notCheckedOut "__cid1") ∧ tableRejected.2.database? 0 ≠ none :=
  ⟨.of_new rfl rfl, tableRejected_course, by decide +kernel, by decide +kernel, by decide, by decide +kernel,
    by decide +kernel⟩

end SqliteAccess.Loop
