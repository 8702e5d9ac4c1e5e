import SqliteAccess.Proofs.Log.Attribution
import SqliteAccess.Proofs.Log.Housekeeping

/-!
The records of one call share one id, and those of different calls do not mix. While a call is under way its task
reports under one id, and so do the tasks that are made for it; when the call has come back its task has the id
that it had before.
-/

namespace SqliteAccess.Loop

open Log (CorrelationId Entry)

/-- Outside of all tasks somebody goes on under no id, under a text of his own, under a new id, or under one that
was current there before. -/
inductive State.Assumes (past : List State) (l : State) : State → Prop
  | drops : State.Assumes past l { l with outside := none }
  | names (text : String) : State.Assumes past l { l with outside := some (.named text) }
  | mints : State.Assumes past l { l with outside := some (.generated l.fresh), fresh := l.fresh + 1 }
  | recalls {x : State} : x ∈ past → State.Assumes past l { l with outside := x.outside }

/-- The states that a loop comes through, one step after the other, from one in which no task has been made. Whatever
managers there are, anybody calls what he likes, under an id of his own, and the engine answers as it likes. -/
structure Tale (xs : List State) : Prop where
  start : ∀ {x}, xs[0]? = some x →
    x.tasks = [] ∧ x.running = none ∧ ∀ k, x.outside = some (.generated k) → k < x.fresh
  next : ∀ {n x x'}, xs[n]? = some x → xs[n + 1]? = some x' →
    x.Happens (fun _ _ => True) x' ∨ x.running = none ∧ x.Assumes (xs.take n) x'

/-- What has been logged from the one state to the next. -/
def State.said (x x' : State) : List Entry := x'.log.drop x.log.length

/-- What the task logs in the step after so many. -/
def reports (xs : List State) (n t : Nat) : List Entry :=
  match xs[n]?, xs[n + 1]? with
  | some x, some x' => if x.current? = some t then x.said x' else []
  | _, _ => []

def makes (xs : List State) (n t : Nat) : List Nat :=
  match xs[n]?, xs[n + 1]? with
  | some x, some x' =>
    if x.current? = some t then List.range' x.tasks.length (x'.tasks.length - x.tasks.length) else []
  | _, _ => []

/-- The call that the task makes on top of the stack comes back. -/
def State.Returns {u : Shape} (t : Nat) (base : Stack u) (x : State) : Prop :=
  ∃ o, x.running = some ⟨t, u, .give o, base⟩

/-- The call that has been made in the one state has not come back up to the other. -/
def UnderWay (xs : List State) {u : Shape} (a t : Nat) (base : Stack u) (n : Nat) : Prop :=
  a ≤ n ∧ ∀ j x, a < j → j ≤ n → xs[j]? = some x → ¬ x.Returns t base

/-- The tasks that the one task makes in these steps, and those that such tasks make at any time. -/
inductive Stems (xs : List State) (during : Nat → Prop) (t : Nat) : Nat → Prop
  | made {n i : Nat} : during n → i ∈ makes xs n t → Stems xs during t i
  | again {n i j : Nat} : Stems xs during t j → i ∈ makes xs n j → Stems xs during t i

def State.InScope {u : Shape} (t : Nat) (base : Stack u) (found : Option CorrelationId) (d : CorrelationId)
    (x : State) : Prop :=
  x.id? t = some (some d) ∧ ∃ (s : Shape) (f : Frame s u) (p : Point), f.Scoped found.isNone ∧
    x.point? t = some p ∧ serving.Within (.push f base) p

def State.Tends (i : Nat) (d : CorrelationId) (x : State) : Prop :=
  x.id? i = some (some d) ∧ ∃ p, x.point? i = some p ∧
    (tending.Within (.done .unit) p ∨ ∃ (v : Shape) (o : Outcome v), p = .ended o)

variable {xs : List State} {l x x' y : State} {a b n t i : Nat} {u : Shape} {base : Stack u} {c : Call u}
  {found : Option CorrelationId} {d : CorrelationId} {e : Entry} {past : List State}
  {may : {s : Shape} → State → Call s → Prop}

theorem mem_reports : e ∈ reports xs n t ↔
    ∃ x x', xs[n]? = some x ∧ xs[n + 1]? = some x' ∧ x.current? = some t ∧ e ∈ x.said x' := by
  unfold reports
  constructor
  · intro he
    split at he
    next x x' hx hx' =>
      split at he
      next hcur => exact ⟨x, x', hx, hx', hcur, he⟩
      next => cases he
    next => cases he
  · rintro ⟨x, x', hx, hx', hcur, he⟩
    simp only [hx, hx', hcur, if_true]
    exact he

theorem mem_makes : i ∈ makes xs n t ↔ ∃ x x', xs[n]? = some x ∧ xs[n + 1]? = some x' ∧ x.current? = some t ∧
    x.tasks.length ≤ i ∧ i < x'.tasks.length := by
  unfold makes
  constructor
  · intro hi
    split at hi
    next x x' hx hx' =>
      split at hi
      next hcur =>
        rw [List.mem_range'_1] at hi
        exact ⟨x, x', hx, hx', hcur, hi.1, by omega⟩
      next => cases hi
    next => cases hi
  · rintro ⟨x, x', hx, hx', hcur, hi, hi'⟩
    simp only [hx, hx', hcur, if_true, List.mem_range'_1]
    omega

theorem State.Assumes.quiet (h : x.Assumes past x') :
    x'.tasks = x.tasks ∧ x'.running = x.running ∧ x'.log = x.log ∧ x.fresh ≤ x'.fresh := by
  cases h <;> exact ⟨rfl, rfl, rfl, by simp⟩

theorem State.Assumes.point (h : x.Assumes past x') (i : Nat) : x'.point? i = x.point? i := by
  rw [State.point?, State.point?, h.quiet.1, h.quiet.2.1]

theorem State.Assumes.ids (h : x.Assumes past x') (i : Nat) : x'.id? i = x.id? i := State.id?_of_tasks h.quiet.1 i

theorem states_induct {P : Nat → State → Prop} (hstart : ∀ x, xs[a]? = some x → P a x)
    (hstep : ∀ n x x', a ≤ n → xs[n]? = some x → xs[n + 1]? = some x' → P n x → P (n + 1) x') :
    ∀ {n x}, a ≤ n → xs[n]? = some x → P n x := by
  intro n x han
  induction n, han using Nat.le_induction generalizing x with
  | base => exact hstart x
  | succ n han ih =>
    intro hx'
    have hlt : n < xs.length := Nat.lt_of_succ_lt (List.getElem?_eq_some_iff.mp hx').1
    exact hstep n _ _ han (List.getElem?_eq_getElem hlt) hx' (ih (List.getElem?_eq_getElem hlt))

namespace Tale

theorem atWork (h : Tale xs) (hx : xs[n]? = some x) : x.AtWork := by
  refine states_induct (P := fun _ x => x.AtWork) (fun y hy => .of_none (h.start hy).2.1)
    (fun n y y' _ hy hy' ih => ?_) (Nat.zero_le n) hx
  rcases h.next hy hy' with hs | ⟨hr, ht⟩
  · exact ih.happens hs
  · exact .of_none (ht.quiet.2.1.trans hr)

theorem fresh_le (h : Tale xs) (hab : a ≤ b) (hx : xs[a]? = some x) (hy : xs[b]? = some y) : x.fresh ≤ y.fresh := by
  refine states_induct (P := fun _ z => x.fresh ≤ z.fresh) (fun z hz => ?_) (fun n z z' _ hz hz' ih => ?_) hab hy
  · cases hx.symm.trans hz
    exact le_rfl
  · rcases h.next hz hz' with hs | ⟨_, ht⟩
    · exact ih.trans (hs.attributes (h.atWork hz)).fresh
    · exact ih.trans ht.quiet.2.2.2

theorem length_le (h : Tale xs) (hab : a ≤ b) (hx : xs[a]? = some x) (hy : xs[b]? = some y) :
    x.tasks.length ≤ y.tasks.length := by
  refine states_induct (P := fun _ z => x.tasks.length ≤ z.tasks.length) (fun z hz => ?_)
    (fun n z z' _ hz hz' ih => ?_) hab hy
  · cases hx.symm.trans hz
    exact le_rfl
  · rcases h.next hz hz' with hs | ⟨_, ht⟩
    · exact ih.trans hs.length_le
    · rwa [ht.quiet.1]

theorem said (h : Tale xs) (hx : xs[n]? = some x) (hx' : xs[n + 1]? = some x') :
    x'.log = x.log ++ x.said x' ∧ ∀ e ∈ x.said x', e.id = x.context := by
  rcases h.next hx hx' with hs | ⟨_, ht⟩
  · obtain ⟨es, he, hes⟩ := (hs.attributes (h.atWork hx)).log
    rw [State.said, he, List.drop_left]
    exact ⟨rfl, hes⟩
  · simp [State.said, ht.quiet.2.2.1]

theorem outside_lt (h : Tale xs) (hx : xs[n]? = some x) {k : Nat} (hk : x.outside = some (.generated k)) :
    k < x.fresh := by
  induction n using Nat.strong_induction_on generalizing x with
  | _ n ih =>
    cases n with
    | zero => exact (h.start hx).2.2 k hk
    | succ n =>
      have hlt : n < xs.length := Nat.lt_of_succ_lt (List.getElem?_eq_some_iff.mp hx).1
      have hy := List.getElem?_eq_getElem hlt
      rcases h.next hy hx with hs | ⟨_, ht⟩
      · have ha := hs.attributes (h.atWork hy)
        exact (ih n (Nat.lt_succ_self n) hy (ha.outside ▸ hk)).trans_le ha.fresh
      · generalize xs[n] = y at hy ht
        cases ht with
        | drops | names => cases hk
        | mints =>
          cases hk
          exact Nat.lt_succ_self _
        | @recalls z hz =>
          obtain ⟨j, hj⟩ := List.getElem?_of_mem hz
          rw [List.getElem?_take] at hj
          split at hj
          next hjn => exact (ih j (hjn.trans (Nat.lt_succ_self n)) hj hk).trans_le (h.fresh_le (y := y) hjn.le hj hy)
          next => cases hj

theorem id_lt (h : Tale xs) (hx : xs[n]? = some x) {k : Nat} (hk : x.id? i = some (some (.generated k))) :
    k < x.fresh := by
  refine states_induct (P := fun _ x => ∀ i k, x.id? i = some (some (.generated k)) → k < x.fresh)
    (fun y hy i k hk => ?_) (fun n y y' _ hy hy' ih i k hk => ?_) (Nat.zero_le n) hx i k hk
  · simp [State.id?, (h.start hy).1] at hk
  · rcases h.next hy hy' with hs | ⟨_, ht⟩
    · have ha := hs.attributes (h.atWork hy)
      have made : y.context = some (.generated k) → k < y'.fresh := by
        intro hc
        refine Nat.lt_of_lt_of_le ?_ ha.fresh
        cases hr : y.running with
        | none => exact h.outside_lt hy ((State.context_idle hr).symm.trans hc)
        | some r =>
          rw [State.context_running hr] at hc
          cases hi : y.id? r.task with
          | none => rw [hi] at hc; cases hc
          | some d => rw [hi] at hc; exact ih r.task k (hi.trans (congrArg some hc))
      cases hi : y.id? i with
      | none => exact made (ha.made hi hk).symm
      | some d =>
        by_cases hcur : y.current? = some i
        · obtain ⟨d', hd', hsw⟩ := ha.own hcur hi
          cases hd'.symm.trans hk
          generalize y'.fresh = m at hsw
          cases hsw with
          | keeps => exact ih i k hi
          | opens => exact Nat.lt_succ_self _
        · cases (ha.kept hcur hi).symm.trans hk
          exact (ih i k hi).trans_le ha.fresh
    · exact (ih i k ((ht.ids i).symm.trans hk)).trans_le ht.quiet.2.2.2

end Tale

theorem State.InScope.not_returns (h : x.InScope t base found d) (hl : x.AtWork) : ¬ x.Returns t base := by
  rintro ⟨o, hr⟩
  obtain ⟨_, s, f, p, _, hp, hin⟩ := h
  cases hp.symm.trans (State.point?_at hr (hl _ hr))
  have hsize : sizeOf (Stack.push f base) ≤ sizeOf base := Circle.Above.size hin
  simp only [Stack.push.sizeOf_spec] at hsize
  omega

theorem State.Happens.keeps (hs : x.Happens may x') (hl : x.AtWork) (hi : x.id? i = some found)
    (hw : ∀ (v : Shape) (w : Work v) (k : Stack v), x.running = some (w.on i k) → ¬ w.Scopes) :
    x'.id? i = some found := by
  rcases hs.utters with ⟨j, v, w, k, hr, hscopes, _⟩ | h
  · refine (hs.attributes hl).kept (fun hcur => ?_) hi
    have hj : j = i := by simpa [State.current?, hr] using hcur
    exact hw v w k (hj ▸ hr) hscopes
  · exact h.kept hi

theorem State.InScope.happens (h : x.InScope t base found d) (hl : x.AtWork) (hd : ∀ e, found = some e → d = e)
    (hs : x.Happens may x') :
    x'.InScope t base found d ∨ x'.Returns t base ∧ x'.id? t = some found := by
  obtain ⟨hid, s, f, p, hf, hp, hin⟩ := h
  obtain ⟨p', hp', hgets⟩ := hs.gets hl hp
  have other : (∀ r, x.running = some r → r.task ≠ t) → x'.id? t = some (some d) := fun hne =>
    hs.keeps hl hid fun v w k hr => absurd (w.on_task t k) (hne _ hr)
  cases hgets with
  | stays hne => exact .inl ⟨other hne, s, f, p, hf, hp', hin⟩
  | goesOn hr => exact .inl ⟨other fun r h => (nomatch hr.symm.trans h), s, f, _, hf, hp', hin⟩
  | ends => cases hin
  | @works v w k hr he =>
    rcases hin.work with ⟨hw, hk⟩ | ⟨o, heq⟩
    · refine .inl ⟨hs.keeps hl hid fun v' w' k' hr' => ?_, s, f, _, hf, hp', .of_next (serving_works w x hw) hk⟩
      cases w <;> cases w' <;> cases hr.symm.trans hr' <;> exact serving_not_scopes hw
    · -- What the scope has made comes back to it.
      have hback : x.running = some ((Work.back f o).on t base) := hr.trans (congrArg some heq)
      have he' := hs.works hback
      obtain ⟨_, _, hids, _⟩ := ((Work.back f o).perform x).1.carryOn_silent t ((Work.back f o).perform x).2 base
      rw [← he'] at hids
      have hscoping : Scoping x found.isNone ((Work.back f o).perform x) := hf.resumes x o
      have hpoint := hs.works_point hl hback
      generalize (Work.back f o).perform x = z at hscoping hids he' hpoint
      cases hscoping with
      | runs b h q k hg => exact .inl ⟨(hids t).trans hid, _, _, _, hg, hpoint, trivial, .base⟩
      | @leaves m o' hspeaks =>
        have hrm : m.running = some ((Work.back f o).on t base) := hspeaks.running.trans hback
        obtain ⟨hown, _⟩ := State.leaveScope_spec hrm (hspeaks.kept hid) found.isNone
        refine .inr ⟨⟨o', by rw [he']; rfl⟩, (hids t).trans (hown.trans ?_)⟩
        cases found with
        | none => rfl
        | some e => rw [hd e rfl]; rfl

theorem State.enterScope_length (l : State) : l.enterScope.1.tasks.length = l.tasks.length := by
  unfold State.enterScope State.setContext
  dsimp only
  split
  · rfl
  · exact List.length_modify ..

theorem Call.Executes.happens (hc : c.Executes) (hr : x.running = some ⟨t, u, .call c, base⟩) (hl : x.AtWork)
    (hi : x.id? t = some found) (hs : x.Happens may x') :
    (c.Opens x → x'.InScope t base found (found.getD (.generated x.fresh)) ∧ x'.log = x.log ∧
      x'.tasks.length = x.tasks.length ∧ Switches x.fresh found x'.fresh (some (found.getD (.generated x.fresh)))) ∧
    (¬ c.Opens x → x'.Returns t base ∧ x'.id? t = some found) := by
  have hr' : x.running = some ((Work.call c).on t base) := hr
  have he := hs.works hr'
  have hpoint := hs.works_point hl hr'
  obtain ⟨_, hfresh, hids, hlog⟩ := ((Work.call c).perform x).1.carryOn_silent t ((Work.call c).perform x).2 base
  rw [← he] at hfresh hids hlog
  rcases hc.begins x with ⟨hopens, M, f, hbegin, hf⟩ | ⟨hshut, hspeaks, o, hgive⟩
  · refine ⟨fun _ => ?_, fun hn => absurd hopens hn⟩
    obtain ⟨hrestores, hown, _, _, hquiet, hswitch⟩ := State.enterScope_spec hr hi
    have hwork : (Work.call c).perform x = (x.enterScope.1, .call (.borrow M) f) := hbegin
    rw [hwork] at hpoint hids hfresh hlog
    have hlen : x'.tasks.length = x.tasks.length := by
      rw [he, State.carryOn_length, hwork]
      exact x.enterScope_length
    exact ⟨⟨(hids t).trans hown, _, f, _, hrestores ▸ hf, hpoint, trivial, .base⟩, hlog.trans hquiet, hlen,
      hfresh ▸ hswitch⟩
  · refine ⟨fun hopens => absurd hopens hshut, fun _ => ⟨⟨o, ?_⟩, (hids t).trans (hspeaks.kept hi)⟩⟩
    have hwork : ((Work.call c).perform x).2 = .give o := hgive
    rw [he, hwork]
    rfl

theorem State.Tends.happens (h : x.Tends i d) (hl : x.AtWork) (hs : x.Happens may x') : x'.Tends i d := by
  obtain ⟨hid, p, hp, hin⟩ := h
  have hbase : ∀ {v : Shape} {w : Work v} {k : Stack v}, (w.on i k).point = p → tending.work w ∧
      tending.Above (.done .unit) k := by
    intro v w k he
    subst he
    rcases hin with hin | ⟨v', o, hend⟩
    · refine hin.work.resolve_right ?_
      rintro ⟨o, heq⟩
      cases w <;> cases heq
    · cases w <;> cases hend
  have hkeep : x'.id? i = some (some d) := hs.keeps hl hid fun v w k hr hscopes => by
    have hat := State.point?_at hr (hl _ hr)
    rw [Work.on_task] at hat
    have hw := (hbase (Option.some.inj (hat.symm.trans hp))).1
    cases w with
    | call c => cases c <;> first | exact hw.elim | exact hscopes.elim
    | back f o => cases f <;> first | exact hw.elim | exact hscopes.elim
  obtain ⟨p', hp', hgets⟩ := hs.gets hl hp
  refine ⟨hkeep, p', hp', ?_⟩
  cases hgets with
  | stays => exact hin
  | goesOn =>
    rcases hin with hin | ⟨_, _, hend⟩
    · exact .inl hin
    · cases hend
  | ends => exact .inr ⟨_, _, rfl⟩
  | works =>
    obtain ⟨hw, hk⟩ := hbase rfl
    exact .inl (.of_next (tending_works _ x hw) hk)

theorem State.Tends.assumes (h : x.Tends i d) (ha : x.Assumes past x') : x'.Tends i d := by
  obtain ⟨hid, p, hp, hin⟩ := h
  exact ⟨(ha.ids i).trans hid, p, (ha.point i).trans hp, hin⟩

theorem State.Happens.makes (hs : x.Happens may x') (hl : x.AtWork) (ht : x.current? = some t)
    (hid : x.id? t = some (some d)) (hi : x.tasks.length ≤ i) (hi' : i < x'.tasks.length) : x'.Tends i d := by
  obtain ⟨r, hr, rfl⟩ := Option.map_eq_some_iff.mp ht
  have hctx := State.context_of_id hr hid
  have hlt := hl.lt hr
  refine ⟨?_, ?_⟩
  · have hget : x'.id? i = some (x'.tasks[i].context) := by rw [State.id?, List.getElem?_eq_getElem hi']; rfl
    rw [hget, (hs.attributes hl).made (State.id?_eq_none.mpr hi) hget, hctx]
  · have born : ∀ {m : State}, m.tasks[i]? = x'.tasks[i]? →
        (∀ k, m.tasks[i]? = some k → ∃ c : Call .unit, c.Housekeeps ∧
          k.status = .ready none (.push (.start c) (.done .unit))) →
        x'.point? i = (m.tasks[i]?).bind (fun k => k.status.point?) →
        ∃ p, x'.point? i = some p ∧
          (tending.Within (.done .unit) p ∨ ∃ (v : Shape) (o : Outcome v), p = .ended o) := by
      intro m hm hmade hpoint
      rw [List.getElem?_eq_getElem hi'] at hm
      obtain ⟨c, hc, hstatus⟩ := hmade _ hm
      refine ⟨.waits (.push (.start c) (.done .unit)), ?_, .inl (.push hc.tends .base)⟩
      rw [hpoint, hm, Option.bind_some, hstatus]
      rfl
    rcases hs.cases with hl' | ⟨hn, _⟩
    · cases State.step_turn hl' with
      | @works j v w k hrun =>
        have hj : j = r.task := by rw [Option.some.inj (hr.symm.trans hrun), Work.on_task]
        have hne : j ≠ i := by omega
        refine born ?_ (fun k => (w.placid x).made i k hi) (State.carryOn_point_of_ne _ k hne)
        generalize (w.perform x).2 = z
        cases z <;> simp [State.carryOn, State.modifyTask, State.enqueue, hne]
      | @ends j v o _ hrun htame =>
        have hlen : (x.lay j o).tasks.length ≤ i := by simpa [State.lay, State.modifyTask] using hi
        exact born rfl (fun k => htame.made i k hlen) (State.point?_idle htame.undisturbed.running i)
      | goesOn hn => cases hn.symm.trans hr
      | rests hn => cases hn.symm.trans hr
    · cases hn.symm.trans hr

section

variable (h : Tale xs) (hx : xs[a]? = some l) (hr : l.running = some ⟨t, u, .call c, base⟩) (hc : c.Executes)

include h hx hr

theorem Tale.atCall : l.id? t = some l.context := by
  obtain ⟨k, hk, _⟩ := h.atWork hx _ hr
  rw [State.context_running hr, State.id?, hk]
  rfl

include hc

theorem Tale.inScope (hn : UnderWay xs a t base n) (hy : xs[n]? = some y) :
    n = a ∨ c.Opens l ∧ y.InScope t base l.context (l.context.getD (.generated l.fresh)) := by
  have hkeep : ∀ e, l.context = some e → l.context.getD (.generated l.fresh) = e := fun e he => by rw [he]; rfl
  refine states_induct (P := fun n y => UnderWay xs a t base n → n = a ∨ c.Opens l ∧
    y.InScope t base l.context (l.context.getD (.generated l.fresh))) (fun _ _ _ => .inl rfl)
    (fun n z z' han hz hz' ih hn => .inr ?_) hn.1 hy hn
  have hback := hn.2 (n + 1) z' (Nat.lt_succ_of_le han) le_rfl hz'
  rcases ih ⟨han, fun j x hj hjn => hn.2 j x hj (Nat.le_succ_of_le hjn)⟩ with rfl | ⟨hopens, hin⟩
  · cases hx.symm.trans hz
    rcases h.next hx hz' with hs | ⟨hnone, _⟩
    · obtain ⟨hopen, hshut⟩ := hc.happens hr (h.atWork hx) (h.atCall hx hr) hs
      by_cases ho : c.Opens l
      · exact ⟨ho, (hopen ho).1⟩
      · exact absurd (hshut ho).1 hback
    · cases hnone.symm.trans hr
  · refine ⟨hopens, ?_⟩
    rcases h.next hz hz' with hs | ⟨_, ha⟩
    · exact (hin.happens (h.atWork hz) hkeep hs).resolve_right fun hret => hback hret.1
    · obtain ⟨hid, s, f, p, hf, hp, hwithin⟩ := hin
      exact ⟨(ha.ids t).trans hid, s, f, p, hf, (ha.point t).trans hp, hwithin⟩

theorem Tale.restored (hn : UnderWay xs a t base n) (hy : xs[n + 1]? = some y) (hret : y.Returns t base) :
    y.id? t = some l.context := by
  have hkeep : ∀ e, l.context = some e → l.context.getD (.generated l.fresh) = e := fun e he => by rw [he]; rfl
  have hlt : n < xs.length := Nat.lt_of_succ_lt (List.getElem?_eq_some_iff.mp hy).1
  obtain ⟨z, hz⟩ : ∃ z, xs[n]? = some z := ⟨_, List.getElem?_eq_getElem hlt⟩
  rcases h.inScope hx hr hc hn hz with rfl | ⟨_, hin⟩
  · cases hx.symm.trans hz
    rcases h.next hx hy with hs | ⟨hnone, _⟩
    · obtain ⟨hopen, hshut⟩ := hc.happens hr (h.atWork hx) (h.atCall hx hr) hs
      by_cases ho : c.Opens l
      · exact absurd hret ((hopen ho).1.not_returns (h.atWork hy))
      · exact (hshut ho).2
    · cases hnone.symm.trans hr
  · rcases h.next hz hy with hs | ⟨hnone, ha⟩
    · rcases hin.happens (h.atWork hz) hkeep hs with hin' | ⟨_, hid⟩
      · exact absurd hret (hin'.not_returns (h.atWork hy))
      · exact hid
    · obtain ⟨o, hret⟩ := hret
      cases (ha.quiet.2.1.trans hnone).symm.trans hret

theorem Tale.stems (ho : c.Opens l) (hi : Stems xs (UnderWay xs a t base) t i) :
    ∃ (b : Nat) (y : State), xs[b]? = some y ∧ y.tasks.length ≤ i ∧
      ∀ (n : Nat) (x : State), b < n → xs[n]? = some x → x.Tends i (l.context.getD (.generated l.fresh)) := by
  have lasts : ∀ {b : Nat} {y y' : State} {i : Nat}, xs[b]? = some y → xs[b + 1]? = some y' → y.tasks.length ≤ i →
      y'.Tends i (l.context.getD (.generated l.fresh)) →
      ∃ (b : Nat) (y : State), xs[b]? = some y ∧ y.tasks.length ≤ i ∧
        ∀ (n : Nat) (x : State), b < n → xs[n]? = some x → x.Tends i (l.context.getD (.generated l.fresh)) := by
    intro b y y' i hy hy' hi ht
    refine ⟨b, y, hy, hi, fun n x hn hx => ?_⟩
    refine states_induct (P := fun _ x => x.Tends i (l.context.getD (.generated l.fresh))) (fun z hz => ?_)
      (fun n z z' _ hz hz' ih => ?_) (Nat.succ_le_of_lt hn) hx
    · cases hy'.symm.trans hz
      exact ht
    · rcases h.next hz hz' with hs | ⟨_, ha⟩
      · exact ih.happens (h.atWork hz) hs
      · exact ih.assumes ha
  have made : ∀ {n : Nat} {y y' : State} {j i : Nat}, xs[n]? = some y → xs[n + 1]? = some y' → y.current? = some j →
      y.tasks.length ≤ i → i < y'.tasks.length → y.id? j = some (some (l.context.getD (.generated l.fresh))) →
      y'.Tends i (l.context.getD (.generated l.fresh)) := by
    intro n y y' j i hy hy' hj hi hi' hid
    rcases h.next hy hy' with hs | ⟨hnone, _⟩
    · exact hs.makes (h.atWork hy) hj hid hi hi'
    · rw [State.current?, hnone] at hj
      cases hj
  induction hi with
  | made hn hmakes =>
    obtain ⟨y, y', hy, hy', hcur, hi, hi'⟩ := mem_makes.mp hmakes
    rcases h.inScope hx hr hc hn hy with rfl | ⟨_, hin⟩
    · -- The first step opens the scope, and makes no task.
      cases hx.symm.trans hy
      rcases h.next hx hy' with hs | ⟨hnone, _⟩
      · obtain ⟨_, _, hlen, _⟩ := (hc.happens hr (h.atWork hx) (h.atCall hx hr) hs).1 ho
        omega
      · cases hnone.symm.trans hr
    · exact lasts hy hy' hi (made hy hy' hcur hi hi' hin.1)
  | again hj hmakes ih =>
    obtain ⟨y, y', hy, hy', hcur, hi, hi'⟩ := mem_makes.mp hmakes
    obtain ⟨b, z, hz, hlen, hall⟩ := ih
    refine lasts hy hy' hi (made hy hy' hcur hi hi' (hall _ y (Nat.lt_of_not_le fun hle => ?_) hy).1)
    obtain ⟨r, hr', hrt⟩ := Option.map_eq_some_iff.mp hcur
    have hlt := (h.atWork hy).lt hr'
    have := h.length_le hle hy hz
    omega

theorem Tale.takesNew (ho : c.Opens l) (hnone : l.context = none) (hy : xs[a + 1]? = some y) :
    y.InScope t base none (.generated l.fresh) ∧ y.fresh = l.fresh + 1 ∧ Attributes l y := by
  rcases h.next hx hy with hs | ⟨hidle, _⟩
  · obtain ⟨hin, _, _, hsw⟩ := (hc.happens hr (h.atWork hx) (h.atCall hx hr) hs).1 ho
    have hg : l.context.getD (.generated l.fresh) = .generated l.fresh := by rw [hnone]; rfl
    rw [hg, hnone] at hin
    rw [hnone] at hsw
    refine ⟨hin, ?_, hs.attributes (h.atWork hx)⟩
    generalize y.fresh = k at hsw
    cases hsw with
    | opens => rfl
  · cases hidle.symm.trans hr

theorem Tale.newer (ho : c.Opens l) (hnone : l.context = none) (hn : a < n) (hy : xs[n]? = some y) :
    l.fresh < y.fresh := by
  have hlt : a + 1 < xs.length := (Nat.succ_le_of_lt hn).trans_lt (List.getElem?_eq_some_iff.mp hy).1
  obtain ⟨z, hz⟩ : ∃ z, xs[a + 1]? = some z := ⟨_, List.getElem?_eq_getElem hlt⟩
  have := (h.takesNew hx hr hc ho hnone hz).2.1
  have := h.fresh_le (Nat.succ_le_of_lt hn) hz hy
  omega

theorem Tale.outside_ne (ho : c.Opens l) (hnone : l.context = none) (hy : xs[n]? = some y) :
    y.outside ≠ some (.generated l.fresh) := by
  induction n using Nat.strong_induction_on generalizing y with
  | _ n ih =>
    rcases Nat.lt_or_ge a n with hn | hn
    · obtain ⟨m, rfl⟩ : ∃ m, n = m + 1 := ⟨n - 1, by omega⟩
      have hlt : m < xs.length := Nat.lt_of_succ_lt (List.getElem?_eq_some_iff.mp hy).1
      obtain ⟨z, hz⟩ : ∃ z, xs[m]? = some z := ⟨_, List.getElem?_eq_getElem hlt⟩
      have hm := ih m (Nat.lt_succ_self m) hz
      rcases h.next hz hy with hs | ⟨hidle, ha⟩
      · rwa [(hs.attributes (h.atWork hz)).outside]
      · cases ha with
        | drops | names => exact nofun
        | mints =>
          -- The call itself is at work, so this comes after its first step.
          have ham : a ≠ m := by
            rintro rfl
            cases hx.symm.trans hz
            cases hidle.symm.trans hr
          have := h.newer hx hr hc ho hnone (by omega) hz
          intro he
          simp only [Option.some.injEq, CorrelationId.generated.injEq] at he
          omega
        | @recalls x hin =>
          obtain ⟨j, hj⟩ := List.getElem?_of_mem hin
          rw [List.getElem?_take] at hj
          split at hj
          next hjm => exact ih j (y := x) (hjm.trans (Nat.lt_succ_self m)) hj
          next => cases hj
    · intro he
      have := h.outside_lt hy he
      have := h.fresh_le hn hy hx
      omega

theorem Tale.alone (ho : c.Opens l) (hnone : l.context = none) (hn : a < n) (hy : xs[n]? = some y)
    (hi : y.id? i = some (some (.generated l.fresh))) :
    i = t ∧ UnderWay xs a t base n ∨ Stems xs (UnderWay xs a t base) t i := by
  refine states_induct (P := fun n y => ∀ i, y.id? i = some (some (.generated l.fresh)) →
    i = t ∧ UnderWay xs a t base n ∨ Stems xs (UnderWay xs a t base) t i) (fun y hy i hi => ?_)
    (fun n y y' han hy hy' ih i hi => ?_) (Nat.succ_le_of_lt hn) hy i hi
  · obtain ⟨hin, _, ha⟩ := h.takesNew hx hr hc ho hnone hy
    cases hl : l.id? i with
    | none => cases (ha.made hl hi).trans hnone
    | some d =>
      by_cases hit : i = t
      · refine .inl ⟨hit, Nat.le_succ a, fun j z haj hj hz => ?_⟩
        obtain rfl : j = a + 1 := by omega
        cases hy.symm.trans hz
        exact hin.not_returns (h.atWork hy)
      · have hcur : l.current? ≠ some i := by
          rw [State.current?, hr]
          exact fun he => hit (Option.some.inj he).symm
        cases (ha.kept hcur hl).symm.trans hi
        exact absurd (h.id_lt hx hl) (Nat.lt_irrefl _)
  · -- The one that has the id before keeps it, and hands it on to the tasks that it makes.
    have goesOn : y.id? i = some (some (.generated l.fresh)) →
        i = t ∧ UnderWay xs a t base (n + 1) ∨ Stems xs (UnderWay xs a t base) t i := by
      intro hyi
      refine (ih i hyi).imp_left fun hu => ⟨hu.1, hu.2.1.trans (Nat.le_succ n), fun j z haj hj hz hret => ?_⟩
      obtain ⟨hit, hway⟩ := hu
      rcases Nat.lt_or_eq_of_le hj with hlt | rfl
      · exact hway.2 j z haj (Nat.lt_succ_iff.mp hlt) hz hret
      · cases hy'.symm.trans hz
        have hid := h.restored hx hr hc hway hy' hret
        rw [← hit, hi, hnone] at hid
        cases hid
    rcases h.next hy hy' with hs | ⟨_, ha⟩
    · have ha := hs.attributes (h.atWork hy)
      cases hyi : y.id? i with
      | none =>
        have hctx := ha.made hyi hi
        have hi' : i < y'.tasks.length := by
          refine Nat.lt_of_not_le fun hle => ?_
          cases (State.id?_eq_none.mpr hle).symm.trans hi
        cases hrun : y.running with
        | none => exact absurd ((State.context_idle hrun).symm.trans hctx.symm) (h.outside_ne hx hr hc ho hnone hy)
        | some r =>
          obtain ⟨k, hk, _⟩ := h.atWork hy _ hrun
          have hmaker : y.id? r.task = some (some (.generated l.fresh)) := by
            rw [hctx, State.context_running hrun, State.id?, hk]
            rfl
          have hmakes : i ∈ makes xs n r.task := mem_makes.mpr
            ⟨y, y', hy, hy', by rw [State.current?, hrun]; rfl, State.id?_eq_none.mp hyi, hi'⟩
          rcases ih r.task hmaker with ⟨hit, hway⟩ | hstems
          · exact .inr (.made hway (hit ▸ hmakes))
          · exact .inr (.again hstems hmakes)
      | some d =>
        by_cases hcur : y.current? = some i
        · obtain ⟨d', hd', hsw⟩ := ha.own hcur hyi
          cases hd'.symm.trans hi
          have hnew := h.newer hx hr hc ho hnone han hy
          generalize y'.fresh = k at hsw
          generalize he : l.fresh = g at hsw hnew
          cases hsw with
          | keeps => exact goesOn (he ▸ hyi)
          | opens => exact absurd hnew (Nat.lt_irrefl _)
        · cases (ha.kept hcur hyi).symm.trans hi
          exact goesOn hyi
    · exact goesOn ((ha.ids i).symm.trans hi)

end

/-- However a call ends, its task has the id then that it had before. If the call opens a scope, it reports under the
one id that it has found, and if there was none under a new one, that nobody else has; so do the tasks that are made
for it, for as long as they live. -/
theorem call_reports_under_one_id (h : Tale xs) (hx : xs[a]? = some l)
    (hr : l.running = some ⟨t, u, .call c, base⟩) (hc : c.Executes) :
    (∀ n y, UnderWay xs a t base n → xs[n + 1]? = some y → y.Returns t base → y.context = l.context) ∧
      (c.Opens l → ∃ d,
        (l.context = some d ∨ l.context = none ∧ d = .generated l.fresh ∧
          (∀ n y i, xs[n]? = some y → y.id? i = some (some d) →
            i = t ∧ UnderWay xs a t base n ∨ Stems xs (UnderWay xs a t base) t i) ∧
          ∀ n y y' e, xs[n]? = some y → xs[n + 1]? = some y' → e ∈ y.said y' → e.id = some d →
            ∃ i, y.current? = some i ∧ (i = t ∧ UnderWay xs a t base n ∨ Stems xs (UnderWay xs a t base) t i)) ∧
        (∀ n e, UnderWay xs a t base n → e ∈ reports xs n t → e.id = some d) ∧
        ∀ i, Stems xs (UnderWay xs a t base) t i → ∀ n e, e ∈ reports xs n i → e.id = some d) ∧
      (¬ c.Opens l → ∀ n e, UnderWay xs a t base n → e ∈ reports xs n t → e.id = l.context) := by
  have context : ∀ {y : State} {i : Nat} {d : Option CorrelationId}, y.current? = some i → y.id? i = some d → y.context = d := by
    intro y i d hcur hid
    obtain ⟨r, hrun, rfl⟩ := Option.map_eq_some_iff.mp hcur
    exact State.context_of_id hrun hid
  refine ⟨fun n y hn hy hret => ?_, fun ho => ⟨l.context.getD (.generated l.fresh), ?_, fun n e hn hrep => ?_,
    fun i hi n e hrep => ?_⟩, fun hshut n e hn hrep => ?_⟩
  · obtain ⟨o, hrun⟩ := hret
    exact State.context_of_id hrun (h.restored hx hr hc hn hy ⟨o, hrun⟩)
  · cases hl : l.context with
    | some d => exact .inl rfl
    | none =>
      have alone : ∀ n y i, xs[n]? = some y → y.id? i = some (some (.generated l.fresh)) →
          i = t ∧ UnderWay xs a t base n ∨ Stems xs (UnderWay xs a t base) t i := by
        intro n y i hy hi
        rcases Nat.lt_or_ge a n with hn | hn
        · exact h.alone hx hr hc ho hl hn hy hi
        · have := h.id_lt hy hi
          have := h.fresh_le hn hy hx
          omega
      refine .inr ⟨rfl, rfl, alone, fun n y y' e hy hy' he hid => ?_⟩
      have hctx : y.context = some (.generated l.fresh) := ((h.said hy hy').2 e he).symm.trans hid
      cases hrun : y.running with
      | none => exact absurd ((State.context_idle hrun).symm.trans hctx) (h.outside_ne hx hr hc ho hl hy)
      | some r =>
        obtain ⟨k, hk, _⟩ := h.atWork hy _ hrun
        refine ⟨r.task, by rw [State.current?, hrun]; rfl, alone n y r.task hy ?_⟩
        rw [← hctx, State.context_running hrun, State.id?, hk]
        rfl
  · obtain ⟨y, y', hy, hy', hcur, he⟩ := mem_reports.mp hrep
    rcases h.inScope hx hr hc hn hy with rfl | ⟨_, hin⟩
    · -- The step that opens the scope logs nothing.
      cases hx.symm.trans hy
      rcases h.next hx hy' with hs | ⟨hidle, _⟩
      · obtain ⟨_, hlog, _⟩ := (hc.happens hr (h.atWork hx) (h.atCall hx hr) hs).1 ho
        simp [State.said, hlog] at he
      · cases hidle.symm.trans hr
    · rw [(h.said hy hy').2 e he]
      exact context hcur hin.1
  · obtain ⟨y, y', hy, hy', hcur, he⟩ := mem_reports.mp hrep
    obtain ⟨b, z, hz, hlen, hall⟩ := h.stems hx hr hc ho hi
    have hbn : b < n := by
      refine Nat.lt_of_not_le fun hle => ?_
      obtain ⟨r, hrun, hri⟩ := Option.map_eq_some_iff.mp hcur
      have := (h.atWork hy).lt hrun
      have := h.length_le hle hy hz
      omega
    rw [(h.said hy hy').2 e he]
    exact context hcur (hall n y hbn hy).1
  · obtain ⟨y, y', hy, hy', hcur, he⟩ := mem_reports.mp hrep
    rcases h.inScope hx hr hc hn hy with rfl | ⟨ho, _⟩
    · cases hx.symm.trans hy
      exact (h.said hx hy').2 e he
    · exact absurd ho hshut

theorem Course.tale (hm : Course (fun _ _ => True) l past x) (ht : l.tasks = []) (hr : l.running = none)
    (ho : ∀ k, l.outside = some (.generated k) → k < l.fresh) : Tale (past ++ [x]) := by
  have hlast : ∀ {past : List State} {x : State} {n : Nat} {y : State}, (past ++ [x])[n]? = some y →
      n < past.length ∧ past[n]? = some y ∨ n = past.length ∧ y = x := by
    intro past x n y hy
    rw [List.getElem?_append] at hy
    split at hy
    next hn => exact .inl ⟨hn, hy⟩
    next hn =>
      obtain ⟨hlt, he⟩ := List.getElem?_eq_some_iff.mp hy
      rw [List.length_singleton] at hlt
      exact .inr ⟨by omega, by simpa using he.symm⟩
  induction hm with
  | start =>
    refine ⟨fun {y} hy => ?_, fun {n y y'} _ hy' => ?_⟩
    · cases hy
      exact ⟨ht, hr, ho⟩
    · simp at hy'
  | @step past m m' hc hs ih =>
    refine ⟨fun {y} hy => ih.start ?_, fun {n y y'} hy hy' => ?_⟩
    · rwa [List.getElem?_append_left (by simp)] at hy
    · rcases hlast hy' with ⟨hlt, _⟩ | ⟨hn, rfl⟩
      · have hlt' : n < (past ++ [m]).length := Nat.lt_of_succ_lt hlt
        rw [List.getElem?_append_left hlt] at hy'
        rw [List.getElem?_append_left hlt'] at hy
        rw [List.take_append_of_le_length hlt'.le]
        exact ih.next hy hy'
      · rw [List.length_append, List.length_singleton] at hn
        obtain rfl : n = past.length := by omega
        rw [List.getElem?_append_left (by simp), List.getElem?_append_right le_rfl] at hy
        cases (show m = y by simpa using hy)
        exact .inl hs

def unset : State := { managers := [{}] }

def pairUp : Call .manager :=
  .setUp 0 (some { filename := "f" }) (.pooled { minConnections := .int 2, maxConnections := .int 2 })

def selectOne : Call .reply := .execute 0 ⟨"SELECT 1", []⟩ (.text "read")

def pairedUp : List State × State := State.calling ([], unset) pairUp 2

def calledOnce : List State × State := State.calling pairedUp selectOne 38

def calledTwice : List State × State := State.calling calledOnce selectOne 12

def twoCalls : List State := calledTwice.1 ++ [calledTwice.2]

theorem twoCalls_tale : Tale twoCalls := by
  have idle : ∀ {l : State}, l.running.isNone = true → l.running = none := Option.isNone_iff_eq_none.mp
  have hpair : Course (fun _ _ => True) unset pairedUp.1 pairedUp.2 := Course.start.calling rfl trivial 2
  have hfirst : Course (fun _ _ => True) unset calledOnce.1 calledOnce.2 := by
    unfold calledOnce State.calling
    exact (hpair.step (.enter (idle (by decide +kernel)) trivial)).track 38
  have hsecond : Course (fun _ _ => True) unset calledTwice.1 calledTwice.2 := by
    unfold calledTwice State.calling
    exact (hfirst.step (.enter (idle (by decide +kernel)) trivial)).track 12
  exact hsecond.tale rfl rfl nofun

theorem State.track_prefix (past : List State) (l : State) (n : Nat) :
    past ++ [l] <+: (State.track past l n).1 ++ [(State.track past l n).2] := by
  induction n generalizing past l with
  | zero => exact List.prefix_rfl
  | succ n ih =>
    rw [State.track]
    split
    · exact List.prefix_rfl
    next l' _ => exact (List.prefix_append _ _).trans (ih (past ++ [l]) l')

theorem twoCalls_first : twoCalls[4]? = some (pairedUp.2.enter selectOne) := by
  have hfirst := State.track_prefix (pairedUp.1 ++ [pairedUp.2]) (pairedUp.2.enter selectOne) 38
  have hsecond := State.track_prefix (calledOnce.1 ++ [calledOnce.2]) (calledOnce.2.enter selectOne) 12
  have hall : pairedUp.1 ++ [pairedUp.2] ++ [pairedUp.2.enter selectOne] <+: twoCalls :=
    hfirst.trans ((List.prefix_append _ _).trans hsecond)
  have hlen : (pairedUp.1 ++ [pairedUp.2]).length = 4 := by decide +kernel
  obtain ⟨rest, hrest⟩ := hall
  rw [← hrest, List.append_assoc, List.getElem?_append_right hlen.le, hlen]
  rfl

def State.isBack (t : Nat) (u : Shape) (x : State) : Bool :=
  match x.running with
  | some ⟨i, v, .give _, .done _⟩ => i = t && v = u
  | _ => false

theorem State.isBack_iff : x.isBack t u = true ↔ x.Returns t (.done u) := by
  unfold State.isBack State.Returns
  constructor
  · intro h
    split at h
    next i v o hr =>
      simp only [Bool.and_eq_true, decide_eq_true_eq] at h
      obtain ⟨rfl, rfl⟩ := h
      exact ⟨o, hr⟩
    next => cases h
  · rintro ⟨o, hr⟩
    simp [hr]

theorem underWay_of_isBack (han : a ≤ n)
    (hall : ((xs.take (n + 1)).drop (a + 1)).all (fun x => !x.isBack t u) = true) :
    UnderWay xs a t (.done u) n := by
  refine ⟨han, fun j x haj hjn hx hret => ?_⟩
  have hin : x ∈ (xs.take (n + 1)).drop (a + 1) := by
    refine List.mem_of_getElem? (i := j - (a + 1)) ?_
    rw [List.getElem?_drop, List.getElem?_take, if_pos (by omega), show a + 1 + (j - (a + 1)) = j by omega]
    exact hx
  have := List.all_eq_true.mp hall x hin
  simp [State.isBack_iff.mpr hret] at this

/-- The first call, which has opened its connection, has it reported and has had the pool open another one, goes under
one id with the task that opens that one; and it leaves no id behind. -/
theorem call_reports_under_one_id_twoCalls :
    Tale twoCalls ∧ twoCalls[4]? = some (pairedUp.2.enter selectOne) ∧
      (pairedUp.2.enter selectOne).running = some ⟨1, .reply, .call selectOne, .done .reply⟩ ∧
      selectOne.Opens (pairedUp.2.enter selectOne) ∧ (pairedUp.2.enter selectOne).context = none ∧
      UnderWay twoCalls 4 1 (.done .reply) 22 ∧ Stems twoCalls (UnderWay twoCalls 4 1 (.done .reply)) 1 3 ∧
      ((reports twoCalls 15 1).length = 1 ∧ ∀ e ∈ reports twoCalls 15 1, e.id = some (.generated 0)) ∧
      ((reports twoCalls 37 3).length = 1 ∧ ∀ e ∈ reports twoCalls 37 3, e.id = some (.generated 0)) ∧
      ∃ y, twoCalls[23]? = some y ∧ y.Returns 1 (.done .reply) ∧ y.context = none := by
  have hway : ∀ n ≤ 22, 4 ≤ n → UnderWay twoCalls 4 1 (.done .reply) n := fun n hn han =>
    ⟨han, fun j x haj hj => (underWay_of_isBack (n := 22) (by decide) (by decide +kernel)).2 j x haj (hj.trans hn)⟩
  have hstems : Stems twoCalls (UnderWay twoCalls 4 1 (.done .reply)) 1 3 :=
    .made (hway 16 (by decide) (by decide)) (by decide +kernel)
  have hopens : selectOne.Opens (pairedUp.2.enter selectOne) := ⟨⟨_, rfl, rfl⟩, _, rfl⟩
  have hnone : (pairedUp.2.enter selectOne).context = none := by decide +kernel
  have hfresh : (pairedUp.2.enter selectOne).fresh = 0 := by decide +kernel
  obtain ⟨hrestores, hone, _⟩ := call_reports_under_one_id twoCalls_tale twoCalls_first rfl (c := selectOne) trivial
  obtain ⟨d, hd, hown, hmade⟩ := hone hopens
  obtain rfl : d = .generated 0 := by
    rcases hd with hd | ⟨_, hd, _⟩
    · cases hnone.symm.trans hd
    · rw [hd, hfresh]
  obtain ⟨y, hy, hret⟩ : ∃ y, twoCalls[23]? = some y ∧ y.isBack 1 .reply = true :=
    (Option.any_eq_true (State.isBack 1 .reply) _).mp (by decide +kernel)
  refine ⟨twoCalls_tale, twoCalls_first, rfl, hopens, hnone, hway 22 le_rfl (by decide), hstems,
    ⟨by decide +kernel, fun e he => hown 15 e (hway 15 (by decide) (by decide)) he⟩,
    ⟨by decide +kernel, fun e he => hmade 3 hstems 37 e he⟩, y, hy, State.isBack_iff.mp hret, ?_⟩
  exact (hrestores 22 y (hway 22 le_rfl (by decide)) hy (State.isBack_iff.mp hret)).trans hnone

end SqliteAccess.Loop
