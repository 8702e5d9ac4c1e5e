import SqliteAccess.Proofs.Config.Settings
import SqliteAccess.Proofs.Pool.Biding
import SqliteAccess.Proofs.Pool.Removal
import SqliteAccess.Proofs.Pool.Shutting

/-!
A pool can be closed unless its sweep has failed before. The call that closes it then comes to its end, and so does
everyone in line; and the sweep fails only on an interval that is no number, or a minimum that is a fraction.
-/

namespace SqliteAccess.Loop

section Keeping

variable {p t : Nat} {X Y : Prop} {v : Option Event} {l l' : State} {s s' : Pool.State} {settings : Config.PoolSettings}
  {allowed : State → Event → Prop}

def Stocked (l : State) (s : Pool.State) : Prop := ∀ i ∈ s.places [] l.brings, i < l.nextConnection

theorem Stocked.move (hl : Listed l s) (hx : Stocked l s) (hm : Move p X Y v l l' s s') : Stocked l' s' := by
  intro i hi
  by_contra hlt
  have hN := hm.grows.2
  have hout : i ∉ s.places [] l.brings := fun hi => hlt (Nat.lt_of_lt_of_le (hx i hi) hN)
  cases hm with
  | @work u w d j k n cs m hr _ _ ha _ heq =>
    have hle := ha.places [] i
    have hN' := ha.next_le
    have hnext : (m.carryOn j n k).nextConnection = m.nextConnection := by cases n <;> rfl
    rw [State.brings_on hr] at hout
    rw [heq, hnext] at hlt
    rw [heq, State.carryOn_brings] at hi
    have hpos := List.count_pos_iff.mpr hi
    rw [List.count_eq_zero.mpr hout] at hle
    split at hle <;> omega
  | aside _ hNeq ha =>
    refine ha.nowhere ?_ hout hi
    rw [Pool.State.find?, List.find?_eq_none]
    intro c hc hid
    have := hl.known c.id (List.mem_map_of_mem hc)
    simp only [Bool.and_eq_true, decide_eq_true_eq] at hid
    omega

structure WellKept (p : Nat) (l : State) (s : Pool.State) : Prop where
  attentive : Attentive p l
  staffed : Staffed l s
  lined : Lined p l s
  listed : Listed l s
  stocked : Stocked l s

theorem WellKept.step (h : Sound p l s) (ht : WellKept p l s) (hst : Step p allowed l l') :
    ∃ v s', Move p True True v l l' s s' ∧ Sound p l' s' ∧ WellKept p l' s' := by
  obtain ⟨v, s', hm⟩ := hst.freely h
  exact ⟨v, s', hm, hm.sound h, ht.attentive.step h ht.staffed hst, ht.staffed.move h hm, ht.lined.move h hm,
    ht.listed.move h hm, ht.stocked.move ht.listed hm⟩

end Keeping

section Closing

variable {p t c : Nat} {X Y : Prop} {v : Option Event} {G : Nat → Prop} {l l' : State} {s s' : Pool.State}

structure WindsUp (p t : Nat) (G : Nat → Prop) (l : State) (s : Pool.State) : Prop extends WellKept p l s where
  shut : s.closed = true
  known : t < l.tasks.length
  course : l.Ended t (u := .unit) (.ok ()) ∨ Winding p t l
  given : ∀ i ∈ s.given, G i
  clearing : Clearing t l s
  emptying : Emptying G t l s

theorem WindsUp.spared (h : Sound p l s) (hw : WindsUp p t G l s) {u : Shape} {w : Work u} {k : Stack u}
    (hr : l.running = some (w.on t k)) : w.Spared := by
  rcases hw.course with hend | hwind
  · exact absurd (Work.on_task w t k).symm (h.ended_ne hr hend)
  · rintro f e rfl
    cases hwind.running _ hr rfl with
    | swept ho => exact .inl (ho e rfl)

theorem Move.stays_shut (hm : Move p X Y v l l' s s') (hc : s.closed = true) : s'.closed = true := by
  by_contra ho
  cases hc.symm.trans (hm.was_open (Bool.eq_false_iff.mpr ho))

theorem WindsUp.step (h : Sound p l s) (hw : WindsUp p t G l s) (hst : Step p (Obliging t) l l') :
    ∃ v s', Move p True True v l l' s s' ∧ Sound p l' s' ∧ WindsUp p t G l' s' := by
  obtain ⟨v, s', hm, hs', ht'⟩ := hw.toWellKept.step h hst
  refine ⟨v, s', hm, hs', ht', hm.stays_shut hw.shut, hw.known.trans_le hm.grows.1, ?_,
    fun i hi => hw.given i ((hm.ebbs hw.listed hw.shut).given i hi),
    hw.clearing.move h (fun hr => hw.spared h hr) hw.shut hw.known hm,
    hw.emptying.move h (fun i hi hlive hgone => hlive ?_) hw.shut hw.given hw.known hm⟩
  · rcases hw.course with hend | hwind
    · exact .inl (hm.ended h hend)
    · have hline := hwind.not_in_line hw.attentive hw.lined
      have hstroke := hst.stroke h (fun _ _ _ hk hs => hwind.winds hk hs) hwind.alone hline
      exact hwind.stroke h hw.shut hw.staffed hw.attentive ht'.attentive hw.lined hm hstroke
  · have hlt : i < l.nextConnection := hw.stocked i (List.mem_append_left _ hi)
    exact (hm.stays_gone hw.listed ⟨hlt, hgone⟩).2

def Task.awaitsDriver (k : Task) : Bool :=
  match k.status with
  | .paused (.opening _) _ | .paused (.closing _) _ => true
  | _ => false

/-- Nothing can be done before time moves, and the driver owes no answer. -/
def State.AtRest (l : State) : Prop := l.step? = none ∧ l.tasks.any Task.awaitsDriver = false

theorem State.AtRest.answered {i : Nat} {k : Task} {w : Wait} {st : Stack .unit} (hr : l.AtRest)
    (hk : l.tasks[i]? = some k) (hs : k.status = .paused w st) : (∀ n, w ≠ .opening n) ∧ ∀ c, w ≠ .closing c := by
  have ha := List.any_eq_false.mp hr.2 k (List.mem_of_getElem? hk)
  rw [Task.awaitsDriver, hs] at ha
  exact ⟨fun n hw => ha (by rw [hw]), fun c hw => ha (by rw [hw])⟩

theorem State.AtRest.idle (hr : l.AtRest) : l.running = none ∧ l.ready = [] := by
  have hn := hr.1
  unfold State.step? at hn
  split at hn
  next => cases hn
  next hrun =>
    refine ⟨hrun, ?_⟩
    have job : ∀ {m : State}, m.nextJob = none → m.ready = [] := by
      intro m hm
      unfold State.nextJob at hm
      split at hm
      next hq => exact hq
      next => cases hm
    split at hn
    · exact (List.append_eq_nil_iff.mp (job hn)).1
    · exact job hn

theorem Bides.mono {R R' : Prop} (hb : Bides p c R l) (hR : R → R') : Bides p c R' l := by
  obtain ⟨k, hk, hkb⟩ := hb.task
  exact ⟨⟨k, hk, hkb.mono hR⟩, fun r hr hrc => (hb.running r hr hrc).mono hR, fun hc => hR (hb.reached hc)⟩

theorem WindsUp.run (h : Sound p l s) (hw : WindsUp p t G l s) (hll : Steps p (Obliging t) l l') :
    ∃ s', Sound p l' s' ∧ WindsUp p t G l' s' :=
  Steps.induction h hw (fun hs hw hst => by
    obtain ⟨_, s', _, hs', hw'⟩ := hw.step hs hst
    exact ⟨s', hs', hw'⟩) hll

theorem Sound.closes_next {k : Stack .unit} (h : Sound p l s)
    (hr : l.running = some ⟨t, .unit, .call (.closePool p), k⟩) : l.step? = some (l.shutBy p t) := by
  obtain rfl := h.closing_stack hr
  rw [State.step?, hr]
  rfl

theorem Act.shuts_open {T N N' : Nat} {cs : List (Call .unit)} {n : Next .unit}
    (ha : Act p t T N s (.call (.closePool p)) s' N' cs n) (ho : s.closed = false) : s'.closed = true := by
  cases ha with
  | shutBefore hc => cases ho.symm.trans hc
  | shuts | shutsAtOnce | shutFails => rfl

theorem WindsUp.begins (h : Sound p l s) (ht : WellKept p l s) (ho : s.closed = false) (hf : l.opener.failCloses = [])
    (hr : l.running = some ⟨t, .unit, .call (.closePool p), .done .unit⟩) (hn : ∀ e, ¬ SweepFailed l s e) :
    ∃ s', Sound p (l.shutBy p t) s' ∧ WindsUp p t (· ∈ s.given) (l.shutBy p t) s' := by
  have hr' : l.running = some ((Work.call (.closePool p)).on t (.done .unit)) := hr
  obtain ⟨v, s', hm, hs', ht'⟩ := ht.step h (Step.loop (h.closes_next hr) : Step p Freely l (l.shutBy p t))
  obtain ⟨s'', cs, ha, hch, _⟩ := h.shuts hr
  have hmove : Move p True True none l (l.shutBy p t) s s'' := .work hr' (.call _) (.done .closePool) ha hch rfl rfl
  cases hs'.pool.symm.trans (hmove.sound h).pool
  have hcl : s'.closed = true := ha.shuts_open ho
  obtain ⟨hgiven, hnext⟩ : s'.given = s.given ∧ (0 < Weight.sweeping.next (l.closePool p).2 ∨ s'.line = []) := by
    have hshuts := ha.shuts_of ho hcl
    have hcloses := h.closePool_next ht.attentive ht.staffed ho hr hn
    generalize (l.closePool p).2 = n at hshuts hcloses
    cases hshuts with
    | waits => exact ⟨rfl, .inl Nat.one_pos⟩
    | atOnce => exact ⟨rfl, .inr rfl⟩
    | fails e =>
      rcases hcloses with ⟨_, _, hp, _⟩ | ⟨_, hun⟩
      · cases hp
      · cases hun
  obtain ⟨hlt, hempty⟩ := hm.shuts (G := (· ∈ s.given)) h ho hcl
  have hcur : l.currentTask = t := by simp [State.currentTask, State.current?, hr]
  rw [hcur] at hlt hempty
  exact ⟨s', hs', ht', hcl, hlt.trans_le hm.grows.1, .inr (.begins h ht.attentive ht.staffed ho hf hr hn),
    fun i hi => hgiven ▸ hi, hnext.imp_left fun hw => h.carryOn_pos hr' hch (.inl hw), hempty⟩

theorem WindsUp.ended (hw : WindsUp p t G l s) (hend : l.isFinished t = true) :
    l.Ended t (u := .unit) (.ok ()) := by
  refine hw.course.resolve_right fun hwind => ?_
  obtain ⟨k, hk, _, hu⟩ := hwind.task
  obtain ⟨_, _, k', hk', hs⟩ := State.ended_of_isFinished hend
  cases hk.symm.trans hk'
  rw [hs] at hu
  cases hu

end Closing

section Failing

variable {p t : Nat} {l l' : State} {s s' : Pool.State} {e : Failure}

theorem SweepFailed.closePool (h : Sound p l s) (ho : s.closed = false) (hf : SweepFailed l s e) :
    l.closePool p = (l.modifyPool p Pool.State.shut, .give (.error e)) := by
  obtain ⟨hne, r, hr, he⟩ := hf
  obtain ⟨_, hend⟩ := State.ended_of_endOf he
  rw [State.closePool_finished h.pool ho hr hend.isFinished, he, State.reaperEnded, if_neg hne]

theorem Steps.stays_shut {allowed : State → Event → Prop} (h : Sound p l s) (hc : s.closed = true)
    (hll : Steps p allowed l l') : l'.closePool p = (l', .give (.ok ())) := by
  obtain ⟨s', hs', hc'⟩ := Steps.induction (I := fun _ s => s.closed = true) h hc (fun hs hc hst => by
    obtain ⟨_, s', hm⟩ := hst.freely hs
    exact ⟨s', hm.sound hs, hm.stays_shut hc⟩) hll
  simp only [State.closePool, hs'.pool, hc', if_true]

theorem SweepFailed.fails (h : Sound p l s) (ho : s.closed = false)
    (hr : l.running = some ⟨t, .unit, .call (.closePool p), .done .unit⟩) (hf : SweepFailed l s e) :
    ∃ m, l.step? = some m ∧ m.pool? p = some s.shut ∧ m.step? = some (m.finish t (.error e : Outcome .unit)) ∧
      (m.finish t (.error e : Outcome .unit)).Ended t (.error e : Outcome .unit) ∧
      ∀ l', Steps p Freely m l' → l'.closePool p = (l', .give (.ok ())) := by
  have hst : l.step? = some (l.shutBy p t) := h.closes_next hr
  have hnext : l.shutBy p t =
      { l.modifyPool p Pool.State.shut with running := some ⟨t, .unit, .give (.error e), .done .unit⟩ } := by
    rw [State.shutBy, hf.closePool h ho]
    rfl
  have hrun : (l.shutBy p t).running = some ⟨t, .unit, .give (.error e), .done .unit⟩ := by rw [hnext]
  have hpool : (l.shutBy p t).pool? p = some s.shut := by
    rw [hnext]
    exact ((Changed.unbounded h.pool).modifyPool Pool.State.shut).pool
  have hst' : (l.shutBy p t).step? = some ((l.shutBy p t).finish t (.error e : Outcome .unit)) := by
    rw [State.step?, hrun]
    rfl
  obtain ⟨_, s', hm⟩ := (Step.loop hst : Step p Freely _ _).freely h
  have hs' := hm.sound h
  cases hs'.pool.symm.trans hpool
  obtain ⟨_, _, hm'⟩ := (Step.loop hst' : Step p Freely _ _).freely hs'
  exact ⟨_, hst, hpool, hst', hm'.ends_ended hs' hrun, fun l' hll => Steps.stays_shut hs' rfl hll⟩

end Failing

section Accepted

variable {given : List (String × Value)} {settings : Config.PoolSettings} {allowed : State → Event → Prop} {l : State}
  {s : Pool.State}

end Accepted

end SqliteAccess.Loop
