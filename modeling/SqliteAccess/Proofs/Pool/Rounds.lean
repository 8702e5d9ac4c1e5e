import SqliteAccess.Proofs.Pool.Closing

/-!
Rounds of eviction. A round takes down what has expired when it begins and removes it bit by bit. While
it waits for the driver to close one connection, callers come and go, and other rounds go on.
-/

namespace SqliteAccess.Loop

/-- A pool in use, and the scenes that it has come through, the latest first. -/
inductive Trace (settings : Config.PoolSettings) : List Scene → Scene → Prop
  | start : Trace settings [] ⟨.ofPool settings, []⟩
  | step {past : List Scene} {x y : Scene} : Trace settings past x →
      Scene.Step Session.Pooling.number x y → Trace settings (x :: past) y

namespace State

def opensRound (t : Nat) (l : State) : Bool :=
  match l.running with
  | some ⟨t', _, .call (.evict _), _⟩ => t' = t
  | _ => false

/-- The connection that the round of the task is about to remove. -/
def evicts? (t : Nat) (l : State) : Option Nat :=
  match l.running with
  | some ⟨t', _, .call (.destroy _ i), .push (.evicting _ _ _) _⟩ => if t' = t then some i else none
  | _ => none

def expired (l : State) (p : Nat) : List Nat :=
  match l.pool? p with
  | none => []
  | some s =>
    match Config.seconds s.settings.idleTimeoutMs with
    | .error _ => []
    | .ok timeout => s.expired l.clock timeout

end State

/-- The scene in which the latest round of the task began. -/
def roundOf? (t : Nat) (past : List Scene) : Option Scene := past.find? fun x => x.loop.opensRound t

/-- The scenes since then, the latest first. -/
def sinceRound (t : Nat) (past : List Scene) : List Scene :=
  past.takeWhile fun x => !x.loop.opensRound t

/-- What that round has removed. -/
def evicted (t : Nat) (past : List Scene) : List Nat :=
  (sinceRound t past).filterMap fun x => x.loop.evicts? t

def due (p t : Nat) (past : List Scene) : List Nat :=
  ((roundOf? t past).map fun x => x.loop.expired p).getD []

section Histories

variable {p t : Nat} {x : Scene} {past : List Scene}

theorem evicted_opens (h : x.loop.opensRound t = true) : evicted t (x :: past) = [] := by
  simp [evicted, sinceRound, h]

theorem due_opens (h : x.loop.opensRound t = true) : due p t (x :: past) = x.loop.expired p := by
  simp [due, roundOf?, h]

theorem due_cons (h : x.loop.opensRound t = false) : due p t (x :: past) = due p t past := by
  simp [due, roundOf?, h]

theorem evicted_removes {i : Nat} (h : x.loop.opensRound t = false) (hi : x.loop.evicts? t = some i) :
    evicted t (x :: past) = i :: evicted t past := by
  simp [evicted, sinceRound, h, hi]

theorem evicted_cons (h : x.loop.opensRound t = false) (hi : x.loop.evicts? t = none) :
    evicted t (x :: past) = evicted t past := by
  simp [evicted, sinceRound, h, hi]

end Histories

inductive Proceeds (p : Nat) (s : Pool.State) (n : Nat) (ids : List Nat) : Next .count → Prop
  | removes {i : Nat} {rest : List Nat} : i :: rest ⊆ ids → i ∈ s.idle → s.hasSpare = true →
      Proceeds p s n ids (.call (.destroy p i) (.evicting p rest n))
  | ends : Proceeds p s n ids (.give (.ok n))

theorem Proceeds.mono {p n : Nat} {s : Pool.State} {ids ids' : List Nat} {k : Next .count}
    (h : Proceeds p s n ids k) (hs : ids ⊆ ids') : Proceeds p s n ids' k := by
  cases h with
  | removes hsub hi hspare => exact .removes (List.Subset.trans hsub hs) hi hspare
  | ends => exact .ends

theorem State.evictFrom_proceeds (l : State) (p : Nat) (s : Pool.State) (n : Nat) (ids : List Nat) :
    Proceeds p s n ids (l.evictFrom p s n ids).2 := by
  have ends : ∀ ids, Proceeds p s n ids (l.endEviction n).2 := by
    intro ids
    unfold State.endEviction
    split <;> exact .ends
  induction ids with
  | nil => exact ends []
  | cons i ids ih =>
    unfold State.evictFrom
    split
    next hi =>
      split
      next hs => exact .removes (List.Subset.refl _) (by simpa using hi) hs
      next => exact ends _
    next => exact ih.mono (List.subset_cons_self i ids)

inductive Evicts (p : Nat) (l : State) (s : Pool.State) : Work .count → Next .count → Prop
  | comes : Evicts p l s (.back (.start (.evict p)) (.ok ())) (.jump (.evict p))
  | begins {n : Next .count} : Proceeds p s 0 (l.expired p) n → Evicts p l s (.call (.evict p)) n
  | proceeds {rest : List Nat} {k : Nat} {n : Next .count} : Proceeds p s (k + 1) rest n →
      Evicts p l s (.back (.evicting p rest k) (.ok ())) n
  | fails {w : Work .count} (e : Failure) : Evicts p l s w (.give (.error e))

section Evicting

variable {p t i : Nat} {l l' : State} {s s' : Pool.State} {u : Shape}

theorem Work.evicts {w : Work .count} {d : Call .count} {k : Stack .count} (h : l.pool? p = some s)
    (hd : w.Of p d) (hk : k.Holds p d) : Evicts p l s w (w.perform l).2 := by
  cases hd with
  | call =>
    have he : d = .evict p := by
      cases hk with
      | done hr =>
        cases hr
        rfl
      | push ha _ _ =>
        cases ha
        rfl
    subst he
    simp only [Work.perform, begin, State.evict, h]
    cases hc : Config.seconds s.settings.idleTimeoutMs with
    | error e => exact .fails e
    | ok d =>
      refine .begins ?_
      simp only [State.expired, h, hc]
      exact l.evictFrom_proceeds p s 0 _
  | back o hf =>
    cases hf with
    | start hr =>
      cases hr
      cases o with
      | error e => exact .fails e
      | ok => exact .comes
    | evicting rest n =>
      cases o with
      | error e => exact .fails e
      | ok =>
        refine .proceeds ?_
        simp only [Work.perform, resume, State.evicting, h]
        exact l.evictFrom_proceeds p s (n + 1) rest

def Weight.astray (due : List Nat) (n : Nat) : Weight where
  call _ := 0
  rest
    | .evicting _ rest k => if rest ⊆ due ∧ k + 1 = n then 0 else 1
    | _ => 0

@[simp] theorem Weight.astray_evicting {due rest : List Nat} {n k : Nat} :
    (Weight.astray due n).frame (.evicting p rest k) = 0 ↔ rest ⊆ due ∧ k + 1 = n := by
  simp [Weight.astray, Weight.frame]

theorem Weight.astray_frame {due : List Nat} {n : Nat} {v : Shape} (hu : u ≠ .count) (f : Frame v u) :
    (Weight.astray due n).frame f = 0 := by
  cases f with
  | evicting => exact absurd rfl hu
  | _ => rfl

theorem Weight.astray_next {due : List Nat} {k : Nat} (hu : u ≠ .count) (n : Next u) :
    (Weight.astray due k).next n = 0 := by
  cases n with
  | give | jump => rfl
  | call c f => exact (Nat.zero_add _).trans (Weight.astray_frame hu f)
  | pause _ f | again f => exact Weight.astray_frame hu f

theorem Stack.Holds.astray {due : List Nat} {n : Nat} {k : Stack .count} {q : Nat}
    (h : k.Holds p (.evict q)) : (Weight.astray due n).stack k = 0 := by
  cases h with
  | done => rfl
  | push ha hf hk =>
    cases ha
    cases hf
    cases hk with
    | done => rfl
    | push ha => cases ha

theorem State.opensRound_eq (h : l.opensRound t = true) :
    ∃ q k, l.running = some ((Work.call (.evict q)).on t k) := by
  unfold State.opensRound at h
  split at h
  next _ t' q k hr =>
    obtain rfl : t' = t := by simpa using h
    exact ⟨q, k, hr⟩
  next => cases h

theorem State.evicts?_eq (h : l.evicts? t = some i) : ∃ q q' rest n k,
    l.running = some ⟨t, .unit, .call (.destroy q i), .push (.evicting q' rest n) k⟩ := by
  unfold State.evicts? at h
  split at h
  next _ t' q i' q' rest n k hr =>
    split at h
    next ht =>
      cases h
      exact ⟨q, q', rest, n, k, ht ▸ hr⟩
    next => cases h
  next => cases h

theorem State.evicts?_of_running {q q' n : Nat} {rest : List Nat} {k : Stack .count}
    (h : l.running = some ⟨t, .unit, .call (.destroy q i), .push (.evicting q' rest n) k⟩) :
    l.evicts? t = some i := by
  simp [State.evicts?, h]

theorem Sound.opens_astray {due : List Nat} {n : Nat} (h : Sound p l s)
    (ho : l.opensRound t = true) : (Weight.astray due n).of l t = 0 := by
  obtain ⟨q, k, hr⟩ := State.opensRound_eq ho
  have hk : k.Holds p (.evict q) := (h.running _ hr).1
  rw [h.of_on hr, hk.astray]
  rfl

end Evicting

section Moves

variable {p t i : Nat} {X Y : Prop} {v : Option Event} {l l' : State} {s s' : Pool.State}

def State.AtRound (p t : Nat) (l : State) : Prop :=
  ∃ (w : Work .count) (d : Call .count) (k : Stack .count),
    l.running = some (w.on t k) ∧ w.Of p d ∧ k.Holds p d

def State.StartsAlone (l : State) : Prop :=
  ∀ {u : Shape} (c : Call u) (o : Outcome .unit) (t : Nat) (k : Stack u),
    l.running = some ((Work.back (.start c) o).on t k) → k = .done u

theorem Aside.running_eq (ha : Aside p X Y v l l' s s') : l'.running = none ∨
    (∃ t o k, l'.running = some ⟨t, .unit, .give o, k⟩) ∨
      ∃ t u c, l'.running = some ⟨t, u, .call c, .done u⟩ := by
  cases ha with
  | ends _ _ hc => exact .inl hc.running
  | goesOn _ _ _ hr => exact .inr (.inl ⟨_, _, _, hr⟩)
  | lull hn _ hc | releases _ hn _ _ hc | discards hn _ _ hc => exact .inl (hc.running.trans hn)
  | enters _ _ hr => exact .inr (.inr ⟨_, _, _, hr⟩)
  | spawns _ _ hr => exact .inl hr

theorem Act.jumps {T N N' : Nat} {w : Work .unit} {cs : List (Call .unit)} {c : Call .unit}
    (h : Act p t T N s w s' N' cs (.jump c)) :
    (∃ o, w = .back (.start c) o) ∨ ∃ o, w = .back (.openedBackground p) o := by
  have drains : ∀ {q rest n}, Drains p q rest n → Next.jump c ≠ n := by
    intro q rest n hd hn
    cases hd <;> cases hn
  generalize hn : Next.jump c = n at h
  cases h
  case started =>
    cases hn
    exact .inl ⟨_, rfl⟩
  case backgroundLate => exact .inr ⟨_, rfl⟩
  case reaps hr => cases hr <;> cases hn
  case sweptOver hr => cases hr <;> cases hn
  case shutsAtOnce hd => exact absurd hn (drains hd)
  case clears hd => exact absurd hn (drains hd)
  case drains hd => exact absurd hn (drains hd)
  all_goals cases hn

theorem Move.starts_alone (h : Sound p l s) (hm : Move p X Y v l l' s s') : l'.StartsAlone := by
  intro u c o t k hr'
  cases hm with
  | @work u' w d t' k' n cs m hr hd hk ha hch heq =>
    subst heq
    cases n with
    | give o =>
      cases hr'
      cases hk with
      | push ha _ _ => cases ha
    | call | jump | pause | again => cases hr'
  | aside _ _ ha =>
    cases ha with
    | @goesOn t' signal st x hn hx hs hr =>
      cases hr.symm.trans hr'
      have hf := h.tasks _ _ hx
      rw [hs] at hf
      cases hf with
      | made => rfl
      | ready _ hp => cases hp
    | ends _ _ hc => cases hc.running.symm.trans hr'
    | lull hn _ hc | releases _ hn _ _ hc | discards hn _ _ hc =>
      cases hn.symm.trans (hc.running.symm.trans hr')
    | enters _ _ hr => cases hr.symm.trans hr'
    | spawns _ _ hr => cases hr.symm.trans hr'

theorem Move.evicts_of (hal : l.StartsAlone) (hm : Move p X Y v l l' s s')
    (he : l'.evicts? t = some i) : l.AtRound p t := by
  obtain ⟨q, q', rest, j, st, hr'⟩ := State.evicts?_eq he
  cases hm with
  | @work u w d t' k n cs m hr hd hk ha hch heq =>
    subst heq
    cases n with
    | give | pause | again => cases hr'
    | call c f =>
      cases hr'
      exact ⟨w, d, st, hr, hd, hk⟩
    | jump c =>
      cases hr'
      rcases ha.jumps with ⟨o, rfl⟩ | ⟨o, rfl⟩
      · cases hal _ _ _ _ hr
      · cases hd with
        | back _ hf =>
          cases hf
          cases hk with
          | push ha _ _ => cases ha
  | aside _ _ ha =>
    rcases ha.running_eq with hr | ⟨_, _, _, hr⟩ | ⟨_, _, _, hr⟩ <;> cases hr.symm.trans hr'

theorem Move.told_of (hm : Move p X Y v l l' s s') {o : Outcome .count} {st : Stack .count}
    (hr' : l'.running = some ⟨t, .count, .give o, st⟩) : l.AtRound p t := by
  cases hm with
  | @work u w d t' k n cs m hr hd hk ha hch heq =>
    subst heq
    cases n with
    | give =>
      cases hr'
      exact ⟨w, d, st, hr, hd, hk⟩
    | call | jump | pause | again => cases hr'
  | aside _ _ ha =>
    rcases ha.running_eq with hr | ⟨_, _, _, hr⟩ | ⟨_, _, _, hr⟩ <;> cases hr.symm.trans hr'

theorem Move.astray {due : List Nat} {j : Nat} (h : Sound p l s) (hm : Move p X Y v l l' s s')
    (hno : ¬ l.AtRound p t) (h0 : (Weight.astray due j).of l t = 0) :
    (Weight.astray due j).of l' t = 0 := by
  have h' := hm.sound h
  by_cases hlate : l'.tasks.length ≤ t
  · exact Weight.of_eq_zero (fun _ hr => h'.running_lt hr) hlate
  cases hm with
  | @work u w d t' k n cs m hr hd hk ha hch heq =>
    subst heq
    obtain ⟨hwt, hwi, hwj⟩ := h.work_weight (W := .astray due j) (n := n) hr hch
    rw [State.carryOn_length, hch.length] at hlate
    by_cases hlt : t < l.tasks.length
    · by_cases htt : t = t'
      · subst htt
        have hu : u ≠ .count := by
          rintro rfl
          exact hno ⟨w, d, k, hr, hd, hk⟩
        rw [Weight.astray_next hu] at hwt
        omega
      · rw [hwi t hlt htt, h0]
    · obtain ⟨e, rfl⟩ := Nat.exists_eq_add_of_le (Nat.le_of_not_lt hlt)
      exact hwj e (by omega)
  | aside _ _ ha =>
    by_cases hlt : t < l.tasks.length
    · rw [ha.weight_of h hlt, h0]
    · obtain ⟨_, u, c, _, _, _, hw⟩ :=
        ha.weight_new (W := .astray due j) (Nat.le_of_not_lt hlt) (Nat.lt_of_not_le hlate)
      exact hw

theorem Move.stays_gone (hl : Listed l s) (hm : Move p X Y v l l' s s')
    (hi : s.Gone l.nextConnection i) : s'.Gone l'.nextConnection i := by
  cases hm with
  | @work u w d t k n cs m hr hd hk ha hch heq =>
    have hn : l'.nextConnection = m.nextConnection := by
      rw [heq]
      cases n <;> rfl
    rw [hn]
    exact ha.stays_gone hl.known hi
  | aside _ hn ha =>
    rw [hn]
    exact ⟨hi.1, ha.stays_gone hi.2⟩

theorem Act.destroys {q T N N' : Nat} {cs : List (Call .unit)} {n : Next .unit}
    (h : Act p t T N s (.call (.destroy q i)) s' N' cs n) :
    s.find? i = none ∧ s' = s ∨ (∃ c, s.find? i = some c) ∧ s' = s.without i := by
  cases h with
  | gone hn => exact .inl ⟨Pool.State.remove?_none hn, rfl⟩
  | removes hs => exact .inr (Pool.State.remove?_eq hs)

theorem Move.destroys {q : Nat} {st : Stack .unit} (hm : Move p X Y v l l' s s')
    (hr : l.running = some ⟨t, .unit, .call (.destroy q i), st⟩) :
    s.find? i = none ∧ s' = s ∨ (∃ c, s.find? i = some c) ∧ s' = s.without i := by
  cases hm with
  | @work u w d t k n cs m hr' hd hk ha hch heq =>
    rw [hr] at hr'
    cases w with
    | back f o => cases hr'
    | call c =>
      cases hr'
      exact ha.destroys
  | aside _ _ ha =>
    cases ha with
    | ends _ hr' => cases hr.symm.trans hr'
    | goesOn hn | lull hn | enters _ hn | spawns _ hn | releases _ hn | discards hn =>
      cases hn.symm.trans hr

theorem Move.destroys_gone {q : Nat} {st : Stack .unit} {c : Pool.Connection} (hl : Listed l s)
    (hm : Move p X Y v l l' s s') (hr : l.running = some ⟨t, .unit, .call (.destroy q i), st⟩)
    (hc : s.find? i = some c) : s'.Gone l'.nextConnection i := by
  have hlt : i < l.nextConnection := Pool.State.UsedAs.lt hl.known ⟨c, hc, rfl⟩
  refine ⟨hlt.trans_le hm.grows.2, ?_⟩
  rcases hm.destroys hr with ⟨hn, _⟩ | ⟨_, rfl⟩
  · cases hn.symm.trans hc
  · rw [Pool.State.find?_without, if_pos rfl]

end Moves

section Steps

variable {p t i : Nat} {X Y : Prop} {v : Option Event} {x y : Scene} {past : List Scene}
  {s s' : Pool.State}

theorem Act.evicting {T N N' : Nat} {w : Work .count} {cs : List (Call .unit)} {n : Next .count}
    (h : Act p t T N s w s' N' cs n) : s' = s := by
  cases h <;> rfl

theorem Scene.Step.evicts {w : Work .count} {d : Call .count} {k : Stack .count}
    (h : Sound p x.loop s) (hst : Scene.Step p x y) (hr : x.loop.running = some (w.on t k))
    (hd : w.Of p d) (hk : k.Holds p d) :
    ∃ n, Evicts p x.loop s w n ∧ y.loop.running = (x.loop.carryOn t n k).running ∧
      y.loop.pool? p = some s ∧ ∀ W : Weight, W.of y.loop t = W.next n + W.stack k := by
  have hl : y.loop = x.loop.advance (w.on t k) := by
    cases hst with
    | loop hl => simpa [State.step?, hr] using hl.symm
    | event _ hn | release hn | destroy hn => cases hn.symm.trans hr
  rw [State.advance_on] at hl
  obtain ⟨s', cs, ha, hch⟩ := h.performs hr hd hk
  have he := ha.evicting
  subst he
  refine ⟨_, Work.evicts h.pool hd hk, ?_, ?_, fun W => ?_⟩
  · rw [hl]
    cases (w.perform x.loop).2 <;> rfl
  · rw [hl, State.carryOn_pool]
    exact hch.pool
  · have hw := (h.work_weight (W := W) (n := (w.perform x.loop).2) hr hch).1
    rw [← hl, h.of_on hr] at hw
    omega

structure Rounds (p : Nat) (past : List Scene) (x : Scene) (s : Pool.State) : Prop where
  alone : x.loop.StartsAlone
  gone : ∀ t, (evicted t past).Nodup ∧ ∀ i ∈ evicted t past, s.Gone x.loop.nextConnection i
  tallied : ∀ t, (Weight.astray (due p t (x :: past)) (evicted t (x :: past)).length).of x.loop t = 0
  next : ∀ t i, x.loop.evicts? t = some i → i ∈ due p t past ∧ i ∈ s.idle ∧ s.hasSpare = true
  told : ∀ t n k, x.loop.running = some ⟨t, .count, .give (.ok n), k⟩ → (evicted t past).length = n

theorem Rounds.proceeds {w : Work .count} {n : Next .count} {k : Stack .count}
    (h : Sound p x.loop s) (hr : Rounds p past x s) (hw : x.loop.running = some (w.on t k))
    (he : Evicts p x.loop s w n) :
    n = .jump (.evict p) ∨ (∃ e, n = .give (.error e)) ∨
      Proceeds p s (evicted t (x :: past)).length (due p t (x :: past)) n := by
  cases he with
  | comes => exact .inl rfl
  | fails e => exact .inr (.inl ⟨e, rfl⟩)
  | begins hp =>
    have ho : x.loop.opensRound t = true := by simp [State.opensRound, hw, Work.on]
    rw [evicted_opens ho, due_opens ho]
    exact .inr (.inr hp)
  | @proceeds rest m _ hp =>
    have h0 := hr.tallied t
    rw [h.of_on hw] at h0
    have hwork : (Weight.astray (due p t (x :: past)) (evicted t (x :: past)).length).frame
        (.evicting p rest m) = 0 := Nat.eq_zero_of_add_eq_zero_right h0
    obtain ⟨hsub, hm⟩ := Weight.astray_evicting.mp hwork
    rw [hm] at hp
    exact .inr (.inr (hp.mono hsub))

theorem Rounds.gone_step (hl : Listed x.loop s) (hlive : ∀ i ∈ s.idle, s.find? i ≠ none)
    (hr : Rounds p past x s) (hm : Move p X Y v x.loop y.loop s s') (t : Nat) :
    (evicted t (x :: past)).Nodup ∧
      ∀ i ∈ evicted t (x :: past), s'.Gone y.loop.nextConnection i := by
  cases ho : x.loop.opensRound t with
  | true => simp [evicted_opens ho]
  | false =>
    obtain ⟨hn, hg⟩ := hr.gone t
    cases he : x.loop.evicts? t with
    | none =>
      rw [evicted_cons ho he]
      exact ⟨hn, fun i hi => hm.stays_gone hl (hg i hi)⟩
    | some i =>
      rw [evicted_removes ho he]
      have hi := hlive i (hr.next t i he).2.1
      obtain ⟨c, hc⟩ := Option.ne_none_iff_exists'.mp hi
      obtain ⟨_, _, _, _, _, hrun⟩ := State.evicts?_eq he
      refine ⟨List.nodup_cons.mpr ⟨fun hm => hi (hg i hm).2, hn⟩, ?_⟩
      intro j hj
      rcases List.mem_cons.mp hj with rfl | hj
      · exact hm.destroys_gone hl hrun hc
      · exact hm.stays_gone hl (hg j hj)

theorem Rounds.step (h : Sound p x.loop s) (hl : Listed x.loop s)
    (hlive : ∀ i ∈ s.idle, s.find? i ≠ none) (hr : Rounds p past x s) (hst : Scene.Step p x y)
    (hm : Move p X Y v x.loop y.loop s s') : Rounds p (x :: past) y s' := by
  have h' := hm.sound h
  -- What a step of the round of a task leads to, if there is one.
  have round : ∀ {t}, x.loop.AtRound p t → ∃ n k, (n = .jump (.evict p) ∨
      (∃ e, n = .give (.error e)) ∨
        Proceeds p s (evicted t (x :: past)).length (due p t (x :: past)) n) ∧
      y.loop.running = (x.loop.carryOn t n k).running ∧ y.loop.pool? p = some s ∧
      ∀ due j, (Weight.astray due j).of y.loop t = (Weight.astray due j).next n := by
    rintro t ⟨w, d, k, hw, hd, hk⟩
    obtain ⟨n, he, hrun, hpool, hof⟩ := hst.evicts h hw hd hk
    refine ⟨n, k, hr.proceeds h hw he, hrun, hpool, fun due j => ?_⟩
    cases d with
    | evict q => rw [hof, hk.astray, Nat.add_zero]
  refine ⟨hm.starts_alone h, hr.gone_step hl hlive hm, fun t => ?_, fun t i he => ?_,
    fun t n k hrun => ?_⟩
  · cases ho : y.loop.opensRound t with
    | true => exact h'.opens_astray ho
    | false =>
      rw [due_cons ho]
      by_cases hat : x.loop.AtRound p t
      · obtain ⟨n, k, hn, hrun, -, hof⟩ := round hat
        rw [hof]
        rcases hn with rfl | ⟨e, rfl⟩ | hn
        · rfl
        · rfl
        · cases hn with
          | ends => rfl
          | @removes i rest hsub _ _ =>
            have he : y.loop.evicts? t = some i := State.evicts?_of_running hrun
            rw [evicted_removes ho he]
            exact (Nat.zero_add _).trans
              (Weight.astray_evicting.mpr ⟨(List.cons_subset.mp hsub).2, rfl⟩)
      · have hn : y.loop.evicts? t = none := by
          by_contra he
          obtain ⟨i, hi⟩ := Option.ne_none_iff_exists'.mp he
          exact hat (hm.evicts_of hr.alone hi)
        rw [evicted_cons ho hn]
        exact hm.astray h hat (hr.tallied t)
  · obtain ⟨n, k, hn, hrun, hpool, -⟩ := round (hm.evicts_of hr.alone he)
    obtain ⟨_, _, _, _, _, hrun'⟩ := State.evicts?_eq he
    rw [hrun'] at hrun
    rw [h'.pool] at hpool
    cases hpool
    rcases hn with rfl | ⟨e, rfl⟩ | hn
    · cases hrun
    · cases hrun
    · cases hn with
      | ends => cases hrun
      | removes hsub hi hs =>
        cases hrun
        exact ⟨(List.cons_subset.mp hsub).1, hi, hs⟩
  · obtain ⟨n', k', hn, hrun', -, -⟩ := round (hm.told_of hrun)
    rw [hrun] at hrun'
    rcases hn with rfl | ⟨e, rfl⟩ | hn
    · cases hrun'
    · cases hrun'
    · cases hn with
      | removes => cases hrun'
      | ends =>
        cases hrun'
        rfl

theorem Trace.disciplined {settings : Config.PoolSettings} (h : Trace settings past x) :
    Disciplined settings x := by
  induction h with
  | start => exact .refl
  | step _ hst ih => exact ih.tail hst

theorem Disciplined.trace {settings : Config.PoolSettings} (h : Disciplined settings x) :
    ∃ past, Trace settings past x := by
  induction h with
  | refl => exact ⟨[], .start⟩
  | tail _ hst ih =>
    obtain ⟨past, h⟩ := ih
    exact ⟨_, h.step hst⟩

theorem Trace.rounds {settings : Config.PoolSettings} (hz : settings.minConnections.isInteger = true)
    (h : Trace settings past x) : ∃ s, Scene.Kept Session.Pooling.number settings x s ∧
      Rounds Session.Pooling.number past x s := by
  induction h with
  | start =>
    have hr : (State.ofPool settings).running = none := rfl
    have ht : (State.ofPool settings).tasks = [] := rfl
    refine ⟨_, ⟨.ofPool settings, rfl, .ofPool settings, .ofPool settings⟩, ?_⟩
    refine ⟨fun _ _ _ _ h => ?_, by simp [evicted, sinceRound], fun t => ?_, fun t i h => ?_,
      fun t n k h => ?_⟩
    · cases hr.symm.trans h
    · simp [Weight.of, hr, ht]
    · simp [State.evicts?, hr] at h
    · cases hr.symm.trans h
  | step _ hst ih =>
    obtain ⟨s, hk, hr⟩ := ih
    obtain ⟨v, s', hm, hk'⟩ := hst.move hz hk
    exact ⟨s', hk', hr.step hk.sound hk.listed hk.idle_live.2 hst hm⟩

end Steps

end SqliteAccess.Loop
