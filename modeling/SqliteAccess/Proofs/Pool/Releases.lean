import SqliteAccess.Proofs.Pool.Drain

/-!
Connections given back. The pool refuses a connection that nobody has and takes back one that anybody
has, whoever it is that gives it back.
-/

namespace SqliteAccess.Pool.State

variable {s s' : State} {due due' : Nat → Prop} {held held' borne borne' : List Nat} {i j : Nat}
  {now : Float}

def Marked (due : Nat → Prop) (held borne : List Nat) (s : State) : Prop :=
  ∀ i, s.UsedAs true i → i ∈ s.given ++ (held ++ borne) ∨ due i

theorem UsedAs.of_update {b : Bool} {f : Connection → Connection}
    (hf : ∀ c, (f c).live = c.live ∧ (f c).id = c.id) (h : (s.update j f).UsedAs b i) :
    i ≠ j ∧ s.UsedAs b i ∨ i = j ∧ ∃ c, (f c).inUse = b := by
  obtain ⟨c, hc, hb⟩ := h
  rw [s.find?_update j i hf, Option.map_eq_some_iff] at hc
  obtain ⟨c', hc', rfl⟩ := hc
  have hid := find?_id hc'
  by_cases hij : c'.id = j
  · rw [if_pos hij] at hb
    exact .inr ⟨hid.symm.trans hij, c', hb⟩
  · rw [if_neg hij] at hb
    exact .inl ⟨fun he => hij (hid.trans he), c', hc', hb⟩

namespace Marked

theorem mono (h : s.Marked due held borne) (hu : ∀ i, s'.UsedAs true i → s.UsedAs true i)
    (hp : ∀ i ∈ s.given ++ (held ++ borne), i ∈ s'.given ++ (held' ++ borne') ∨ due' i)
    (hd : ∀ i, due i → s'.UsedAs true i → due' i) : s'.Marked due' held' borne' := by
  intro i hi
  rcases h i (hu i hi) with hm | hm
  · exact hp i hm
  · exact .inr (hd i hm hi)

theorem congr (h : s.Marked due held borne) (hc : s'.connections = s.connections)
    (hg : s'.given = s.given) (hd : ∀ i, due i → due' i) : s'.Marked due' held borne := by
  have hf : ∀ i, s'.find? i = s.find? i := fun i => by rw [find?, hc]; rfl
  refine h.mono (fun i hi => hi.of_find (hf i).symm) (fun i hi => .inl (hg ▸ hi)) fun i hi _ => hd i hi

theorem checkout (h : s.Marked due held borne) (hj : j ∈ s'.given ++ (held ++ borne'))
    (hc : s'.connections = (s.checkout j).connections)
    (hp : ∀ i ∈ s.given ++ (held ++ borne), i ∈ s'.given ++ (held ++ borne')) :
    s'.Marked due held borne' := by
  intro i hi
  have hu : (s.checkout j).UsedAs true i := hi.of_find (by rw [find?, find?, hc])
  rcases hu.of_update (f := fun c => { c with inUse := true }) fun _ => ⟨rfl, rfl⟩ with
    ⟨_, hu⟩ | ⟨rfl, _⟩
  · exact (h i hu).imp_left (hp i)
  · exact .inl hj

theorem freed {f : Connection → Connection} (h : s.Marked due held borne)
    (hf : ∀ c, (f c).live = c.live ∧ (f c).id = c.id) (hb : ∀ c, (f c).inUse = false)
    (hc : s'.connections = (s.update j f).connections)
    (hp : ∀ i ∈ s.given ++ (held ++ borne), i ≠ j → i ∈ s'.given ++ (held' ++ borne')) :
    s'.Marked due held' borne' := by
  intro i hi
  have hu : (s.update j f).UsedAs true i := hi.of_find (by rw [find?, find?, hc])
  rcases hu.of_update hf with ⟨hij, hu⟩ | ⟨_, c, hc⟩
  · exact (h i hu).imp_left fun hm => hp i hm hij
  · rw [hb] at hc
    cases hc

theorem checkin (h : s.Marked due held [j]) (hc : s.Checkin j now s') : s'.Marked due held [] := by
  rcases hc.places with ⟨_, hg, hs⟩ | ⟨_, hg, hs⟩
  · refine h.checkout (by simp [hg]) hs fun i hi => ?_
    simp only [hg, List.mem_append, List.mem_singleton, List.not_mem_nil, or_false] at hi ⊢
    rcases hi with hi | hi | hi
    · exact .inl (.inl hi)
    · exact .inr hi
    · exact .inl (.inr hi)
  · refine h.freed (f := fun c => { c with inUse := false, releasedAt := now }) (fun _ => ⟨rfl, rfl⟩)
      (fun _ => rfl) hs fun i hi hij => ?_
    simpa [hg, hij] using hi

end Marked

end SqliteAccess.Pool.State

namespace SqliteAccess.Loop

section Acts

variable {p t T N N' : Nat} {s s' : Pool.State} {u : Shape} {w : Work u} {cs : List (Call .unit)}
  {n : Next u} {held : List Nat}

theorem mem_borne {given held borne : List Nat} {i : Nat} (h : i ∈ given ++ (held ++ [])) :
    i ∈ given ++ (held ++ borne) := by
  rw [List.append_nil] at h
  rw [← List.append_assoc]
  exact List.mem_append_left _ h

theorem Act.marked (h : Act p t T N s w s' N' cs n) (hz : s.settings.minConnections.isInteger = true)
    (hN : ∀ i ∈ s.connections.map (·.id), i < N) (hm : s.Marked (w.Razes ·) held w.brings) :
    s'.Marked (n.Razes ·) held n.brings := by
  -- Only a destroy that begins was about to destroy anything.
  have calm : (∀ i, ¬ w.Razes i) → s.Marked (n.Razes ·) held w.brings := fun hr =>
    hm.congr rfl rfl fun i hi => absurd hi (hr i)
  have taken : ∀ {i : Nat}, s.handedTo? t = some i → (∀ i, ¬ w.Razes i) → w.brings = [] →
      (s.takeUp t).Marked (n.Razes ·) held [i] := by
    intro i ht hr hb
    have hq := calm hr
    rw [hb] at hq
    refine hq.mono (fun _ => id) (fun j hj => .inl ?_) fun _ hd _ => hd
    have hg : j ∈ s.given ↔ j = i ∨ j ∈ (s.takeUp t).given := by
      rw [(Pool.State.given_takeUp ht).mem_iff, List.mem_cons]
    simp only [List.mem_append, List.mem_singleton, List.not_mem_nil, or_false, hg] at hj ⊢
    rcases hj with (hj | hj) | hj
    · exact .inr (.inr hj)
    · exact .inl hj
    · exact .inr (.inl hj)
  have still : (∀ i, ¬ w.Razes i) → w.brings = [] → s'.connections = s.connections →
      s'.given = s.given → s'.Marked (n.Razes ·) held n.brings := by
    intro hr hb hc hg
    have hq : s'.Marked (n.Razes ·) held w.brings := (calm hr).congr hc hg fun _ => id
    rw [hb] at hq
    exact hq.mono (fun _ => id) (fun _ hj => .inl (mem_borne hj)) fun _ hd _ => hd
  cases h
  case takes i _ ht =>
    obtain ⟨_, hs'⟩ := Pool.State.takeIdle?_eq ht
    rw [Next.brings_lease, Pool.State.leaseOf_id]
    have hg : s'.given = s.given := by rw [hs']; rfl
    exact (calm fun _ => id).checkout (j := i) (by simp) (by rw [hs']; rfl) fun j hj =>
      mem_borne (hg ▸ hj)
  case lines h₁ hl =>
    subst h₁
    cases hl <;> exact still (fun _ => id) rfl rfl rfl
  case openDone c _ =>
    rw [Next.brings_lease]
    exact (calm fun _ => id).checkout (j := c.id) (by simp) rfl fun _ hj => hj
  case openSpoilt he => exact absurd he (Pool.State.shortfall_ne_error hz _)
  case served ht =>
    rw [Next.brings_lease, Pool.State.leaseOf_id]
    exact taken ht (fun _ => id) rfl
  case misled ht =>
    rw [Pool.State.takeUp_of_none ht] at still ⊢
    exact still (fun _ => id) rfl rfl rfl
  case leaves ht =>
    rw [Pool.State.takeUp_of_none ht] at still ⊢
    exact still (fun _ => id) rfl rfl rfl
  case passesOn i e now ht =>
    have hq : ((s.takeUp t).leaveLine t).Marked _ held [i] :=
      (taken ht (fun _ => id) rfl).congr rfl rfl fun _ => id
    exact hq.checkin (Pool.State.checkin_spec _ i now)
  case registers c now =>
    have hnew : s.freeSlot.find? N = none := by
      refine List.find?_eq_none.mpr fun c hc => ?_
      have := hN c.id (List.mem_map_of_mem hc)
      simp
      omega
    intro i hi
    obtain ⟨c', hc', hb⟩ := hi
    rw [Pool.State.find?_register hnew] at hc'
    split at hc'
    next =>
      cases hc'
      cases hb
    next => exact (calm (fun _ => id) i ⟨c', hc', hb⟩).imp_left fun hj => mem_borne hj
  case backgroundFailed h₁ =>
    subst h₁
    exact still (fun _ => id) rfl rfl rfl
  case backgroundLate c _ =>
    refine (calm fun _ => id).mono (fun _ => id) (fun i hi => ?_) fun _ hd _ => hd
    simp only [Work.brings, brought, List.mem_append, List.mem_singleton] at hi
    rcases hi with hi | hi | rfl
    · exact .inl (List.mem_append_left _ hi)
    · exact .inl (List.mem_append_right _ (List.mem_append_left _ hi))
    · exact .inr rfl
  case backgroundDone c now _ =>
    have hq : s.endBackground.Marked _ held [c.id] := (calm fun _ => id).congr rfl rfl fun _ => id
    exact hq.checkin (Pool.State.checkin_spec _ c.id now)
  case gone hr =>
    intro i hi
    refine (hm i hi).imp_right fun he => ?_
    obtain ⟨c, hc, _⟩ := hi
    cases he
    cases (Pool.State.remove?_none hr).symm.trans hc
  case removes j _ hr =>
    obtain ⟨_, rfl⟩ := Pool.State.remove?_eq hr
    intro i hi
    obtain ⟨c, hc, hb⟩ := hi
    rw [Pool.State.find?_without] at hc
    split at hc
    next => cases hc
    next hne => exact .inl ((hm i ⟨c, hc, hb⟩).resolve_right fun he => hne (Eq.symm he))
  all_goals exact still (fun _ => id) rfl rfl rfl

end Acts

def Marks (r : List Nat) (l : State) (s : Pool.State) : Prop :=
  s.Marked (fun i => ∃ t, l.Razes t i) (l.held r) l.brings

section Moves

variable {p t i : Nat} {X Y : Prop} {v : Option Event} {l l' m : State} {s s' : Pool.State}
  {r : List Nat}

theorem State.mem_held : i ∈ l.held r ↔ ∃ t, l.holds? r t = some i := by
  rw [State.held, List.mem_filterMap]
  constructor
  · rintro ⟨t, _, ht⟩
    exact ⟨t, ht⟩
  · rintro ⟨t, ht⟩
    have hg : t ∉ r ∧ l.got? t = some i := by simpa [State.holds?] using ht
    exact ⟨t, List.mem_range.mpr (State.lt_of_got? hg.2), ht⟩

theorem Marks.work {u : Shape} {w : Work u} {d : Call u} {k : Stack u} {n : Next u}
    {cs : List (Call .unit)} (h : Sound p l s) (hz : s.settings.minConnections.isInteger = true)
    (hl : Listed l s) (hm : Marks r l s) (hr : l.running = some (w.on t k)) (hd : w.Of p d)
    (ha : Act p t l.tasks.length l.nextConnection s w s' m.nextConnection cs n)
    (hc : Changed p (fun i => s.reaper = some i) (Tells s s') (Follows w t s s') l m s'
      m.nextConnection cs) : Marks r (m.carryOn t n k) s' := by
  have hrun : l.got? t = none := Work.on_task w t k ▸ h.got?_running hr
  have hheld : (m.carryOn t n k).held r = l.held r := by
    refine State.held_congr ?_ fun j =>
      (State.carryOn_got? n ((hc.got? t).trans hrun) j).trans (hc.got? j)
    rw [State.carryOn_length, hc.length]
    exact Nat.le_add_right _ _
  have hw : s.Marked (w.Razes ·) (l.held r) w.brings := by
    rw [← State.brings_on hr]
    refine Pool.State.Marked.congr hm rfl rfl ?_
    rintro i ⟨_, x, hx, _, hi⟩
    cases hr.symm.trans hx
    cases w with
    | call c => cases c <;> exact hi
    | back => exact hi.elim
  rw [Marks, hheld, State.carryOn_brings]
  exact (ha.marked hz hl.known hw).congr rfl rfl fun i hi => ⟨t, State.carryOn_razes k hi⟩

theorem Marks.aside (h : Sound p l s) (ho : Owned r l s) (hm : Marks r l s)
    (ha : Aside p X Y v l l' s s') (hv : ∀ e, v = some e → e.returns? = none) : Marks r l' s' := by
  have hlen := ha.length_le
  have keep : s'.connections = s.connections → s'.given = s.given →
      (∀ i ∈ l.held r ++ l.brings, i ∈ l'.held r ++ l'.brings) → Marks r l' s' := by
    intro hc hg hi
    have hq : s'.Marked (fun _ => False) (l.held r) l.brings := by
      refine Pool.State.Marked.congr hm hc hg ?_
      rintro i ⟨_, hz⟩
      exact ha.razes hz
    refine hq.mono (fun _ => id) (fun i hm => .inl ?_) fun _ => False.elim
    rcases List.mem_append.mp hm with hm | hm
    · exact List.mem_append_left _ hm
    · exact List.mem_append_right _ (hi i hm)
  have quiet : l.running = none → (∀ t, l'.got? t = l.got? t) →
      ∀ i ∈ l.held r ++ l.brings, i ∈ l'.held r ++ l'.brings := by
    intro hr hg i hi
    rw [State.brings_of_none hr, List.append_nil, ← State.held_congr hlen hg] at hi
    exact List.mem_append_left _ hi
  cases ha with
  | @ends t u o hr hc =>
    have hrun : l.got? t = none := h.got?_running hr
    have hothers : ∀ j, j ≠ t → l'.got? j = l.got? j := fun j hj =>
      (hc.got? j).trans (State.lay_got?_of_ne hj)
    refine keep rfl rfl fun i hi => List.mem_append_left _ (State.mem_held.mpr ?_)
    rcases List.mem_append.mp hi with hi | hi
    · obtain ⟨j, hj⟩ := State.mem_held.mp hi
      refine ⟨j, ?_⟩
      have hg : j ∉ r ∧ l.got? j = some i := by simpa [State.holds?] using hj
      have hne : j ≠ t := by
        rintro rfl
        cases hrun.symm.trans hg.2
      rw [State.holds?, if_neg hg.1, hothers j hne]
      exact hg.2
    · simp only [State.brings, hr] at hi
      have hout : t ∉ r := fun ht => by simpa [hrun] using ho.returned t ht
      by_cases hu : u = .lease
      · subst hu
        cases o with
        | error e => cases hi
        | ok c =>
          obtain rfl := List.mem_singleton.mp hi
          refine ⟨t, ?_⟩
          rw [State.holds?, if_neg hout, hc.got? t]
          exact State.lay_got? (h.running_lt hr)
      · rw [brought_of_ne hu o] at hi
        cases hi
  | @goesOn t signal k x hr hk hs _ ht =>
    refine keep rfl rfl (quiet hr (State.got?_modify ht fun y hy => ?_))
    cases hk.symm.trans hy
    rw [hs]
    rfl
  | lull hr hl hc =>
    have hg : s'.given = s.given := by rw [hl.same]; rfl
    exact keep (by rw [hl.same]) hg (quiet hr hc.got?)
  | enters _ hr _ ht hs => exact keep rfl rfl (quiet hr (State.got?_append ht (by rw [hs]; rfl)))
  | spawns _ hr _ ht hm => exact keep rfl rfl (quiet hr (State.got?_append ht (by rw [hm.status]; rfl)))
  | releases _ _ _ _ _ he => cases hv _ he
  | discards _ _ _ _ he => cases hv _ he

theorem Marks.returned (hm : Marks r l s) (hr : l.running = none) (hh : l.holds? r t = some i) :
    s.Marked (fun _ => False) (l.held (t :: r)) [i] := by
  refine Pool.State.Marked.mono hm (fun _ => id) (fun j hj => .inl ?_) fun j ⟨_, x, hx, _⟩ => ?_
  · rw [State.brings_of_none hr, List.append_nil] at hj
    rcases List.mem_append.mp hj with hj | hj
    · exact List.mem_append_left _ hj
    · refine List.mem_append_right _ (List.mem_append.mpr ?_)
      rcases List.mem_cons.mp ((State.held_cons hh).mem_iff.mp hj) with rfl | hj
      · exact .inr List.mem_cons_self
      · exact .inl hj
  · cases hr.symm.trans hx

theorem Marks.releases (ho : Owned r l s) (hm : Marks r l s) (hh : l.holds? r t = some i)
    (ha : Aside p X Y (some (.release p i)) l l' s s') : Marks (t :: r) l' s' := by
  have hlen := ha.length_le
  cases ha with
  | ends _ _ _ hv => cases hv
  | goesOn _ _ _ _ _ hv => cases hv
  | lull _ _ _ _ _ _ hq => exact absurd (ho.checkRelease hh) hq
  | enters _ _ _ _ _ _ _ hv => cases hv
  | spawns _ _ _ _ _ hv => cases hv
  | releases now hr _ _ hc hv =>
    cases hv
    rw [Marks, State.held_congr hlen hc.got?, State.brings_of_none (hc.running.trans hr)]
    exact ((hm.returned hr hh).checkin (s.checkin_spec i now)).congr rfl rfl fun _ => False.elim
  | discards hr _ _ hc hv =>
    cases hv
    rw [Marks, State.held_congr hlen hc.got?, State.brings_of_none (hc.running.trans hr)]
    have hq : s.Marked (fun j => ∃ t, l'.Razes t j) (l.held (t :: r)) [i] :=
      (hm.returned hr hh).congr rfl rfl fun _ => False.elim
    refine hq.freed (f := fun c => { c with inUse := false }) (j := i) (fun _ => ⟨rfl, rfl⟩)
      (fun _ => rfl) rfl fun j hj hne => ?_
    have hj : j ∈ s.given ++ l.held (t :: r) := by simpa [hne] using hj
    exact (List.append_nil (l.held (t :: r))).symm ▸ hj

theorem Marks.destroys (hm : Marks r l s) (hh : l.holds? r t = some i)
    (ha : Aside p X Y (some (.enter (.destroy p i))) l l' s s') : Marks (t :: r) l' s' := by
  have hlen := ha.length_le
  cases ha with
  | ends _ _ _ hv => cases hv
  | goesOn _ _ _ _ _ hv => cases hv
  | lull _ _ _ _ _ _ hq => exact hq.elim
  | spawns _ _ _ _ _ hv => cases hv
  | releases _ _ _ _ _ hv => cases hv
  | discards _ _ _ _ hv => cases hv
  | enters _ hr hr' ht hs _ _ hv =>
    cases hv
    rw [Marks, State.held_congr hlen (State.got?_append ht (by rw [hs]; rfl))]
    refine (hm.returned hr hh).mono (fun _ => id) (fun j hj => ?_) fun _ => False.elim
    rw [← List.append_assoc] at hj
    rcases List.mem_append.mp hj with hj | hj
    · rw [← List.append_assoc]
      exact .inl (List.mem_append_left _ hj)
    · exact .inr ⟨_, _, hr', rfl, (List.mem_singleton.mp hj).symm⟩

end Moves

section Scenes

variable {p t i : Nat} {settings : Config.PoolSettings} {x y : Scene} {s : Pool.State}

theorem Scene.Step.marks (hz : settings.minConnections.isInteger = true) (h : Scene.Kept p settings x s)
    (hm : Marks x.returned x.loop s) (hst : Scene.Step p x y) :
    ∃ s', Scene.Kept p settings y s' ∧ Marks y.returned y.loop s' := by
  obtain ⟨s', hk⟩ := hst.kept hz h
  have hz' : s.settings.minConnections.isInteger = true := h.settings ▸ hz
  have same : ∀ {v s''}, Move p True True v x.loop y.loop s s'' → s'' = s' := by
    intro v s'' hm
    have hp := (hm.sound h.sound).pool
    rw [hk.sound.pool] at hp
    exact (Option.some.inj hp).symm
  have moves : ∀ {e : Event}, x.loop.running = none → e.Offered p →
      ∃ s', Move p True True (some e) x.loop (x.loop.after e) s s' := fun hr he =>
    State.after_move h.sound hr (fun _ => .inr trivial) he (freely_spares trivial trivial _ _)
  refine ⟨s', hk, ?_⟩
  cases hst with
  | loop hl =>
    obtain ⟨s'', hmove⟩ := State.step_move (X := True) (Y := True) h.sound hl
    obtain rfl := same hmove
    cases hmove with
    | work hr hd hk ha hc heq =>
      dsimp only at heq ⊢
      subst heq
      exact hm.work h.sound hz' h.listed hr hd ha hc
    | aside _ _ ha => exact hm.aside h.sound h.owned ha fun _ he => by cases he
  | event e hr he hret =>
    obtain ⟨s'', hmove⟩ := moves hr he
    obtain rfl := same hmove
    cases hmove with
    | work _ _ _ _ _ _ hv => cases hv
    | aside _ _ ha =>
      refine hm.aside h.sound h.owned ha fun e' he' => ?_
      cases he'
      exact hret
  | @release t i hr hh =>
    obtain ⟨s'', hmove⟩ := moves (e := .release p i) hr rfl
    obtain rfl := same hmove
    cases hmove with
    | work _ _ _ _ _ _ hv => cases hv
    | aside _ _ ha => exact hm.releases h.owned hh ha
  | @destroy t i hr hh =>
    obtain ⟨s'', hmove⟩ := moves (e := .enter (.destroy p i)) hr (.destroy i)
    obtain rfl := same hmove
    cases hmove with
    | work _ _ _ _ _ _ hv => cases hv
    | aside _ _ ha => exact hm.destroys hh ha

theorem Disciplined.marks (hz : settings.minConnections.isInteger = true) (h : Disciplined settings x) :
    ∃ s, Scene.Kept Session.Pooling.number settings x s ∧ Marks x.returned x.loop s := by
  induction h with
  | refl => exact ⟨_, ⟨.ofPool settings, rfl, .ofPool settings, .ofPool settings⟩, nofun⟩
  | tail _ hst ih =>
    obtain ⟨s, h, hm⟩ := ih
    exact hst.marks hz h hm

end Scenes

/-- Between two steps the pool refuses a connection that nobody has, and is left as it was, and takes
back one that somebody has. So a second release is caught just when nobody has got the connection in
between. -/
theorem release_refused_iff {settings : Config.PoolSettings}
    (hz : settings.minConnections.isInteger = true) {x : Scene} (h : Disciplined settings x)
    (hr : x.loop.running = none) (i : Nat) :
    ∃ s, x.loop.pool? Session.Pooling.number = some s ∧
      ((∃ e ∈ [Failure.foreignConnection (Pool.connectionName i),
          .releasedTwice (Pool.connectionName i)],
        x.loop.release Session.Pooling.number i = (x.loop, .error e)) ↔ ∀ t, ¬ x.Owns s t i) ∧
      ((∃ t, x.Owns s t i) → (x.loop.release Session.Pooling.number i).2 = .ok ()) := by
  obtain ⟨s, hk, hm⟩ := h.marks hz
  have howns : (∃ t, x.Owns s t i) → s.checkRelease i = .ok () := by
    intro ht
    obtain ⟨c, hc, hu⟩ := hk.owned.sole.used i (Scene.owned_iff.mpr ht)
    simp [Pool.State.checkRelease, hc, hu]
  have htaken : (∃ t, x.Owns s t i) → (x.loop.release Session.Pooling.number i).2 = .ok () := by
    intro ht
    simp only [State.release, hk.sound.pool, howns ht]
    split <;> rfl
  refine ⟨s, hk.sound.pool, ⟨?_, fun hn => ?_⟩, htaken⟩
  · rintro ⟨e, _, he⟩ t ht
    have hok := htaken ⟨t, ht⟩
    rw [he] at hok
    cases hok
  · have hfree : ¬ s.UsedAs true i := by
      intro hu
      rcases hm i hu with hi | ⟨t, x', hx, _⟩
      · rw [State.brings_of_none hr, List.append_nil] at hi
        obtain ⟨t, ht⟩ := Scene.owned_iff.mp hi
        exact hn t ht
      · cases hr.symm.trans hx
    simp only [State.release, hk.sound.pool]
    cases hf : s.find? i with
    | none => exact ⟨_, List.mem_cons_self, by simp [Pool.State.checkRelease, hf]⟩
    | some c =>
      have hu : c.inUse = false := by
        cases hb : c.inUse with
        | false => rfl
        | true => exact absurd ⟨c, hf, hb⟩ hfree
      exact ⟨_, List.mem_cons_of_mem _ List.mem_cons_self, by simp [Pool.State.checkRelease, hf, hu]⟩

theorem release_refused_iff_bothGave : roomy.minConnections.isInteger = true ∧
    Disciplined roomy bothGave ∧ bothGave.loop.running = none ∧
    ∃ e, bothGave.loop.release Session.Pooling.number 1 = (bothGave.loop, .error e) := by
  obtain ⟨s, hs, hiff, _⟩ := release_refused_iff (x := bothGave) rfl bothGave_disciplined rfl 1
  have hgiven : (bothGave.loop.pool? Session.Pooling.number).map (·.given) = some [] := rfl
  have hheld : bothGave.loop.held bothGave.returned = [] := rfl
  rw [hs, Option.map_some, Option.some.injEq] at hgiven
  obtain ⟨e, _, he⟩ := hiff.mpr fun t ht => by
    have hm := Scene.owned_iff.mpr ⟨t, ht⟩
    rw [hgiven, hheld] at hm
    cases hm
  exact ⟨rfl, bothGave_disciplined, rfl, e, he⟩

def givenTwice : State :=
  ((handedOver.loop.after (.release Session.Pooling.number 1)).after
    (.enter (.acquire Session.Pooling.number))).settleWithin 8

def lentOn : State :=
  let l := (({ managers := [{}] } : State).spawn (.setUp 0 (some { filename := "f" }) .single) []).1
  let l := ((l.settleWithin 20).spawn (.borrow 0) []).1
  let l := ((l.settleWithin 20).spawn (.borrow 0) []).1
  ((l.settleWithin 20).giveBack 0 (some ⟨1, .numbered 1⟩)).1.settleWithin 20

def lentTwice : State :=
  ((lentOn.giveBack 0 (some ⟨1, .numbered 1⟩)).1.spawn (.borrow 0) []).1.settleWithin 20

theorem second_release_taken :
    (Disciplined tight handedOver ∧ 0 ∈ handedOver.returned ∧ handedOver.loop.got? 0 = some 1 ∧
      (handedOver.loop.release Session.Pooling.number 1).2 = .ok () ∧
      givenTwice.got? 2 = some 1 ∧ givenTwice.got? 3 = some 1) ∧
    (lentOn.giveBack 0 (some ⟨1, .numbered 1⟩)).2 = .ok () ∧
      ∀ t ∈ [2, 3], (lentTwice.tasks[t]?).map (·.status) =
        some (.finished .borrowed (.ok (some ⟨1, .numbered 1⟩))) := by
  refine ⟨⟨handedOver_disciplined, List.mem_cons_self, rfl, rfl, rfl, rfl⟩, rfl, fun t ht => ?_⟩
  rcases List.mem_pair.mp ht with rfl | rfl <;> rfl

end SqliteAccess.Loop
