import SqliteAccess.Proofs.Pool.Eviction

/-!
How long a connection has rested when it is evicted. A round looks at the clock once, when it begins, and
later only at what rests, so a connection that has been used and given back while the round was busy
goes as well.
-/

namespace SqliteAccess

namespace Pool.State

variable {s s' : State} {due : Nat → Prop} {held borne : List Nat} {i j : Nat} {now : Float}

theorem find?_update_of_ne {f : Connection → Connection}
    (hf : ∀ c, (f c).live = c.live ∧ (f c).id = c.id) (hij : i ≠ j) :
    (s.update j f).find? i = s.find? i := by
  rw [s.find?_update j i hf]
  cases hc : s.find? i with
  | none => rfl
  | some c => rw [Option.map_some, find?_id hc, if_neg hij]

theorem Checkin.find?_of_ne (h : s.Checkin j now s') (hij : i ≠ j) : s'.find? i = s.find? i := by
  cases h with
  | serves => exact find?_update_of_ne (s := s) (fun _ => ⟨rfl, rfl⟩) hij
  | rests => exact find?_update_of_ne (s := s) (fun _ => ⟨rfl, rfl⟩) hij

theorem everFind?_of_find? (hn : (s.connections.map (·.id)).Nodup) {c : Connection}
    (hc : s.find? i = some c) : s.everFind? i = some c := by
  cases he : s.everFind? i with
  | none =>
    have hne := List.find?_eq_none.mp he c (find?_mem hc)
    simp [find?_id hc] at hne
  | some c' =>
    have hid : c'.id = i := by simpa using List.find?_some he
    have hmem := List.mem_of_find?_eq_some he
    exact congrArg some
      (List.inj_on_of_nodup_map hn hmem (find?_mem hc) (hid.trans (find?_id hc).symm))

theorem Sole.idle_ne (h : s.Sole due held borne) (hi : i ∈ s.idle)
    (hj : j ∈ s.given ++ (held ++ borne)) : i ≠ j :=
  fun he => h.idle_apart hi (he ▸ hj)

theorem Sole.ne_of_checkRelease (h : s.Sole due held borne) (hi : i ∈ s.idle)
    (hj : s.checkRelease j = .ok ()) : i ≠ j := by
  rintro rfl
  obtain ⟨c, hc, hu⟩ := h.free i hi
  simp [checkRelease, hc, hu] at hj

end Pool.State

namespace Loop

/-- The connection rests in the pool. -/
def State.Rests (l : State) (p i : Nat) : Prop := ∃ s, l.pool? p = some s ∧ i ∈ s.idle

section Resting

variable {p t i : Nat} {s s' : Pool.State}

theorem Act.untouched {T N N' : Nat} {u : Shape} {w : Work u} {cs : List (Call .unit)} {n : Next u}
    {due : Nat → Prop} {held : List Nat} (h : Act p t T N s w s' N' cs n)
    (hs : s.Sole due held w.brings) (hk : ∀ j ∈ s.connections.map (·.id), j < N) (hi : i ∈ s.idle)
    (hi' : i ∈ s'.idle) : s'.find? i = s.find? i := by
  have hn : s.idle.Nodup := (List.nodup_append.mp hs.once).1
  have borne : ∀ {j}, j ∈ w.brings → i ≠ j := fun hj =>
    hs.idle_ne hi (List.mem_append_right _ (List.mem_append_right _ hj))
  cases h
  case takes j _ ht =>
    obtain ⟨he, hs'⟩ := Pool.State.takeIdle?_eq ht
    have hij : i ≠ j := by
      rintro rfl
      change s.idle = _ at he
      rw [he] at hn
      exact (List.nodup_append.mp hn).2.2 i hi' i (List.mem_singleton.mpr rfl) rfl
    rw [hs']
    exact Pool.State.find?_update_of_ne (fun _ => ⟨rfl, rfl⟩) hij
  case lines h₁ hl =>
    subst h₁
    cases hl <;> rfl
  case openDone c _ =>
    exact Pool.State.find?_update_of_ne (fun _ => ⟨rfl, rfl⟩) (borne List.mem_cons_self)
  case passesOn j e now hg =>
    have hij := hs.idle_ne hi
      (List.mem_append_left _ ((Pool.State.given_takeUp hg).mem_iff.mpr List.mem_cons_self))
    exact (Pool.State.checkin_spec _ j now).find?_of_ne hij
  case registers c now =>
    have hlt := (hs.free i hi).lt hk
    have hN : s.freeSlot.find? N = none := by
      refine List.find?_eq_none.mpr fun c hc => ?_
      have := hk c.id (List.mem_map_of_mem hc)
      simp
      omega
    rw [Pool.State.find?_register hN, if_neg (by omega)]
    rfl
  case backgroundFailed h₁ =>
    subst h₁
    rfl
  case backgroundDone c now _ =>
    exact (Pool.State.checkin_spec s.endBackground c.id now).find?_of_ne (borne List.mem_cons_self)
  case removes j _ hr =>
    rw [(Pool.State.remove?_eq hr).2] at hi' ⊢
    rw [Pool.State.find?_without, if_neg (hn.mem_erase_iff.mp hi').1]
  all_goals rfl

theorem Aside.untouched {X Y : Prop} {v : Option Event} {l l' : State} {due : Nat → Prop}
    {held borne : List Nat} (h : Aside p X Y v l l' s s') (hs : s.Sole due held borne)
    (hi : i ∈ s.idle) : s'.find? i = s.find? i := by
  cases h with
  | ends | goesOn | enters | spawns => rfl
  | lull _ hl =>
    rw [hl.same]
    rfl
  | releases now _ hc =>
    exact (Pool.State.checkin_spec s _ now).find?_of_ne (hs.ne_of_checkRelease hi hc)
  | discards _ hc =>
    exact Pool.State.find?_update_of_ne (s := s) (fun _ => ⟨rfl, rfl⟩) (hs.ne_of_checkRelease hi hc)

variable {settings : Config.PoolSettings} {past since earlier : List Scene} {x y : Scene}

theorem Scene.Kept.untouched {X Y : Prop} {v : Option Event} (hk : Scene.Kept p settings x s)
    (hm : Move p X Y v x.loop y.loop s s') (hi : i ∈ s.idle) (hi' : i ∈ s'.idle) :
    s'.find? i = s.find? i := by
  cases hm with
  | work hr _ _ ha =>
    have hs := hk.owned.sole
    rw [State.brings_on hr] at hs
    exact ha.untouched hs hk.listed.known hi hi'
  | aside _ _ ha => exact ha.untouched hk.owned.sole hi

theorem Trace.untouched (hz : settings.minConnections.isInteger = true)
    (h : Trace settings (since ++ y :: earlier) x) (hx : x.loop.pool? Session.Pooling.number = some s')
    (hy : y.loop.pool? Session.Pooling.number = some s) (hi' : i ∈ s'.idle) (hi : i ∈ s.idle)
    (hrest : ∀ z ∈ since, z.loop.Rests Session.Pooling.number i) : s'.find? i = s.find? i := by
  have step : ∀ {z x : Scene} {past : List Scene} {q q' : Pool.State}, Trace settings past z →
      Scene.Step Session.Pooling.number z x → z.loop.pool? Session.Pooling.number = some q →
      x.loop.pool? Session.Pooling.number = some q' → i ∈ q.idle → i ∈ q'.idle →
      q'.find? i = q.find? i := by
    intro z x past q q' hz' hst hq hq' hi hi'
    obtain ⟨s, hk, -⟩ := hz'.rounds hz
    obtain ⟨v, s', hm, hk'⟩ := hst.move hz hk
    cases hk.sound.pool.symm.trans hq
    cases hk'.sound.pool.symm.trans hq'
    exact hk.untouched hm hi hi'
  induction since generalizing x s' with
  | nil =>
    cases h with
    | step h hst => exact step h hst hy hx hi hi'
  | cons z since ih =>
    cases h with
    | step h hst =>
      obtain ⟨q, hq, hiq⟩ := hrest z List.mem_cons_self
      rw [step h hst hq hx hiq hi']
      exact ih h hq hiq fun z' hz' => hrest z' (List.mem_cons_of_mem z hz')

theorem Trace.before (h : Trace settings (since ++ y :: earlier) x) : Trace settings earlier y := by
  induction since generalizing x with
  | nil =>
    cases h with
    | step h _ => exact h
  | cons z since ih =>
    cases h with
    | step h _ => exact ih h

theorem roundOf?_split (h : roundOf? t past = some y) :
    ∃ earlier, past = sinceRound t past ++ y :: earlier := by
  obtain ⟨hy, since, earlier, rfl, hno⟩ := List.find?_eq_some_iff_append.mp h
  refine ⟨earlier, ?_⟩
  rw [sinceRound, List.takeWhile_append_of_pos (by simpa using hno)]
  simp [hy]

theorem State.mem_expired {l : State} (h : l.pool? p = some s) (hi : i ∈ l.expired p) :
    ∃ timeout, Config.seconds s.settings.idleTimeoutMs = .ok timeout ∧
      i ∈ s.expired l.clock timeout := by
  simp only [State.expired, h] at hi
  split at hi
  next => cases hi
  next d hd => exact ⟨d, hd, hi⟩

theorem Scene.Kept.expired {now timeout : Float} (hk : Scene.Kept p settings x s)
    (hi : i ∈ s.expired now timeout) :
    i ∈ s.idle ∧ ∃ c, s.find? i = some c ∧ timeout ≤ c.idleFor now := by
  obtain ⟨hidle, he⟩ := List.mem_filter.mp hi
  obtain ⟨c, hc, _⟩ := hk.owned.sole.free i hidle
  rw [Pool.State.isExpired, Pool.State.everFind?_of_find? hk.listed.once hc] at he
  exact ⟨hidle, c, hc, of_decide_eq_true he⟩

theorem State.evictFrom_next (l : State) {n : Nat} (hs : s.hasSpare = true) (ids : List Nat) :
    ids.find? s.idle.contains = none ∧ (l.evictFrom p s n ids).2 = .give (.ok n) ∨
      ∃ i rest, ids.find? s.idle.contains = some i ∧
        (l.evictFrom p s n ids).2 = .call (.destroy p i) (.evicting p rest n) := by
  induction ids with
  | nil =>
    refine .inl ⟨rfl, ?_⟩
    rw [State.evictFrom, State.endEviction]
    split <;> rfl
  | cons i ids ih =>
    cases hi : s.idle.contains i with
    | true =>
      refine .inr ⟨i, ids, List.find?_cons_of_pos hi, ?_⟩
      rw [State.evictFrom, if_pos hi, if_pos hs]
    | false =>
      have hno : ¬ s.idle.contains i = true := Bool.eq_false_iff.mp hi
      rw [State.evictFrom, if_neg hno, List.find?_cons_of_neg hno]
      exact ih

theorem State.evicting_next {l : State} {n : Nat} {rest : List Nat} {k : Stack .count}
    (h : l.pool? p = some s) (hs : s.hasSpare = true)
    (hr : l.running = some ⟨t, .unit, .give (.ok ()), .push (.evicting p rest n) k⟩) :
    ∃ l', l.step? = some l' ∧ l'.evicts? t = rest.find? s.idle.contains := by
  refine ⟨_, State.step?_of_running hr, ?_⟩
  rw [State.advance]
  simp only [resume, State.evicting, h]
  rcases l.evictFrom_next (p := p) (n := n + 1) hs rest with ⟨hn, he⟩ | ⟨i, rest', hi, he⟩
  · rw [hn, he]
    rfl
  · rw [hi, he]
    simp [State.carryOn, State.evicts?]

end Resting

/-- What a round removes rests, and had rested for the timeout when the round began; the record of its
last release is the same as then if it has rested ever since. But a round that is back from the driver
goes on with the first of what it took down that rests now, however long. -/
theorem evicted_had_expired {settings : Config.PoolSettings}
    (hz : settings.minConnections.isInteger = true) {past : List Scene} {x : Scene}
    (h : Trace settings past x) :
    ∃ s, x.loop.pool? Session.Pooling.number = some s ∧
      (∀ t i, x.loop.evicts? t = some i → i ∈ s.idle ∧ ∃ y sy c timeout,
        roundOf? t past = some y ∧ y.loop.pool? Session.Pooling.number = some sy ∧
        Config.seconds settings.idleTimeoutMs = .ok timeout ∧ i ∈ sy.idle ∧ sy.find? i = some c ∧
        timeout ≤ c.idleFor y.loop.clock ∧
        ((∀ z ∈ sinceRound t past, z.loop.Rests Session.Pooling.number i) → s.find? i = some c)) ∧
      ∀ t rest n k, x.loop.running =
          some ⟨t, .unit, .give (.ok ()), .push (.evicting Session.Pooling.number rest n) k⟩ →
        s.hasSpare = true →
        ∃ l', x.loop.step? = some l' ∧ l'.evicts? t = rest.find? s.idle.contains := by
  obtain ⟨s, hk, hr⟩ := h.rounds hz
  refine ⟨s, hk.sound.pool, fun t i he => ?_, fun t rest n k hrun hs =>
    State.evicting_next hk.sound.pool hs hrun⟩
  obtain ⟨hdue, hi, -⟩ := hr.next t i he
  cases hy : roundOf? t past with
  | none => simp [due, hy] at hdue
  | some y =>
    obtain ⟨earlier, hpast⟩ := roundOf?_split hy
    rw [due, hy, Option.map_some, Option.getD_some] at hdue
    rw [hpast] at h
    obtain ⟨sy, hky, -⟩ := h.before.rounds hz
    obtain ⟨timeout, htime, hexp⟩ := State.mem_expired hky.sound.pool hdue
    obtain ⟨hiy, c, hc, hle⟩ := hky.expired hexp
    refine ⟨hi, y, sy, c, timeout, rfl, hky.sound.pool, hky.settings ▸ htime, hiy, hc, hle, ?_⟩
    intro hrest
    rw [h.untouched hz hk.sound.pool hky.sound.pool hi hiy hrest, hc]

theorem evicted_had_expired_roomy : roomy.minConnections.isInteger = true ∧
    ∃ past, Trace roomy (evictionBegins :: past) evictionRemoves ∧ ∃ s c timeout,
      evictionRemoves.loop.pool? Session.Pooling.number = some s ∧
      Config.seconds roomy.idleTimeoutMs = .ok timeout ∧ s.find? 1 = some c ∧
      timeout ≤ c.idleFor evictionBegins.loop.clock := by
  obtain ⟨past, h₀⟩ := evictionBegins_disciplined.trace
  have h : Trace roomy (evictionBegins :: past) evictionRemoves := h₀.step (.loop rfl)
  have ho : evictionBegins.loop.opensRound 3 = true := rfl
  have hy : roundOf? 3 (evictionBegins :: past) = some evictionBegins := List.find?_cons_of_pos ho
  have hsince : sinceRound 3 (evictionBegins :: past) = [] := by simp [sinceRound, ho]
  obtain ⟨s, hs, hremoved, _⟩ := evicted_had_expired rfl h
  obtain ⟨_, y, sy, c, timeout, hy', _, htime, _, _, hle, hrest⟩ := hremoved 3 1 rfl
  cases hy.symm.trans hy'
  exact ⟨rfl, past, h, s, c, timeout, hs, htime, hrest (by simp [hsince]), hle⟩

def slowToClose : Scene :=
  ⟨((bothGave.loop.after (.driver { bothGave.loop.opener with manualClose := true })).after
    (.tick 100.0)).after (.enter (.evict Session.Pooling.number)), bothGave.returned⟩

def usedMeanwhile : Scene :=
  ⟨((slowToClose.loop.settleWithin 3).after (.enter (.acquire Session.Pooling.number))).settleWithin 2,
    slowToClose.returned⟩

def givenBack : Scene :=
  ⟨((usedMeanwhile.loop.after (.release Session.Pooling.number 2)).after
    (.answerClose 3 none)).settleWithin 7, 4 :: usedMeanwhile.returned⟩

theorem givenBack_disciplined : Disciplined roomy givenBack := by
  have h₁ := bothGave_disciplined.tail
    (.event (.driver { bothGave.loop.opener with manualClose := true }) rfl trivial rfl)
  have h₂ := h₁.tail (.event (.tick 100.0) rfl trivial rfl)
  have h₃ := Disciplined.settleWithin (h₂.tail (.event (.enter (.evict _)) rfl .evict rfl)) 3
  have h₄ := Disciplined.settleWithin (h₃.tail (.event (.enter (.acquire _)) rfl .acquire rfl)) 2
  have h₅ : Disciplined roomy ⟨usedMeanwhile.loop.after (.release Session.Pooling.number 2),
      4 :: usedMeanwhile.returned⟩ := h₄.tail (.release (t := 4) rfl rfl)
  exact Disciplined.settleWithin (h₅.tail (.event (.answerClose 3 none) rfl trivial rfl)) 7

/-- A connection is about to be evicted that has been given back at this moment. -/
theorem fresh_connection_evicted : Disciplined roomy givenBack ∧ givenBack.loop.evicts? 3 = some 2 ∧
    ∃ s, givenBack.loop.pool? Session.Pooling.number = some s ∧
      (s.find? 2).map (·.releasedAt) = some givenBack.loop.clock ∧
      givenBack.loop.expired Session.Pooling.number = [] :=
  ⟨givenBack_disciplined, rfl, _, rfl, rfl, rfl⟩

end Loop

end SqliteAccess
