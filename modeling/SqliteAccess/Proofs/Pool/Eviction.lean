import SqliteAccess.Proofs.Pool.Rounds

/-!
Eviction takes only what rests, leaves the pool its minimum and tells how much it has removed. A sweep
brings the pool back to its minimum.
-/

namespace SqliteAccess

theorem Number.le_of_isInteger {a b : Number} (ha : a.isInteger = true) (hb : b.isInteger = true) :
    a.le b = decide (a.toInt ≤ b.toInt) := by
  rw [Number.le, Number.lt_of_isInteger hb ha, Number.exact_of_isInteger ha,
    Number.exact_of_isInteger hb, Bool.eq_iff_iff]
  simp [Number.Exact.isNumber]

namespace Pool.State

variable {s : State} {m M i : Nat}

theorem hasSpare_eq (h : s.settings.Sized m M) : s.hasSpare = decide (m < s.live.length) := by
  rw [hasSpare, Number.le_of_isInteger rfl h.leastInteger, h.least_eq, Bool.eq_iff_iff]
  simp [Number.toInt]

theorem live_without (hn : (s.connections.map (·.id)).Nodup) {c : Connection}
    (hc : s.find? i = some c) : s.live.length = (s.without i).live.length + 1 := by
  have hd := (departed_without hn hc).length_eq
  have hall := (s.without i).leases_perm.length_eq
  rw [leases_without, s.leases_perm.length_eq] at hall
  simp only [List.length_append, List.length_map, List.length_cons] at hd hall
  omega

end Pool.State

namespace Loop

section Scenes

variable {p m M t i : Nat} {settings : Config.PoolSettings} {x : Scene} {s : Pool.State}

theorem Disciplined.capped (hz : settings.Sized m M) (h : Disciplined settings x) :
    ∃ s, Scene.Kept Session.Pooling.number settings x s ∧ Reserved x.loop s ∧ s.size ≤ M := by
  induction h with
  | refl =>
    exact ⟨_, ⟨.ofPool settings, rfl, .ofPool settings, .ofPool settings⟩,
      ⟨Nat.le_refl _, Nat.le_refl _⟩, Nat.zero_le _⟩
  | tail _ hst ih =>
    obtain ⟨s, hk, hr, hM⟩ := ih
    obtain ⟨v, s', hm, hk'⟩ := hst.move hz.leastInteger hk
    have hc : Capped M s := .of_sized (hk.settings ▸ hz)
    exact ⟨s', hk', hr.move hk.sound hm, hm.capped hk.sound hr hc hM⟩

theorem Scene.Kept.removes (hk : Scene.Kept p settings x s) (hz : settings.Sized m M)
    (he : x.loop.evicts? t = some i) (hi : i ∈ s.idle) (hs : s.hasSpare = true) :
    ∃ l' s', x.loop.step? = some l' ∧ l'.pool? p = some s' ∧ s'.find? i = none ∧
      s.live.length = s'.live.length + 1 ∧ m ≤ s'.live.length := by
  obtain ⟨q, q', rest, n, k, hr⟩ := State.evicts?_eq he
  obtain ⟨c, hc, _⟩ := hk.owned.sole.free i hi
  have hq : q = p := by
    have hf := (hk.sound.running _ hr).1
    cases hf with
    | push ha hrest _ =>
      cases ha
      cases hrest
      rfl
  subst hq
  obtain ⟨l', hl, _, hp⟩ := State.destroy_step hk.sound.pool hk.sound.source hr hc
  have hlive := Pool.State.live_without hk.listed.once hc
  rw [Pool.State.hasSpare_eq (hk.settings ▸ hz), decide_eq_true_iff] at hs
  refine ⟨l', _, hl, hp, ?_, hlive, by omega⟩
  rw [Pool.State.find?_without, if_pos rfl]

theorem Sound.topped {d : Float} {o : Outcome .count} {k : Stack .unit} (h : Sound p x.loop s)
    (hz : s.settings.Sized m M) (hM : s.size ≤ M)
    (hr : x.loop.running = some ⟨t, .count, .give o, .push (.swept p d) k⟩)
    (ho : o ≠ .error .cancelled) (hc : s.closed = false) :
    ∃ l' s', x.loop.step? = some l' ∧ l'.pool? p = some s' ∧ s'.closed = false ∧ m ≤ s'.size ∧
      s'.size ≤ M := by
  have hk : k.Holds p (.reap p) := by
    cases (h.running _ hr).1 with
    | push hrest hk =>
      cases hrest
      exact hk
  have hrun : x.loop.running = some ((Work.back (.swept p d) o).on t k) := hr
  obtain ⟨s', cs, ha, hch⟩ := h.performs hrun (.back o (.swept d)) hk
  have hl := State.step?_of_running hrun
  rw [State.advance_on] at hl
  refine ⟨_, s', hl, (State.carryOn_pool _ _ _ _ _).trans hch.pool, ?_⟩
  generalize ((Work.back (.swept p d) o).perform x.loop).2 = n,
    ((Work.back (.swept p d) o).perform x.loop).1.nextConnection = N at ha
  cases ha with
  | sweptCut => exact absurd rfl ho
  | sweptFails _ _ he => exact absurd he (Pool.State.shortfall_ne_error hz.leastInteger _)
  | @sweptOver _ _ _ j hs _ =>
    rw [Pool.State.shortfall_eq hz, hc] at hs
    cases hs
    rw [Pool.State.size_expand]
    have hmM := hz.ordered
    simp only [Bool.false_eq_true, if_false]
    exact ⟨hc, by omega, by omega⟩

end Scenes

/-- What a round is about to remove rests and is nobody's, and the pool keeps its minimum without it. A
round that comes back has counted what it has removed. After a round of the sweep the open pool has its
minimum, and at no time it has more than its maximum. -/
theorem eviction_spares_minimum {settings : Config.PoolSettings} {m M : Nat} (hz : settings.Sized m M)
    {past : List Scene} {x : Scene} (h : Trace settings past x) :
    ∃ s, x.loop.pool? Session.Pooling.number = some s ∧ s.size ≤ M ∧
      (∀ t i, x.loop.evicts? t = some i → i ∈ s.idle ∧ (∀ t', ¬ x.Owns s t' i) ∧
        ∃ l' s', x.loop.step? = some l' ∧ l'.pool? Session.Pooling.number = some s' ∧
          s'.find? i = none ∧ s.live.length = s'.live.length + 1 ∧ m ≤ s'.live.length) ∧
      (∀ t n k, x.loop.running = some ⟨t, .count, .give (.ok n), k⟩ →
        (evicted t past).Nodup ∧ (evicted t past).length = n) ∧
      (∀ t d o k,
        x.loop.running = some ⟨t, .count, .give o, .push (.swept Session.Pooling.number d) k⟩ →
        o ≠ .error .cancelled → s.closed = false →
        ∃ l' s', x.loop.step? = some l' ∧ l'.pool? Session.Pooling.number = some s' ∧
          s'.closed = false ∧ m ≤ s'.size ∧ s'.size ≤ M) := by
  obtain ⟨s, hk, hr⟩ := h.rounds hz.leastInteger
  obtain ⟨s', hk', _, hM⟩ := h.disciplined.capped hz
  cases hk.sound.pool.symm.trans hk'.sound.pool
  refine ⟨s, hk.sound.pool, hM, fun t i he => ?_, fun t n k hrun => ?_, fun t d o k hrun ho hc => ?_⟩
  · obtain ⟨-, hi, hs⟩ := hr.next t i he
    refine ⟨hi, fun t' hown => ?_, hk.removes hz he hi hs⟩
    have hout := hk.owned.sole.idle_apart hi
    rw [← List.append_assoc] at hout
    exact hout (List.mem_append_left _ (Scene.owned_iff.mpr ⟨t', hown⟩))
  · exact ⟨(hr.gone t).1, hr.told t n k hrun⟩
  · exact hk.sound.topped (hk.settings ▸ hz) hM hrun ho hc

def evictionBegins : Scene :=
  ⟨(bothGave.loop.after (.tick 100.0)).after (.enter (.evict Session.Pooling.number)), bothGave.returned⟩

def evictionRemoves : Scene := ⟨evictionBegins.loop.settleWithin 1, evictionBegins.returned⟩

def evictionEnds : Scene := ⟨evictionBegins.loop.settleWithin 9, evictionBegins.returned⟩

theorem evictionBegins_disciplined : Disciplined roomy evictionBegins := by
  have h : Disciplined roomy ⟨bothGave.loop.after (.tick 100.0), bothGave.returned⟩ :=
    bothGave_disciplined.tail (.event (.tick _) rfl trivial rfl)
  exact h.tail (.event (.enter (.evict _)) rfl .evict rfl)

theorem roomy_sized : roomy.Sized 0 2 := ⟨rfl, rfl, rfl, rfl, by decide, by decide⟩

theorem eviction_spares_minimum_roomy : roomy.Sized 0 2 ∧
    (∃ past, Trace roomy past evictionRemoves ∧ ∃ s,
      evictionRemoves.loop.pool? Session.Pooling.number = some s ∧ 1 ∈ s.idle ∧
        ∀ t, ¬ evictionRemoves.Owns s t 1) ∧
    ∃ past, Trace roomy past evictionEnds ∧ (evicted 3 past).length = 2 := by
  obtain ⟨past, h⟩ := (evictionBegins_disciplined.settleWithin 1).trace
  obtain ⟨past', h'⟩ := (evictionBegins_disciplined.settleWithin 9).trace
  obtain ⟨s, hs, _, hremoves, _⟩ := eviction_spares_minimum roomy_sized h
  obtain ⟨hidle, hown, _⟩ := hremoves 3 1 rfl
  obtain ⟨_, _, _, _, hcounts, _⟩ := eviction_spares_minimum roomy_sized h'
  exact ⟨roomy_sized, ⟨past, h, s, hs, hidle, hown⟩, past', h', (hcounts 3 2 _ rfl).2⟩

end Loop

end SqliteAccess
